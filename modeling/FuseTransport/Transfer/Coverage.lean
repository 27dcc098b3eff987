import FuseTransport.Transfer.Admission
import FuseTransport.Transfer.Chunks
import FuseTransport.Transfer.Shards

/-!
# When success means the whole file

Every lane decides on its own that it has all of its bytes, and the call succeeds
when all lanes do.  That adds up to the file when the sender cut it for as many
lanes as the receiver has and no byte is counted twice.
-/

namespace FuseTransport.Transfer

open Foundation Foundation.Runs Proto

/-- A byte that is there: written in this session, or in a chunk taken over from an
earlier one. -/
def Sink.Covers (s : Sink) (p : Nat) : Prop :=
  s.Holds p ∨ (s.resumed = true ∧ s.adopted (p / s.chunk) = true)

instance (s : Sink) (p : Nat) : Decidable (s.Covers p) :=
  inferInstanceAs (Decidable
    (s.bytes p ≠ none ∨ (s.resumed = true ∧ s.adopted (p / s.chunk) = true)))

variable {p : Nat}

theorem Takes.covers {before after : Sink} {reported : List (Item × Completion)}
    (takes : Takes before reported after) (covered : before.Covers p) :
    after.Covers p := by
  refine covered.imp (takes.kept p) ?_
  rw [takes.shape.resumed, takes.shape.adopted, takes.shape.chunk]
  exact id

structure Sized (sh : Shared) : Prop where
  sized : sh.sinkState = .ready → sh.fileTotal = sh.sink.total ∧ sh.fileTotal ≤ kMaxSize
  chunks : sh.sinkState = .ready → sh.sink.resumed = true →
    0 < sh.sink.chunk ∧ sh.sink.total ≤ sh.sink.nchunks * sh.sink.chunk
  unused : sh.sinkState ≠ .ready → sh.sink.nchunks = 0 ∧ sh.sink.resumed = false

/-- And whose counters count no byte twice. -/
structure Output (sh : Shared) : Prop extends Sized sh where
  counted : sh.sink.Counted

variable {sh : Shared}

theorem Sized.fileTotal_ne (output : Sized sh) (ready : sh.sinkState = .ready) :
    sh.fileTotal ≠ kNone := by
  have hbound := (output.sized ready).2
  unfold kMaxSize at hbound
  unfold kNone
  omega

theorem le_chunks_mul (total : Nat) {chunk : Nat} (positive : 0 < chunk) :
    total ≤ (total + chunk - 1) / chunk * chunk := by
  have hbound := Nat.lt_mul_div_succ (total + chunk - 1) positive
  rw [Nat.mul_succ, Nat.mul_comm] at hbound
  omega

/-- A sink that is sized counts no byte yet, apart from the chunks it takes over. -/
theorem Sink.prepare_sized {s sized : Sink} {works : Bool} {totalBytes fileId : Nat}
    (chunks : s.nchunks = 0) (fresh : s.resumed = false)
    (prepared : s.prepare works totalBytes fileId = some sized) :
    sized.total = totalBytes ∧ totalBytes ≤ kMaxSize ∧
      (sized.resumed = true → 0 < sized.chunk ∧ sized.total ≤ sized.nchunks * sized.chunk) ∧
      sized.Counted ∧ sized.bytes = s.bytes := by
  obtain ⟨hfits, prepared⟩ := Option.ite_none_left_eq_some.mp prepared
  rw [not_or, Nat.not_lt] at hfits
  split at prepared
  · rw [← Option.some.inj prepared]
    refine ⟨rfl, hfits.1, fun resumed => absurd (fresh.symm.trans resumed) (by decide), ?_, rfl⟩
    intro c hc
    rw [chunks] at hc
    exact absurd hc (Nat.not_lt_zero c)
  · dsimp only at prepared
    split at prepared
    · rw [← Option.some.inj prepared]
      exact ⟨rfl, hfits.1, fun resumed => absurd (fresh.symm.trans resumed) (by decide),
        fun c _ _ => Nat.zero_le _, rfl⟩
    · split at prepared
      · rw [← Option.some.inj prepared]
        refine ⟨rfl, hfits.1, fun _ => ⟨chunkFor_pos _, le_chunks_mul _ (chunkFor_pos _)⟩, ?_, rfl⟩
        intro c _ own
        refine Nat.le_trans (Nat.le_of_eq (if_neg ?_)) (Nat.zero_le _)
        exact Bool.eq_false_iff.mp own
      · rw [← Option.some.inj prepared]
        exact ⟨rfl, hfits.1, fun resumed => absurd (fresh.symm.trans resumed) (by decide),
          fun c _ _ => Nat.zero_le _, rfl⟩

/-- What later steps only add to. -/
structure Grows (sh sh' : Shared) : Prop where
  held : ∀ p, sh.sink.Holds p → sh'.sink.Holds p
  ready : sh.sinkState = .ready → sh'.sinkState = .ready ∧ sh'.fileTotal = sh.fileTotal ∧
    ∀ p, sh.sink.Covers p → sh'.sink.Covers p

theorem Grows.refl (sh : Shared) : Grows sh sh := ⟨fun _ => id, fun ready => ⟨ready, rfl, fun _ => id⟩⟩

variable {ss : StreamStart}

/-- The first lane to claim a size has the output sized; the others agree with it. -/
theorem claim_sized {claimed : Shared} {prepares : Bool} (output : Sized sh)
    (agreed : RecvLane.claim sh prepares ss = some claimed) :
    Sized claimed ∧ claimed.fileTotal = ss.fileTotalBytes ∧
      claimed.sink.bytes = sh.sink.bytes ∧ (sh.sinkState = .ready → claimed = sh) ∧
      (sh.sink.Counted → claimed.sink.Counted) := by
  unfold RecvLane.claim at agreed
  split at agreed
  · rename_i hnone
    have hunready : sh.sinkState ≠ .ready := fun ready => output.fileTotal_ne ready hnone
    obtain ⟨hchunks, hfresh⟩ := output.unused hunready
    split at agreed
    · rename_i sized hprepare
      rw [← Option.some.inj agreed]
      obtain ⟨htotal, hbound, hgeometry, hcounted, hbytes⟩ :=
        Sink.prepare_sized hchunks hfresh hprepare
      exact ⟨⟨fun _ => ⟨htotal.symm, hbound⟩, fun _ => hgeometry, fun unready => absurd rfl unready⟩,
        rfl, hbytes, fun ready => absurd ready hunready, fun _ => hcounted⟩
    · rw [← Option.some.inj agreed]
      exact ⟨⟨nofun, nofun, fun _ => ⟨hchunks, hfresh⟩⟩, rfl, rfl,
        fun ready => absurd ready hunready, id⟩
  · split at agreed
    · rename_i hsame
      rw [← Option.some.inj agreed]
      exact ⟨output, hsame, rfl, fun _ => rfl, id⟩
    · cases agreed

theorem claim_output {claimed : Shared} {prepares : Bool} (output : Output sh)
    (agreed : RecvLane.claim sh prepares ss = some claimed) :
    Output claimed ∧ Grows sh claimed ∧ claimed.fileTotal = ss.fileTotalBytes := by
  obtain ⟨hsized, htotal, hbytes, hready, hcounted⟩ := claim_sized output.toSized agreed
  refine ⟨⟨hsized, hcounted output.counted⟩, ⟨fun p held => ?_, fun ready => ?_⟩, htotal⟩
  · unfold Sink.Holds
    rw [hbytes]
    exact held
  · rw [hready ready]
    exact ⟨ready, rfl, fun _ => id⟩

/-- A batch leaves the size of the output alone. -/
theorem Sized.drained {after : Shared} (output : Sized sh)
    (state : after.sinkState = sh.sinkState) (total : after.fileTotal = sh.fileTotal)
    (shape : sh.sink.SameShape after.sink) : Sized after := by
  obtain ⟨_, hresumed, hsize, hchunk, hnchunks, _⟩ := shape
  constructor
  case sized => rw [state, total, hsize]; exact output.sized
  case chunks => rw [state, hresumed, hsize, hchunk, hnchunks]; exact output.chunks
  case unused => rw [state, hresumed, hnchunks]; exact output.unused

variable {lane : Nat} {e : RxEvent} {sh' : Shared}

namespace RecvLane

def Asked (L : RecvLane) (p : Nat) : Prop :=
  ∃ r ∈ L.log.want, L.laneBase + r.offset ≤ p ∧ p < L.laneBase + r.offset + r.length

/-- A lane that has joined: its place is the one a sender with as many lanes gives
it, and everything there was asked for or is there. -/
structure Joined (cfg : RxConfig) (lane : Nat) (sh : Shared) (L : RecvLane) : Prop where
  ready : sh.sinkState = .ready
  laneBase : L.laneBase = shardOffset sh.fileTotal cfg.lanes lane
  shardBytes : L.shardBytes = shardLength sh.fileTotal cfg.lanes lane
  expected : L.expectedBytes = u64 (L.log.want.map fun r => r.length).sum
  ascending : Ascending 0 L.shardBytes L.log.want
  needed : ∀ p, L.laneBase ≤ p → p < L.laneBase + L.shardBytes → L.Asked p ∨ sh.sink.Covers p

/-- What is not asked for is in a complete chunk. -/
theorem wanted_ascending (output : Sized sh) (ready : sh.sinkState = .ready) {base shard : Nat}
    (inside : base + shard ≤ sh.fileTotal) :
    Ascending 0 shard (wanted sh.sink base shard) ∧
      ∀ p, base ≤ p → p < base + shard → Names (wanted sh.sink base shard) (p - base) ∨
        (sh.sink.resumed = true ∧ sh.sink.chunkComplete (p / sh.sink.chunk) = true) := by
  rw [(output.sized ready).1] at inside
  obtain ⟨hasc, hneeded⟩ := sh.sink.missing_spec (Nat.le_add_right base shard) inside
    (output.chunks ready)
  have hshift := hasc.shift (Nat.le_refl base)
  rw [Nat.sub_self, Nat.add_sub_cancel_left] at hshift
  obtain ⟨hwanted, hwidens⟩ := hshift.coarsenRanges kMaxResumeRanges
  refine ⟨hwanted, fun p habove hbelow => (hneeded p habove hbelow).imp_left fun hnamed => ?_⟩
  exact hwidens.covers _ (hnamed.shift base)

theorem wanted_spec (output : Output sh) (ready : sh.sinkState = .ready) {base shard : Nat}
    (inside : base + shard ≤ sh.fileTotal) :
    Ascending 0 shard (wanted sh.sink base shard) ∧
      ∀ p, base ≤ p → p < base + shard →
        Names (wanted sh.sink base shard) (p - base) ∨ sh.sink.Covers p := by
  obtain ⟨hwanted, hneeded⟩ := wanted_ascending output.toSized ready inside
  rw [(output.sized ready).1] at inside
  refine ⟨hwanted, fun p habove hbelow => (hneeded p habove hbelow).imp_right ?_⟩
  rintro ⟨hresumed, hcomplete⟩
  obtain ⟨hpositive, htiles⟩ := output.chunks ready hresumed
  have hp : p < sh.sink.total := Nat.lt_of_lt_of_le hbelow inside
  cases hown : sh.sink.adopted (p / sh.sink.chunk) with
  | true => exact Or.inr ⟨hresumed, hown⟩
  | false =>
    refine Or.inl (output.counted.complete hpositive hp ?_ hown hcomplete)
    exact (Nat.div_lt_iff_lt_mul hpositive).mpr (Nat.lt_of_lt_of_le hp htiles)

theorem join_joined {cfg : RxConfig} {L : RecvLane} (output : Output sh)
    (ready : sh.sinkState = .ready) (size : sh.fileTotal = ss.fileTotalBytes) (works : Nat → Bool)
    (keys : Option (List UInt8) × Option Signer)
    (base : ss.streamBaseOffset = shardOffset ss.fileTotalBytes cfg.lanes lane)
    (shard : ss.totalBytes = shardLength ss.fileTotalBytes cfg.lanes lane) :
    Joined cfg lane sh (L.join sh lane ss works keys) := by
  have hinside : ss.streamBaseOffset + ss.totalBytes ≤ sh.fileTotal := by
    rw [base, shard, size]
    exact shard_inside _ _ _
  obtain ⟨hasc, hneeded⟩ := wanted_spec output ready hinside
  refine ⟨ready, by rw [size]; exact base, by rw [size]; exact shard, rfl, hasc, ?_⟩
  intro p habove hbelow
  refine (hneeded p habove hbelow).imp_left ?_
  rintro ⟨r, member, hlow, hhigh⟩
  refine ⟨r, member, ?_, ?_⟩
  · change ss.streamBaseOffset + r.offset ≤ p
    change ss.streamBaseOffset ≤ p at habove
    omega
  · change p < ss.streamBaseOffset + r.offset + r.length
    omega

/-- A change that leaves alone where the lane is and what it asked for. -/
structure SamePlace (L L' : RecvLane) : Prop where
  haveStart : L'.haveStart = L.haveStart
  laneBase : L'.laneBase = L.laneBase
  shardBytes : L'.shardBytes = L.shardBytes
  expectedBytes : L'.expectedBytes = L.expectedBytes
  want : L'.log.want = L.log.want

section Place

variable {cfg : RxConfig} {L L' : RecvLane}

theorem SamePlace.refl (L : RecvLane) : SamePlace L L := ⟨rfl, rfl, rfl, rfl, rfl⟩

theorem Untouched.place (same : Untouched L L') : SamePlace L L' := by
  rw [same.rest]
  exact ⟨rfl, rfl, rfl, rfl, rfl⟩

theorem dispatch_place {dg : List UInt8} {d : DataDatagram}
    (handed : dispatch cfg L dg d = some L') : SamePlace L L' ∧ L'.status = L.status := by
  unfold dispatch at handed
  split at handed
  · rw [← Option.some.inj handed]
    exact ⟨⟨rfl, rfl, rfl, rfl, rfl⟩, rfl⟩
  · cases handed

theorem drainResults_place (L : RecvLane) (nowNs k count : Nat) :
    SamePlace L (L.drainResults nowNs k count) ∧
      (L.drainResults nowNs k count).status = L.status := by
  have hstep : ∀ M M' c rest, SamePlace L M ∧ M.status = L.status → M.dones k = c :: rest →
      Taken k nowNs c rest M M' → SamePlace L M' ∧ M'.status = L.status := by
    intro M M' c rest kept _ taken
    rw [taken.rest]
    exact ⟨⟨kept.1.haveStart, kept.1.laneBase, kept.1.shardBytes, kept.1.expectedBytes,
      kept.1.want⟩, kept.2⟩
  exact drainResults_induction hstep count ⟨SamePlace.refl L, rfl⟩

/-- A lane takes its place by an opening message, and once. -/
theorem Moved.place (moved : Moved cfg lane sh L e sh' L') :
    SamePlace L L' ∨ (L.haveStart = false ∧ L'.haveStart = true ∧
      ∃ inp dg ss keys, e = .datagram lane inp dg ∧ decodeStreamStart dg = some ss ∧
        trial cfg.keyed lane ss dg inp.derives = some keys ∧
        L' = L.join sh' lane ss inp.works keys) := by
  cases moved with
  | quiet _ _ _ same => exact Or.inl same.place
  | unprepared => exact Or.inl ⟨rfl, rfl, rfl, rfl, rfl⟩
  | joined inp dg ss keys _ _ _ decoded before authentic =>
    exact Or.inr ⟨before, rfl, inp, dg, ss, keys, rfl, decoded, authentic, rfl⟩
  | handedOut _ _ _ _ _ _ _ _ _ handed => exact Or.inl (dispatch_place handed).1
  | drained => exact Or.inl ⟨rfl, rfl, rfl, rfl, rfl⟩
  | verdicts k count nowNs => exact Or.inl (drainResults_place L nowNs k count).1

end Place

end RecvLane

def Write.spots (w : Write) : List Nat := List.range' w.off w.body.length

def laneSpots (sh : Shared) (lane : Nat) : List Nat :=
  (sh.writes.filter fun w => w.lane = lane).flatMap Write.spots

theorem writeOf_some {reported : Item × Completion} {w : Write}
    (wrote : writeOf lane reported = some w) :
    reported.2.result = .written ∧ w.spots = reported.1.spots := by
  unfold writeOf at wrote
  split at wrote
  · rename_i hboth
    rw [← Option.some.inj wrote]
    exact ⟨hboth.1, rfl⟩
  · cases wrote

theorem writeSpots_sublist (lane : Nat) (reported : List (Item × Completion)) :
    ((reported.filterMap (writeOf lane)).flatMap Write.spots).Sublist
      ((reported.map Prod.fst).flatMap Item.spots) := by
  induction reported with
  | nil => exact List.Sublist.refl _
  | cons r rest ih =>
    cases hwrite : writeOf lane r with
    | none =>
      rw [List.filterMap_cons_none hwrite]
      exact ih.trans (List.sublist_append_right _ _)
    | some w =>
      rw [List.filterMap_cons_some hwrite, List.flatMap_cons, (writeOf_some hwrite).2]
      exact ih.append_left _

namespace RecvLane

/-- What a lane's success rests on: its place, what it has written, and what it had
counted when it left. -/
structure Covering (cfg : RxConfig) (lane : Nat) (sh : Shared) (L : RecvLane) : Prop where
  joined : L.haveStart = true → L.Joined cfg lane sh
  once : (laneSpots sh lane).Nodup
  held : ∀ p ∈ laneSpots sh lane, sh.sink.Holds p
  asked : ∀ p ∈ laneSpots sh lane, L.Asked p
  succeeded : L.status = some .ok → L.haveStart = true ∧ L.written = L.expectedBytes

section Covering

variable {cfg : RxConfig} {lane : Nat} {sh sh' : Shared} {L L' : RecvLane}

theorem Joined.grow (joined : L.Joined cfg lane sh) (grows : Grows sh sh') :
    L.Joined cfg lane sh' := by
  obtain ⟨hready, htotal, hcovers⟩ := grows.ready joined.ready
  refine { joined with ready := hready, laneBase := ?_, shardBytes := ?_, needed := ?_ }
  · rw [htotal]
    exact joined.laneBase
  · rw [htotal]
    exact joined.shardBytes
  · exact fun p habove hbelow => (joined.needed p habove hbelow).imp_right (hcovers p)

theorem Covering.grow (covering : L.Covering cfg lane sh) (grows : Grows sh sh')
    (writes : laneSpots sh' lane = laneSpots sh lane) : L.Covering cfg lane sh' where
  joined := fun started => (covering.joined started).grow grows
  once := by rw [writes]; exact covering.once
  held := by rw [writes]; exact fun p member => grows.held p (covering.held p member)
  asked := by rw [writes]; exact covering.asked
  succeeded := covering.succeeded

theorem SamePlace.asked (same : SamePlace L L') : L'.Asked p ↔ L.Asked p := by
  unfold Asked
  rw [same.want, same.laneBase]

theorem Covering.place (covering : L.Covering cfg lane sh) (same : SamePlace L L')
    (succeeded : L'.status = some .ok → L'.haveStart = true ∧ L'.written = L'.expectedBytes) :
    L'.Covering cfg lane sh where
  joined := by
    intro started
    have before := covering.joined (same.haveStart ▸ started)
    constructor
    case ready => exact before.ready
    case laneBase => rw [same.laneBase]; exact before.laneBase
    case shardBytes => rw [same.shardBytes]; exact before.shardBytes
    case expected => rw [same.expectedBytes, same.want]; exact before.expected
    case ascending => rw [same.shardBytes, same.want]; exact before.ascending
    case needed =>
      rw [same.laneBase, same.shardBytes]
      exact fun p habove hbelow => (before.needed p habove hbelow).imp_left same.asked.mpr
  once := covering.once
  held := covering.held
  asked := fun p member => same.asked.mpr (covering.asked p member)
  succeeded := succeeded

/-- A lane that asked for its bytes and counted as many as it asked for has them. -/
theorem Covering.complete (covering : L.Covering cfg lane sh) (accounts : L.Inv cfg lane sh)
    (output : Output sh) (ok : L.status = some .ok) (p : Nat) (above : L.laneBase ≤ p)
    (below : p < L.laneBase + L.shardBytes) : sh.sink.Covers p := by
  obtain ⟨hstarted, hwritten⟩ := covering.succeeded ok
  have joined := covering.joined hstarted
  rcases joined.needed p above below with hasked | hcovered
  · let counted := (sh.writes.filter fun w => w.lane = lane && L.rx.Accepted w.seq).flatMap
      Write.spots
    let wanted := (spots L.log.want).map (L.laneBase + ·)
    have hcounted : counted.Sublist (laneSpots sh lane) := by
      have hswap : (sh.writes.filter fun w => w.lane = lane && L.rx.Accepted w.seq) =
          (sh.writes.filter fun w => w.lane = lane).filter fun w => L.rx.Accepted w.seq := by
        rw [List.filter_filter]
        exact List.filter_congr fun w _ => Bool.and_comm _ _
      change (List.flatMap _ _).Sublist _
      rw [hswap]
      exact List.filter_sublist.flatMap _
    have hsize : counted.length = ((sh.writes.filter fun w =>
        w.lane = lane && L.rx.Accepted w.seq).map fun w => w.body.length).sum := by
      simp [counted, Write.spots]
    have hwanted : wanted.length = (L.log.want.map fun r => r.length).sum := by
      rw [List.length_map, length_spots]
    have hasks : ∀ q, L.Asked q → q ∈ wanted := by
      rintro q ⟨r, member, hlow, hhigh⟩
      refine List.mem_map.mpr ⟨q - L.laneBase, (mem_spots _ _).mpr ⟨r, member, ?_, ?_⟩, ?_⟩
      · omega
      · omega
      · omega
    have hsubset : counted ⊆ wanted := fun q member =>
      hasks q (covering.asked q (hcounted.subset member))
    have hsubperm := List.subperm_of_subset (covering.once.sublist hcounted) hsubset
    have hbound : (L.log.want.map fun r => r.length).sum < 2 ^ 64 := by
      have hsum := joined.ascending.sum_le
      have hinside := shard_inside sh.fileTotal cfg.lanes lane
      have htotal := (output.sized joined.ready).2
      rw [← joined.shardBytes] at hinside
      unfold kMaxSize at htotal
      omega
    have hequal : counted.length = wanted.length := by
      have hle := hsubperm.length_le
      have hwords := accounts.written_eq.symm.trans (hwritten.trans joined.expected)
      rw [← hsize, ← hwanted, u64_of_lt (by omega), u64_of_lt (by omega)] at hwords
      exact hwords
    have hperm := hsubperm.perm_of_length_le (Nat.le_of_eq hequal.symm)
    have hmember : p ∈ counted := hperm.mem_iff.mpr (hasks p hasked)
    exact Or.inl (covering.held p (hcounted.subset hmember))
  · exact hcovered

end Covering

end RecvLane

/-! ## Steps that keep to the plan -/

/-- A step that keeps to the plan: a lane is joined at the place a sender with as
many lanes gives it, and a batch brings only bytes the lane asked for, none of them
for the second time. -/
def RxState.KeepsPlan (cfg : RxConfig) (st next : RxState) : RxEvent → Prop
  | .datagram lane _ dg => (st.lanes lane).haveStart = false → (next.lanes lane).haveStart = true →
      ∀ ss ∈ decodeStreamStart dg,
        ss.streamBaseOffset = shardOffset ss.fileTotalBytes cfg.lanes lane ∧
        ss.totalBytes = shardLength ss.fileTotalBytes cfg.lanes lane
  | .consumer lane k count _ =>
    (((st.lanes lane).nextItems cfg lane k count).flatMap Item.spots).Nodup ∧
    ∀ p ∈ ((st.lanes lane).nextItems cfg lane k count).flatMap Item.spots,
      (st.lanes lane).Asked p ∧ ¬ st.shared.sink.Holds p
  | _ => True

def RxState.Planned (cfg : RxConfig) (st : RxState) (e : RxEvent) : Prop :=
  ∀ next ∈ st.step cfg e, st.KeepsPlan cfg next e

namespace RecvLane

section Steps

variable {cfg : RxConfig} {lane : Nat} {sh : Shared} {L : RecvLane} {k count : Nat}

/-- Only a lane that has joined has blocks to write. -/
theorem Ledger.started_of_next (holds : L.Ledger cfg lane sh) (inside : k ≤ cfg.writers)
    (member : p ∈ (L.nextItems cfg lane k count).flatMap Item.spots) : L.haveStart = true := by
  cases hidle : L.haveStart with
  | true => rfl
  | false =>
    obtain ⟨item, hitem, _⟩ := List.mem_flatMap.mp member
    obtain ⟨slot, hslot, _⟩ := List.mem_map.mp hitem
    have hfilled : slot ∈ L.filled cfg := List.mem_append_left _
      (Channels.mem_contents.mpr ⟨k, Nat.lt_succ_of_le inside, List.mem_of_mem_take hslot⟩)
    rw [holds.filled_of_idle hidle] at hfilled
    cases hfilled

theorem Joined.inside (joined : L.Joined cfg lane sh) (output : Output sh) (asked : L.Asked p) :
    p < sh.sink.total := by
  obtain ⟨r, member, hlow, hhigh⟩ := asked
  have hname : Names L.log.want (p - L.laneBase) := ⟨r, member, by omega, by omega⟩
  have hnamed := joined.ascending.named hname
  have hinside := shard_inside sh.fileTotal cfg.lanes lane
  rw [← joined.laneBase, ← joined.shardBytes] at hinside
  rw [← (output.sized joined.ready).1]
  omega

theorem drainChannel_covering (accounts : L.Inv cfg lane sh) (output : Output sh)
    (covering : L.Covering cfg lane sh) (inside : k ≤ cfg.writers)
    (failsAfter : Nat → Option Nat)
    (once : ((L.nextItems cfg lane k count).flatMap Item.spots).Nodup)
    (planned : ∀ p ∈ (L.nextItems cfg lane k count).flatMap Item.spots,
      L.Asked p ∧ ¬ sh.sink.Holds p) :
    Output (drainChannel cfg lane k count failsAfter sh L).1 ∧
      Grows sh (drainChannel cfg lane k count failsAfter sh L).1 ∧
      (drainChannel cfg lane k count failsAfter sh L).2.Covering cfg lane
        (drainChannel cfg lane k count failsAfter sh L).1 := by
  have hunwritten : Unwritten sh.sink (L.nextItems cfg lane k count) := by
    refine ⟨once, fun p member => (planned p member).2, fun p member => ?_⟩
    exact (covering.joined (accounts.ledger.started_of_next inside member)).inside output
      (planned p member).1
  have hcounted : (drainChannel cfg lane k count failsAfter sh L).1.sink.Counted := by
    refine writeRuns_counted lane failsAfter 0 (fun run member => contiguous_of_mem_runs member)
      output.counted ?_
    unfold runs
    rw [List.flatten_splitBy]
    exact hunwritten
  obtain ⟨handled, drained, hitems⟩ := drainChannel_drained cfg lane k count failsAfter sh L
  have hready : (drainChannel cfg lane k count failsAfter sh L).1.sinkState = sh.sinkState := rfl
  have htotal : (drainChannel cfg lane k count failsAfter sh L).1.fileTotal = sh.fileTotal := rfl
  have hplace : SamePlace L (drainChannel cfg lane k count failsAfter sh L).2 :=
    ⟨rfl, rfl, rfl, rfl, rfl⟩
  have hsucceeded : (drainChannel cfg lane k count failsAfter sh L).2.status = some .ok →
      (drainChannel cfg lane k count failsAfter sh L).2.haveStart = true ∧
      (drainChannel cfg lane k count failsAfter sh L).2.written =
        (drainChannel cfg lane k count failsAfter sh L).2.expectedBytes := covering.succeeded
  generalize drainChannel cfg lane k count failsAfter sh L = after at *
  have hgrows : Grows sh after.1 := ⟨drained.takes.kept, fun ready =>
    ⟨hready.trans ready, htotal, fun _ => drained.takes.covers⟩⟩
  have hspots : laneSpots after.1 lane = laneSpots sh lane ++
      ((handled.map (L.examined cfg lane)).filterMap (writeOf lane)).flatMap Write.spots := by
    unfold laneSpots
    rw [drained.writes, List.filter_append, writes_of_lane, if_pos rfl, List.flatMap_append]
  have hnew := writeSpots_sublist lane (handled.map (L.examined cfg lane))
  rw [hitems] at hnew
  refine ⟨?_, hgrows, ?_⟩
  · exact ⟨output.toSized.drained hready htotal drained.takes.shape, hcounted⟩
  · have hlane : L.Covering cfg lane after.1 := by
      constructor
      case joined => exact fun started => (covering.joined started).grow hgrows
      case once =>
        rw [hspots, List.nodup_append]
        refine ⟨covering.once, once.sublist hnew, ?_⟩
        rintro p hold q hfresh rfl
        exact (planned p (hnew.subset hfresh)).2 (covering.held p hold)
      case held =>
        rw [hspots]
        intro p member
        rcases List.mem_append.mp member with hold | hfresh
        · exact drained.takes.kept p (covering.held p hold)
        · obtain ⟨w, hw, hp⟩ := List.mem_flatMap.mp hfresh
          obtain ⟨r, hr, hwrote⟩ := List.mem_filterMap.mp hw
          obtain ⟨hwritten, hsame⟩ := writeOf_some hwrote
          rw [hsame] at hp
          obtain ⟨b, hat⟩ := (r.1.mem_spots p).mp hp
          exact drained.takes.stored r hr hwritten p b hat
      case asked =>
        rw [hspots]
        intro p member
        rcases List.mem_append.mp member with hold | hfresh
        · exact covering.asked p hold
        · exact (planned p (hnew.subset hfresh)).1
      case succeeded => exact covering.succeeded
    exact hlane.place hplace hsucceeded

theorem Ledger.laneSpots_idle (holds : L.Ledger cfg lane sh) (idle : L.haveStart = false) :
    laneSpots sh lane = [] := by
  unfold laneSpots
  rw [holds.writes, (holds.idle idle).1]
  rfl

/-- A change of a lane that keeps to the plan. -/
theorem Moved.covering {st next : RxState} {L' : RecvLane}
    (moved : Moved cfg lane st.shared (st.lanes lane) e sh' L') (landed : next.lanes lane = L')
    (planned : st.KeepsPlan cfg next e) (accounts : (st.lanes lane).Inv cfg lane st.shared) (output : Output st.shared)
    (covering : (st.lanes lane).Covering cfg lane st.shared) :
    Output sh' ∧ Grows st.shared sh' ∧ L'.Covering cfg lane sh' := by
  cases moved with
  | quiet _ digest _ same running leaves =>
    refine ⟨⟨⟨output.sized, output.chunks, output.unused⟩, output.counted⟩,
      ⟨fun _ => id, fun ready => ⟨ready, rfl, fun _ => id⟩⟩, ?_⟩
    have hlane : (st.lanes lane).Covering cfg lane { st.shared with digest := digest } :=
      covering.grow ⟨fun _ => id, fun ready => ⟨ready, rfl, fun _ => id⟩⟩ rfl
    refine hlane.place same.place fun ok => ?_
    obtain ⟨hcompleted, hwritten⟩ := leaves ok
    have hstarted : (st.lanes lane).haveStart = true := by
      simp only [completed, Bool.and_eq_true] at hcompleted
      exact hcompleted.1.1.1
    rw [same.place.haveStart, same.place.expectedBytes, ← hwritten]
    exact ⟨hstarted, by rw [same.rest]⟩
  | unprepared _ _ _ _ running agreed _ status failed =>
    obtain ⟨houtput, hgrows, _⟩ := claim_output output agreed
    refine ⟨houtput, hgrows, (covering.grow hgrows ?_).place ⟨rfl, rfl, rfl, rfl, rfl⟩
      fun ok => absurd ok failed⟩
    unfold laneSpots
    rw [claim_writes agreed]
  | joined inp dg ss keys claimed running peeked decoded before authentic within agreed ready =>
    obtain ⟨houtput, hgrows, hsize⟩ := claim_output output agreed
    obtain ⟨hbase, hshard⟩ := planned before (by rw [landed]; rfl) ss decoded
    have hnone : laneSpots sh' lane = [] := by
      unfold laneSpots
      rw [claim_writes agreed]
      exact accounts.ledger.laneSpots_idle before
    refine ⟨houtput, hgrows, ⟨fun _ => join_joined houtput ready hsize inp.works keys hbase hshard,
      ?_, ?_, ?_, ?_⟩⟩
    · rw [hnone]
      exact List.nodup_nil
    · rw [hnone]
      exact fun p member => absurd member List.not_mem_nil
    · rw [hnone]
      exact fun p member => absurd member List.not_mem_nil
    · intro ok
      change (st.lanes lane).status = some .ok at ok
      rw [running] at ok
      cases ok
  | handedOut _ _ d _ running _ _ _ _ handed =>
    obtain ⟨hplace, hstatus⟩ := dispatch_place handed
    refine ⟨output, Grows.refl _, covering.place hplace fun ok => ?_⟩
    rw [hstatus, running] at ok
    cases ok
  | drained k count failsAfter inside =>
    exact drainChannel_covering accounts output covering inside failsAfter planned.1 planned.2
  | verdicts k count nowNs running inside =>
    obtain ⟨hplace, hstatus⟩ := drainResults_place (st.lanes lane) nowNs k count
    refine ⟨output, Grows.refl _, covering.place hplace fun ok => ?_⟩
    rw [hstatus, running] at ok
    cases ok

/-- A lane's success is final. -/
theorem Moved.status_ok {L' : RecvLane} (moved : Moved cfg lane sh L e sh' L')
    (ok : L.status = some .ok) : L'.status = some .ok := by
  cases moved with
  | quiet _ _ _ _ running => exact absurd (running.symm.trans ok) (Option.some_ne_none _).symm
  | unprepared _ _ _ _ running => exact absurd (running.symm.trans ok) (Option.some_ne_none _).symm
  | joined _ _ _ _ _ running => exact absurd (running.symm.trans ok) (Option.some_ne_none _).symm
  | handedOut _ _ _ _ running => exact absurd (running.symm.trans ok) (Option.some_ne_none _).symm
  | drained => exact ok
  | verdicts _ _ _ running => exact absurd (running.symm.trans ok) (Option.some_ne_none _).symm

end Steps

end RecvLane

/-! ## The call -/

namespace RxState

variable {cfg : RxConfig} {st : RxState}

theorem result_ok {verifies commits : Bool} (ok : st.result cfg verifies commits = .ok) :
    worst ((List.range cfg.lanes).map fun lane => ((st.lanes lane).status.getD .incomplete)) =
      .ok := by
  rw [result] at ok
  generalize worst ((List.range cfg.lanes).map fun lane =>
    ((st.lanes lane).status.getD .incomplete)) = status at ok
  by_cases hverify : status = .ok ∧ st.shared.sink.resumed ∧
      (st.shared.digest.isNone ∨ verifies = false)
  · exact hverify.1
  · rw [if_neg hverify] at ok
    split at ok
    · cases ok
    · exact ok

theorem lanes_ok {verifies commits : Bool} (ok : st.result cfg verifies commits = .ok)
    (inside : lane < cfg.lanes) : (st.lanes lane).status = some .ok := by
  have hstatus := worst_ok (result_ok ok) _ (List.mem_map_of_mem (List.mem_range.mpr inside))
  cases hlane : (st.lanes lane).status with
  | none =>
    rw [hlane] at hstatus
    cases hstatus
  | some s =>
    rw [hlane] at hstatus
    exact congrArg some hstatus

/-- What holds of the call as long as every event keeps to the plan. -/
structure Covering (cfg : RxConfig) (st : RxState) : Prop where
  accounts : st.Inv cfg
  output : Output st.shared
  lanes : ∀ lane, (st.lanes lane).Covering cfg lane st.shared
  outcome : st.outcome = some .ok → ∀ lane < cfg.lanes, (st.lanes lane).status = some .ok

theorem create_covering (cfg : RxConfig) (kind : SinkKind) (prior : Option Prior) :
    (create { kind := kind, prior := prior }).Covering cfg where
  accounts := create_inv cfg _
  output := ⟨⟨nofun, nofun, fun _ => ⟨rfl, rfl⟩⟩, fun c below => absurd below (Nat.not_lt_zero c)⟩
  lanes := fun _ => ⟨nofun, List.nodup_nil, nofun, nofun, nofun⟩
  outcome := nofun

theorem Covering.step (covering : st.Covering cfg) {st' : RxState} (planned : st.Planned cfg e)
    (moved : st.step cfg e = some st') : st'.Covering cfg := by
  have haccounts := covering.accounts.step moved
  cases step_stepped moved with
  | lane lane sh L _ inside change =>
    obtain ⟨houtput, hgrows, hlane⟩ := change.covering (Function.update_self ..)
      (planned _ moved) (covering.accounts lane) covering.output (covering.lanes lane)
    have hothers := (change.inv (covering.accounts lane)).2
    refine ⟨haccounts, houtput, ?_, fun ok => ?_⟩
    · refine forall_lanes hlane fun other differs => (covering.lanes other).grow hgrows ?_
      unfold laneSpots
      rw [hothers other differs]
    · refine forall_lanes (P := fun other L => other < cfg.lanes → L.status = some .ok) ?_
        fun other _ within => covering.outcome ok other within
      exact fun within => change.status_ok (covering.outcome ok lane within)
  | finish verifies commits waiting left =>
    refine ⟨haccounts, covering.output, covering.lanes, fun ok lane within => ?_⟩
    exact lanes_ok (Option.some.inj ok) within

/-- A call that succeeds has every byte of the file. -/
theorem Covering.complete (covering : st.Covering cfg) (ok : st.outcome = some .ok)
    (inside : p < st.shared.fileTotal) : st.shared.sink.Covers p := by
  obtain ⟨lane, hlane, habove, hbelow⟩ := shards_cover cfg.lanes_pos inside
  have hstatus := covering.outcome ok lane hlane
  have hcovering := covering.lanes lane
  have hjoined := hcovering.joined (hcovering.succeeded hstatus).1
  rw [← hjoined.laneBase] at habove hbelow
  rw [← hjoined.shardBytes] at hbelow
  exact hcovering.complete (covering.accounts lane) covering.output hstatus p habove hbelow

end RxState

/-- In every run whose events keep to the plan, whatever else arrives and however
the threads interleave: when the call has succeeded, every byte of the file has been
written in this session or belongs to a chunk of an earlier one. -/
theorem ok_means_whole_file {cfg : RxConfig} {kind : SinkKind} {prior : Option Prior}
    {run : List RxEvent} {st : RxState}
    (reached : replay (RxState.step cfg) (RxState.create { kind := kind, prior := prior }) run =
      some st)
    (planned : Along (RxState.step cfg) (RxState.Planned cfg)
      (RxState.create { kind := kind, prior := prior }) run)
    (ok : st.outcome = some .ok) :
    ∀ p < st.shared.fileTotal, st.shared.sink.Covers p := by
  have hcovering : st.Covering cfg := replay_preserves_along
    (fun _ _ _ covering planned moved => covering.step planned moved) reached planned
    (RxState.create_covering cfg kind prior)
  exact fun p inside => hcovering.complete ok inside

instance (L : RecvLane) (p : Nat) : Decidable (L.Asked p) :=
  inferInstanceAs (Decidable (∃ r ∈ L.log.want,
    L.laneBase + r.offset ≤ p ∧ p < L.laneBase + r.offset + r.length))

instance decidableHolds (s : Sink) (p : Nat) : Decidable (s.Holds p) :=
  inferInstanceAs (Decidable (s.bytes p ≠ none))

instance decidableKeepsPlan (cfg : RxConfig) (st next : RxState) : (e : RxEvent) →
    Decidable (st.KeepsPlan cfg next e)
  | .datagram lane _ dg => inferInstanceAs (Decidable ((st.lanes lane).haveStart = false →
      (next.lanes lane).haveStart = true → ∀ ss ∈ decodeStreamStart dg,
        ss.streamBaseOffset = shardOffset ss.fileTotalBytes cfg.lanes lane ∧
        ss.totalBytes = shardLength ss.fileTotalBytes cfg.lanes lane))
  | .consumer lane k count _ => inferInstanceAs (Decidable
      ((((st.lanes lane).nextItems cfg lane k count).flatMap Item.spots).Nodup ∧
      ∀ p ∈ ((st.lanes lane).nextItems cfg lane k count).flatMap Item.spots,
        (st.lanes lane).Asked p ∧ ¬ st.shared.sink.Holds p))
  | .results .. => isTrue trivial
  | .window .. => isTrue trivial
  | .ack .. => isTrue trivial
  | .nack .. => isTrue trivial
  | .probe .. => isTrue trivial
  | .giveUp .. => isTrue trivial
  | .aborted .. => isTrue trivial
  | .complete .. => isTrue trivial
  | .finish .. => isTrue trivial

instance (cfg : RxConfig) (st : RxState) (e : RxEvent) : Decidable (st.Planned cfg e) :=
  inferInstanceAs (Decidable (∀ next ∈ st.step cfg e, st.KeepsPlan cfg next e))

/-- A lane of one byte of a file joins, takes its byte and leaves; the call ends. -/
def firstByteRun (fileTotal : Nat) : List RxEvent :=
  [.datagram 0 {} (streamStartBytes { totalBytes := 1, fileTotalBytes := fileTotal, nonce := 7 }),
    .datagram 0 {} (dataPrefix { payloadLen := 1, flags := kFlagLastBlock } 1 ++ [9]),
    .consumer 0 0 1 fun _ => none, .results 0 0 1 1, .complete 0 fun _ => true, .finish true true]

theorem ok_means_whole_file_firstByte :
    ∃ st, replay (RxState.step oneLane) (RxState.create { kind := .file }) (firstByteRun 1) =
        some st ∧
      st.shared.fileTotal = 1 ∧ ∀ p < st.shared.fileTotal, st.shared.sink.Covers p := by
  obtain ⟨st, hreplay, hok, hsize⟩ : ∃ st,
      replay (RxState.step oneLane) (RxState.create { kind := .file }) (firstByteRun 1) = some st ∧
        st.outcome = some .ok ∧ st.shared.fileTotal = 1 := by decide +kernel
  have hplanned : Along (RxState.step oneLane) (RxState.Planned oneLane)
      (RxState.create { kind := .file }) (firstByteRun 1) := by decide +kernel
  exact ⟨st, hreplay, hsize, ok_means_whole_file hreplay hplanned hok⟩

/-- A receiver with one lane takes the first lane of a sender that cut a file of two
bytes for two lanes: the call succeeds and the second byte is missing. -/
theorem ok_without_second_byte :
    ∃ st, replay (RxState.step oneLane) (RxState.create { kind := .file }) (firstByteRun 2) =
        some st ∧
      st.outcome = some .ok ∧ st.shared.fileTotal = 2 ∧ ¬ st.shared.sink.Covers 1 := by
  decide +kernel

end FuseTransport.Transfer
