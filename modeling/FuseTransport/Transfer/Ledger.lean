import FuseTransport.Foundation.Channels
import FuseTransport.Foundation.Runs
import FuseTransport.Transfer.Reader

/-!
# The accounts of a lane

A block is out from the moment the reader hands it to a consumer until the reader
takes the consumer's verdict.  No sequence number is out twice, everything that is
out lies in the window and has not been accepted, and the table of dispatched
numbers marks exactly what is out.  The ledger says what became of each block that
was handed out.  Every step of every thread keeps both.
-/

namespace FuseTransport.Transfer

open Foundation Foundation.Channels Foundation.Runs Proto

variable {c : Completion} {after : Shared × RecvLane} {s : Nat} {e : RxEvent}
    {rest : List Completion} {nowNs : Nat}

namespace RecvLane

variable (cfg : RxConfig) (L : RecvLane)

def channel (k : Nat) : List Nat :=
  (L.rings k).map slotSeq ++ (L.dones k).map fun c => c.seq

/-- The numbers of the blocks that are out. -/
def inFlight : List Nat := contents (cfg.writers + 1) L.channel

/-- The verdicts the reader has not taken yet. -/
def untaken : List Completion := contents (cfg.writers + 1) L.dones

structure Handout (cfg : RxConfig) (L : RecvLane) : Prop where
  receiver : L.rx.Inv
  window : L.rx.windowSize = kWindow
  once : (L.inFlight cfg).Nodup
  counted : L.pending = (L.inFlight cfg).length
  above : ∀ s ∈ L.inFlight cfg, L.rx.baseSeqNo ≤ s
  below : ∀ s ∈ L.inFlight cfg, s < L.rx.baseSeqNo + kWindow
  missing : ∀ s ∈ L.inFlight cfg, ¬ L.rx.Accepted s
  bounded : ∀ s ∈ L.inFlight cfg, s < kNone
  marked : ∀ s ∈ L.inFlight cfg, L.dispatched (s % kWindow) = s
  marks : ∀ r < kWindow, L.dispatched r ≠ kNone →
    L.dispatched r ∈ L.inFlight cfg ∧ L.dispatched r % kWindow = r

def filled : List PacketSlot :=
  contents (cfg.writers + 1) L.rings ++ L.log.handled.map Prod.fst

def writtenAs (s : Nat) (c : Completion) : Bool := c.result = .written && c.seq = s

structure Ledger (cfg : RxConfig) (lane : Nat) (sh : Shared) (L : RecvLane) : Prop where
  reported : (L.log.handled.map Prod.snd).Perm (L.log.taken.map Prod.fst ++ L.untaken cfg)
  handled : ∀ h ∈ L.log.handled, Reports (L.examined cfg lane h).1 h.2
  answered : ∀ t ∈ L.log.taken, t.1.result = .written → t.2 = some .accepted
  accepted : ∀ s, (L.log.taken.map Prod.fst).countP (writtenAs s) =
    if L.rx.Accepted s then 1 else 0
  written : L.written = u64
    ((((L.log.taken.map Prod.fst).filter fun c => c.result = .written).map fun c => c.bytes).sum)
  writes : (sh.writes.filter fun w => w.lane = lane) =
    (L.log.handled.map (L.examined cfg lane)).filterMap (writeOf lane)
  placed : ∀ slot ∈ L.filled cfg, slot.laneBase = L.laneBase ∧ slot.laneTotal = L.shardBytes
  idle : L.haveStart = false → L.log.handled = [] ∧ L.log.taken = [] ∧ L.inFlight cfg = []

structure Inv (cfg : RxConfig) (lane : Nat) (sh : Shared) (L : RecvLane) : Prop where
  handout : L.Handout cfg
  ledger : L.Ledger cfg lane sh

theorem create_inFlight (lane : Nat) : (create lane).inFlight cfg = [] :=
  contents_empty _

theorem create_inv (lane : Nat) (sink : Sink) : (create lane).Inv cfg lane { sink := sink } where
  handout :=
    { receiver := ReceiverStream.create_inv lane kWindow true
      window := rfl
      once := by rw [create_inFlight]; exact List.nodup_nil
      counted := by rw [create_inFlight]; rfl
      above := by rw [create_inFlight]; simp
      below := by rw [create_inFlight]; simp
      missing := by rw [create_inFlight]; simp
      bounded := by rw [create_inFlight]; simp
      marked := by rw [create_inFlight]; simp
      marks := fun r _ marked => absurd rfl marked }
  ledger :=
    { reported := by
        change [].Perm ([] ++ contents (cfg.writers + 1) fun _ => [])
        rw [contents_empty]
        rfl
      handled := fun h member => absurd member (by simp [create])
      answered := fun t member => absurd member (by simp [create])
      accepted := by
        intro s
        have hnone : ¬ (create lane).rx.Accepted s :=
          ReceiverStream.create_accepted lane kWindow true s
        rw [if_neg hnone]
        rfl
      written := rfl
      writes := rfl
      placed := by
        change ∀ slot ∈ contents (cfg.writers + 1) (fun _ => []) ++ [], _
        rw [contents_empty]
        simp
      idle := fun _ => ⟨rfl, rfl, create_inFlight cfg lane⟩ }

section Quiet

variable {cfg : RxConfig} {lane : Nat} {sh : Shared} {L L' : RecvLane}

section

variable (same : Untouched L L')
include same

theorem Untouched.accepted (s : Nat) : L'.rx.Accepted s ↔ L.rx.Accepted s := by
  obtain ⟨stamps, hstamps⟩ := same.stamps
  rw [hstamps]
  exact Iff.rfl

theorem Untouched.inFlight : L'.inFlight cfg = L.inFlight cfg := by
  rw [same.rest]
  rfl

theorem Untouched.handout (holds : L.Handout cfg) : L'.Handout cfg := by
  obtain ⟨stamps, hstamps⟩ := same.stamps
  have hdispatched : L'.dispatched = L.dispatched := by rw [same.rest]
  have hpending : L'.pending = L.pending := by rw [same.rest]
  constructor
  case receiver => rw [hstamps]; exact ⟨holds.receiver.confined, holds.receiver.base_lt⟩
  case window => rw [hstamps]; exact holds.window
  case once => rw [same.inFlight]; exact holds.once
  case counted => rw [same.inFlight, hpending]; exact holds.counted
  case above => rw [same.inFlight, hstamps]; exact holds.above
  case below => rw [same.inFlight, hstamps]; exact holds.below
  case missing =>
    rw [same.inFlight]
    exact fun s member => (same.accepted s).not.mpr (holds.missing s member)
  case bounded => rw [same.inFlight]; exact holds.bounded
  case marked => rw [same.inFlight, hdispatched]; exact holds.marked
  case marks => rw [same.inFlight, hdispatched]; exact holds.marks

theorem Untouched.ledger (holds : L.Ledger cfg lane sh) : L'.Ledger cfg lane sh := by
  have hlog : L'.log = L.log := by rw [same.rest]
  have hexamined : L'.examined cfg lane = L.examined cfg lane := by rw [same.rest]; rfl
  have huntaken : L'.untaken cfg = L.untaken cfg := by rw [same.rest]; rfl
  have hfilled : L'.filled cfg = L.filled cfg := by rw [same.rest]; rfl
  have hplace : L'.laneBase = L.laneBase ∧ L'.shardBytes = L.shardBytes ∧
      L'.written = L.written ∧ L'.haveStart = L.haveStart := by
    rw [same.rest]
    exact ⟨rfl, rfl, rfl, rfl⟩
  constructor
  case reported => rw [huntaken, hlog]; exact holds.reported
  case handled => rw [hlog, hexamined]; exact holds.handled
  case answered => rw [hlog]; exact holds.answered
  case accepted =>
    intro s
    rw [hlog, holds.accepted s, if_congr (same.accepted s).symm rfl rfl]
  case written => rw [hplace.2.2.1, hlog]; exact holds.written
  case writes => rw [hlog, hexamined]; exact holds.writes
  case placed => rw [hfilled, hplace.1, hplace.2.1]; exact holds.placed
  case idle => rw [hplace.2.2.2, hlog, same.inFlight]; exact holds.idle

theorem Untouched.inv (holds : L.Inv cfg lane sh) : L'.Inv cfg lane sh :=
  ⟨same.handout holds.handout, same.ledger holds.ledger⟩

end

/-- When no block is out, every ring is empty. -/
theorem rings_eq_nil (none : L.inFlight cfg = []) {k : Nat} (inside : k < cfg.writers + 1) :
    L.rings k = [] := by
  have hchannel : L.channel k = [] := by
    refine List.eq_nil_iff_forall_not_mem.mpr fun s member => ?_
    have hflight : s ∈ L.inFlight cfg := mem_contents.mpr ⟨k, inside, member⟩
    rw [none] at hflight
    cases hflight
  exact List.map_eq_nil_iff.mp (List.append_eq_nil_iff.mp hchannel).1

/-- Nothing is out, and nothing was, before the lane has joined. -/
theorem Ledger.filled_of_idle (holds : L.Ledger cfg lane sh) (idle : L.haveStart = false) :
    L.filled cfg = [] := by
  obtain ⟨hhandled, _, hnone⟩ := holds.idle idle
  have hrings : contents (cfg.writers + 1) L.rings = [] := by
    refine List.eq_nil_iff_forall_not_mem.mpr fun slot member => ?_
    obtain ⟨k, hk, hslot⟩ := mem_contents.mp member
    rw [rings_eq_nil hnone hk] at hslot
    cases hslot
  rw [filled, hrings, hhandled]
  rfl

theorem Inv.shared (holds : L.Inv cfg lane sh) {sh' : Shared} (writes : sh'.writes = sh.writes) :
    L.Inv cfg lane sh' :=
  ⟨holds.handout, { holds.ledger with writes := by rw [writes]; exact holds.ledger.writes }⟩

end Quiet

/-! ## Handing a block out -/

section Changes

variable {cfg : RxConfig} {lane : Nat} {sh : Shared} {L L' : RecvLane} {k : Nat}
  {ring : List PacketSlot} {done : List Completion}

theorem channel_update (rings : L'.rings = Function.update L.rings k ring)
    (dones : L'.dones = Function.update L.dones k done) :
    L'.channel = Function.update L.channel k (ring.map slotSeq ++ done.map fun c => c.seq) := by
  funext other
  unfold channel
  rw [rings, dones]
  by_cases hsame : other = k
  · rw [hsame, Function.update_self, Function.update_self, Function.update_self]
  · rw [Function.update_of_ne hsame, Function.update_of_ne hsame, Function.update_of_ne hsame]

theorem inFlight_update (inside : k ≤ cfg.writers)
    (rings : L'.rings = Function.update L.rings k ring)
    (dones : L'.dones = Function.update L.dones k done) {gone added : List Nat}
    (change : (ring.map slotSeq ++ done.map (fun c => c.seq) ++ gone).Perm (L.channel k ++ added)) :
    (L'.inFlight cfg ++ gone).Perm (L.inFlight cfg ++ added) := by
  unfold inFlight
  rw [channel_update rings dones]
  exact contents_update (Nat.lt_succ_of_le inside) change

theorem route_le (cfg : RxConfig) (hdr : BlockHeader) : route cfg hdr ≤ cfg.writers := by
  unfold route
  split
  · exact Nat.le_refl _
  · exact Nat.le_of_lt (Nat.mod_lt _ cfg.writers_pos)

theorem dispatchable_iff (L : RecvLane) (d : DataDatagram) :
    dispatchable cfg L d = true ↔
      L.rx.baseSeqNo ≤ d.hdr.seqNo ∧ d.hdr.seqNo - L.rx.baseSeqNo < kWindow ∧
      L.rx.isReceived (d.hdr.seqNo - L.rx.baseSeqNo) = false ∧
      L.dispatched (d.hdr.seqNo % kWindow) ≠ d.hdr.seqNo ∧
      L.writable cfg (route cfg d.hdr) ≠ 0 := by
  simp [dispatchable, and_assoc]

section

variable (holds : L.Handout cfg)
include holds

theorem not_accepted_of_not_received (fits : s < 2 ^ 64) (above : L.rx.baseSeqNo ≤ s)
    (inside : s - L.rx.baseSeqNo < kWindow)
    (missing : L.rx.isReceived (s - L.rx.baseSeqNo) = false) : ¬ L.rx.Accepted s := by
  have hsum : L.rx.baseSeqNo + (s - L.rx.baseSeqNo) = s := Nat.add_sub_cancel' above
  unfold ReceiverStream.isReceived at missing
  rw [hsum, u64_of_lt fits, holds.window, decide_eq_true inside, Bool.true_and] at missing
  rintro (hbelow | ⟨_, harrived⟩)
  · exact Nat.not_lt.mpr above hbelow
  · rw [missing] at harrived
    cases harrived

/-- A number of the window is marked only while it is out. -/
theorem mem_inFlight_of_same_mark {r : Nat} (above : L.rx.baseSeqNo ≤ s)
    (inside : s < L.rx.baseSeqNo + kWindow) (same : s % kWindow = r % kWindow)
    (out : r ∈ L.inFlight cfg) : s = r :=
  Residues.eq_of_mod_eq above inside (holds.above r out) (holds.below r out) same

/-- What the reader hands out is not out yet. -/
theorem fresh_of_dispatchable {d : DataDatagram} (fits : d.hdr.Fits)
    (passed : dispatchable cfg L d = true) :
    L.rx.baseSeqNo ≤ d.hdr.seqNo ∧ d.hdr.seqNo < L.rx.baseSeqNo + kWindow ∧
      ¬ L.rx.Accepted d.hdr.seqNo ∧ d.hdr.seqNo ∉ L.inFlight cfg ∧ d.hdr.seqNo < kNone := by
  obtain ⟨habove, hrel, hmissing, hmark, _⟩ := (dispatchable_iff L d).mp passed
  have hinside : d.hdr.seqNo < L.rx.baseSeqNo + kWindow := by omega
  have hword : d.hdr.seqNo < 2 ^ 64 := fits.seqNo
  refine ⟨habove, hinside, not_accepted_of_not_received holds hword habove hrel hmissing, ?_, ?_⟩
  · intro out
    exact hmark (holds.marked _ out)
  · rcases Nat.lt_or_ge d.hdr.seqNo kNone with hlt | hge
    · exact hlt
    · have hnone : d.hdr.seqNo = kNone := by
        unfold kNone at hge ⊢
        omega
      have hset : L.dispatched (d.hdr.seqNo % kWindow) ≠ kNone := by
        intro hunset
        exact hmark (hunset.trans hnone.symm)
      obtain ⟨hout, hplace⟩ := holds.marks _ (Nat.mod_lt _ (by decide)) hset
      exact absurd (mem_inFlight_of_same_mark holds habove hinside hplace.symm hout).symm hmark

/-- A lane whose blocks are out as before, up to the order in which they are
listed. -/
theorem Handout.perm (rx : L'.rx = L.rx) (dispatched : L'.dispatched = L.dispatched)
    (pending : L'.pending = L.pending) (out : (L'.inFlight cfg).Perm (L.inFlight cfg)) :
    L'.Handout cfg where
  receiver := by rw [rx]; exact holds.receiver
  window := by rw [rx]; exact holds.window
  once := out.nodup_iff.mpr holds.once
  counted := by rw [pending, out.length_eq]; exact holds.counted
  above := by rw [rx]; exact fun s member => holds.above s (out.mem_iff.mp member)
  below := by rw [rx]; exact fun s member => holds.below s (out.mem_iff.mp member)
  missing := by rw [rx]; exact fun s member => holds.missing s (out.mem_iff.mp member)
  bounded := fun s member => holds.bounded s (out.mem_iff.mp member)
  marked := by rw [dispatched]; exact fun s member => holds.marked s (out.mem_iff.mp member)
  marks := by
    rw [dispatched]
    intro r inside set
    exact ⟨out.mem_iff.mpr (holds.marks r inside set).1, (holds.marks r inside set).2⟩

theorem Handout.add (above : L.rx.baseSeqNo ≤ s) (inside : s < L.rx.baseSeqNo + kWindow)
    (missing : ¬ L.rx.Accepted s) (absent : s ∉ L.inFlight cfg) (bounded : s < kNone)
    (rx : L'.rx = L.rx)
    (dispatched : L'.dispatched = Function.update L.dispatched (s % kWindow) s)
    (pending : L'.pending = L.pending + 1) (out : (L'.inFlight cfg).Perm (L.inFlight cfg ++ [s])) :
    L'.Handout cfg := by
  have hmem : ∀ other, other ∈ L'.inFlight cfg ↔ other ∈ L.inFlight cfg ∨ other = s := by
    intro other
    rw [out.mem_iff, List.mem_append, List.mem_singleton]
  constructor
  case receiver => rw [rx]; exact holds.receiver
  case window => rw [rx]; exact holds.window
  case once =>
    rw [out.nodup_iff, List.nodup_append]
    refine ⟨holds.once, List.nodup_singleton s, ?_⟩
    rintro other hother _ hs rfl
    exact absent (List.mem_singleton.mp hs ▸ hother)
  case counted => rw [pending, out.length_eq, List.length_append, holds.counted]; rfl
  case above =>
    rw [rx]
    exact fun other member => ((hmem other).mp member).elim (holds.above other) (· ▸ above)
  case below =>
    rw [rx]
    exact fun other member => ((hmem other).mp member).elim (holds.below other) (· ▸ inside)
  case missing =>
    rw [rx]
    exact fun other member => ((hmem other).mp member).elim (holds.missing other) (· ▸ missing)
  case bounded =>
    exact fun other member => ((hmem other).mp member).elim (holds.bounded other) (· ▸ bounded)
  case marked =>
    intro other member
    rw [dispatched]
    rcases (hmem other).mp member with hold | rfl
    · have hne : other % kWindow ≠ s % kWindow := by
        intro same
        exact absent (mem_inFlight_of_same_mark holds above inside same.symm hold ▸ hold)
      rw [Function.update_of_ne hne]
      exact holds.marked other hold
    · exact Function.update_self _ _ _
  case marks =>
    intro r hr hset
    rw [dispatched] at hset ⊢
    by_cases hplace : r = s % kWindow
    · rw [hplace, Function.update_self]
      exact ⟨(hmem s).mpr (Or.inr rfl), rfl⟩
    · rw [Function.update_of_ne hplace] at hset ⊢
      obtain ⟨hout, hresidue⟩ := holds.marks r hr hset
      exact ⟨(hmem _).mpr (Or.inl hout), hresidue⟩

end

/-- A block handed out is out once, and nothing has become of it yet. -/
theorem dispatch_inv (holds : L.Inv cfg lane sh) {dg : List UInt8} {d : DataDatagram}
    (decoded : decodeDataDatagram dg = some d) (started : L.haveStart = true)
    (passed : dispatchable cfg L d = true) (handed : dispatch cfg L dg d = some L') :
    L'.Inv cfg lane sh := by
  unfold dispatch at handed
  split at handed
  · rename_i fits
    have hstate := Option.some.inj handed
    obtain ⟨habove, hinside, hmissing, habsent, hbounded⟩ :=
      fresh_of_dispatchable holds.handout (decodeDataDatagram_fits decoded) passed
    have hseq : slotSeq ⟨L.laneBase, L.shardBytes, dg, fits⟩ = d.hdr.seqNo := by
      simp [slotSeq, decoded]
    have hout : (L'.inFlight cfg ++ []).Perm (L.inFlight cfg ++ [d.hdr.seqNo]) := by
      refine inFlight_update (route_le cfg d.hdr) (by rw [← hstate])
        (by rw [← hstate]; exact (Function.update_eq_self _ _).symm) ?_
      rw [List.append_nil, List.map_append, List.map_singleton, hseq]
      exact append_right_comm _ _ _
    rw [List.append_nil] at hout
    refine ⟨holds.handout.add habove hinside hmissing habsent hbounded (by rw [← hstate])
      (by rw [← hstate]) (by rw [← hstate]) hout, ?_⟩
    have hfilled : (L'.filled cfg).Perm
        (L.filled cfg ++ [⟨L.laneBase, L.shardBytes, dg, fits⟩]) := by
      have hrings : (contents (cfg.writers + 1) L'.rings ++ []).Perm
          (contents (cfg.writers + 1) L.rings ++
            [(⟨L.laneBase, L.shardBytes, dg, fits⟩ : PacketSlot)]) := by
        rw [← hstate]
        refine contents_update (Nat.lt_succ_of_le (route_le cfg d.hdr)) ?_
        rw [List.append_nil]
      rw [List.append_nil] at hrings
      rw [← hstate] at hrings ⊢
      exact (hrings.append_right _).trans (append_right_comm _ _ _)
    have hplaced : ∀ slot ∈ L'.filled cfg,
        slot.laneBase = L.laneBase ∧ slot.laneTotal = L.shardBytes := by
      intro slot member
      rcases List.mem_append.mp (hfilled.mem_iff.mp member) with hold | hnew
      · exact holds.ledger.placed slot hold
      · rw [List.mem_singleton.mp hnew]
        exact ⟨rfl, rfl⟩
    subst hstate
    exact { holds.ledger with
      placed := hplaced
      idle := fun idle => absurd (started.symm.trans idle) (by decide) }
  · cases handed

theorem writeOf_lane {reported : Item × Completion} {w : Write}
    (wrote : writeOf lane reported = some w) : w.lane = lane := by
  unfold writeOf at wrote
  split at wrote
  · rw [← Option.some.inj wrote]
  · cases wrote

theorem writes_of_lane (other : Nat) (reported : List (Item × Completion)) :
    ((reported.filterMap (writeOf lane)).filter fun w => w.lane = other) =
      if other = lane then reported.filterMap (writeOf lane) else [] := by
  split
  · rename_i hsame
    refine List.filter_eq_self.mpr fun w member => ?_
    obtain ⟨_, _, hwrote⟩ := List.mem_filterMap.mp member
    exact decide_eq_true ((writeOf_lane hwrote).trans hsame.symm)
  · rename_i hother
    refine List.filter_eq_nil_iff.mpr fun w member => ?_
    obtain ⟨_, _, hwrote⟩ := List.mem_filterMap.mp member
    rw [writeOf_lane hwrote, decide_eq_true_eq]
    exact fun same => hother same.symm

variable {handled : List (PacketSlot × Completion)}

/-- A batch moves its blocks from one ring to the other. -/
theorem Drained.inFlight
    (drained : Drained cfg lane k sh L after handled) (inside : k ≤ cfg.writers) :
    (after.2.inFlight cfg).Perm (L.inFlight cfg) ∧
      (after.2.untaken cfg).Perm (L.untaken cfg ++ handled.map Prod.snd) := by
  obtain ⟨n, hslots, hrings⟩ := drained.slots
  have hseqs : handled.map (fun h => h.2.seq) = ((L.rings k).take n).map slotSeq := by
    rw [← hslots, List.map_map]
    refine List.map_congr_left fun h member => ?_
    rw [(drained.reports h member).seq]
    exact examine_seq _ _
  have hout : (after.2.inFlight cfg ++ []).Perm (L.inFlight cfg ++ []) := by
    refine inFlight_update inside hrings drained.dones ?_
    rw [List.append_nil, List.append_nil, List.map_append, List.map_map]
    change (((L.rings k).drop n).map slotSeq ++
      ((L.dones k).map (fun c => c.seq) ++ handled.map fun h => h.2.seq)).Perm
        ((L.rings k).map slotSeq ++ (L.dones k).map fun c => c.seq)
    rw [hseqs, ← List.append_assoc]
    refine List.perm_append_comm.trans ?_
    rw [← List.append_assoc, ← List.map_append, List.take_append_drop]
  have huntaken : (after.2.untaken cfg ++ []).Perm (L.untaken cfg ++ handled.map Prod.snd) := by
    unfold untaken
    rw [drained.dones]
    exact contents_update (Nat.lt_succ_of_le inside) (by rw [List.append_nil])
  rw [List.append_nil] at hout huntaken
  rw [List.append_nil] at hout
  exact ⟨hout, huntaken⟩

/-- The slots of a batch are among those of its ring, and it fills no other. -/
theorem Drained.filled
    (drained : Drained cfg lane k sh L after handled) (inside : k ≤ cfg.writers) :
    (∀ h ∈ handled, h.1 ∈ L.filled cfg) ∧ ∀ slot ∈ after.2.filled cfg, slot ∈ L.filled cfg := by
  obtain ⟨n, hslots, hrings⟩ := drained.slots
  have hbatch : ∀ h ∈ handled, h.1 ∈ L.filled cfg := by
    intro h member
    have htaken : h.1 ∈ (L.rings k).take n := by
      rw [← hslots]
      exact List.mem_map_of_mem member
    exact List.mem_append_left _
      (mem_contents.mpr ⟨k, Nat.lt_succ_of_le inside, List.mem_of_mem_take htaken⟩)
  refine ⟨hbatch, fun slot member => ?_⟩
  rcases List.mem_append.mp member with hring | hhandled
  · obtain ⟨other, hother, hslot⟩ := mem_contents.mp hring
    rw [hrings] at hslot
    refine List.mem_append_left _ (mem_contents.mpr ⟨other, hother, ?_⟩)
    by_cases hsame : other = k
    · rw [hsame, Function.update_self] at hslot
      rw [hsame]
      exact List.mem_of_mem_drop hslot
    · rwa [Function.update_of_ne hsame] at hslot
  · rw [drained.logged, List.map_append] at hhandled
    rcases List.mem_append.mp hhandled with hold | hnew
    · exact List.mem_append_right _ hold
    · obtain ⟨h, hh, rfl⟩ := List.mem_map.mp hnew
      exact hbatch h hh

/-- A batch reports what became of its blocks. -/
theorem Drained.inv (drained : Drained cfg lane k sh L after handled) (inside : k ≤ cfg.writers)
    (rest : after.2 = { L with
      rings := after.2.rings, lag := after.2.lag, dones := after.2.dones,
      log := { L.log with handled := after.2.log.handled } }) (holds : L.Inv cfg lane sh) :
    after.2.Inv cfg lane after.1 := by
  obtain ⟨hout, huntaken⟩ := drained.inFlight inside
  have hkey : after.2.examined cfg lane = L.examined cfg lane := by
    rw [rest]
    rfl
  have htaken : after.2.log.taken = L.log.taken := by rw [rest]
  refine ⟨holds.handout.perm (by rw [rest]) (by rw [rest]) (by rw [rest]) hout, ?_⟩
  constructor
  case reported =>
    rw [drained.logged, htaken, List.map_append]
    refine (holds.ledger.reported.append_right _).trans ?_
    rw [List.append_assoc]
    exact (huntaken.symm).append_left _
  case handled =>
    rw [hkey, drained.logged]
    intro h member
    rcases List.mem_append.mp member with hold | hnew
    · exact holds.ledger.handled h hold
    · exact drained.reports h hnew
  case answered => rw [htaken]; exact holds.ledger.answered
  case accepted =>
    rw [htaken]
    intro s
    rw [holds.ledger.accepted s, rest]
  case written => rw [rest]; exact holds.ledger.written
  case writes =>
    rw [drained.writes, List.filter_append, holds.ledger.writes, writes_of_lane, if_pos rfl, hkey,
      drained.logged, List.map_append, List.filterMap_append]
  case placed =>
    have hplace : after.2.laneBase = L.laneBase ∧ after.2.shardBytes = L.shardBytes := by
      rw [rest]
      exact ⟨rfl, rfl⟩
    rw [hplace.1, hplace.2]
    exact fun slot member => holds.ledger.placed slot ((drained.filled inside).2 slot member)
  case idle =>
    intro hstart
    have hbefore : L.haveStart = false := by rw [rest] at hstart; exact hstart
    obtain ⟨hhandled, hempty, hnone⟩ := holds.ledger.idle hbefore
    obtain ⟨n, hslots, _⟩ := drained.slots
    rw [rings_eq_nil hnone (Nat.lt_succ_of_le inside), List.take_nil] at hslots
    rw [drained.logged, hhandled, List.map_eq_nil_iff.mp hslots, htaken, hempty]
    exact ⟨rfl, rfl, List.perm_nil.mp (hnone ▸ hout)⟩

/-! ## Taking a verdict -/

/-- One block is back; at most that block has been accepted. -/
theorem Handout.remove (holds : L.Handout cfg) (receiver : L'.rx.Inv)
    (window : L'.rx.windowSize = L.rx.windowSize) (base : L.rx.baseSeqNo ≤ L'.rx.baseSeqNo)
    (accepted : ∀ other, L'.rx.Accepted other → L.rx.Accepted other ∨ other = s)
    (dispatched : L'.dispatched = Function.update L.dispatched (s % kWindow) kNone)
    (pending : L'.pending = L.pending - 1) (out : (L'.inFlight cfg ++ [s]).Perm (L.inFlight cfg)) :
    L'.Handout cfg := by
  have hnodup := List.nodup_append.mp (out.nodup_iff.mpr holds.once)
  have hold : ∀ other ∈ L'.inFlight cfg, other ∈ L.inFlight cfg := fun other member =>
    out.mem_iff.mp (List.mem_append_left _ member)
  have hne : ∀ other ∈ L'.inFlight cfg, other ≠ s := fun other member =>
    hnodup.2.2 other member s (List.mem_singleton_self s)
  have hmissing : ∀ other ∈ L'.inFlight cfg, ¬ L'.rx.Accepted other := by
    intro other member haccepted
    rcases accepted other haccepted with hbefore | hsame
    · exact holds.missing other (hold other member) hbefore
    · exact hne other member hsame
  have hs : s ∈ L.inFlight cfg :=
    out.mem_iff.mp (List.mem_append_right _ (List.mem_singleton_self s))
  constructor
  case receiver => exact receiver
  case window => exact window.trans holds.window
  case once => exact hnodup.1
  case counted =>
    have hlength := out.length_eq
    rw [List.length_append, List.length_singleton] at hlength
    rw [pending, holds.counted, ← hlength, Nat.add_sub_cancel]
  case above =>
    intro other member
    refine Nat.le_of_not_lt fun hlt => ?_
    exact hmissing other member (Or.inl hlt)
  case below =>
    intro other member
    exact Nat.lt_of_lt_of_le (holds.below other (hold other member))
      (Nat.add_le_add_right base kWindow)
  case missing => exact hmissing
  case bounded => exact fun other member => holds.bounded other (hold other member)
  case marked =>
    intro other member
    have hplace : other % kWindow ≠ s % kWindow := by
      intro same
      exact hne other member (mem_inFlight_of_same_mark holds
        (holds.above other (hold other member)) (holds.below other (hold other member)) same hs)
    rw [dispatched, Function.update_of_ne hplace]
    exact holds.marked other (hold other member)
  case marks =>
    intro r hr hset
    rw [dispatched] at hset ⊢
    by_cases hplace : r = s % kWindow
    · rw [hplace, Function.update_self] at hset
      exact absurd rfl hset
    · rw [Function.update_of_ne hplace] at hset ⊢
      obtain ⟨hout, hresidue⟩ := holds.marks r hr hset
      refine ⟨?_, hresidue⟩
      rcases List.mem_append.mp (out.mem_iff.mpr hout) with hkept | hgone
      · exact hkept
      · rw [List.mem_singleton.mp hgone] at hresidue
        exact absurd hresidue.symm hplace

/-- The window takes a written block of a lane as new, and nothing else. -/
theorem Taken.window (taken : Taken k nowNs c rest L L') (holds : L.Handout cfg)
    (out : c.seq ∈ L.inFlight cfg) :
    L'.rx.Inv ∧ L'.rx.windowSize = L.rx.windowSize ∧ L.rx.baseSeqNo ≤ L'.rx.baseSeqNo ∧
      (∀ s, L'.rx.Accepted s ↔ L.rx.Accepted s ∨ (s = c.seq ∧ c.result = .written)) ∧
      (c.result = .written → (L.rx.onReceive c.seq c.sendTime nowNs).2 = .accepted) := by
  rw [taken.rx]
  split
  · rename_i hresult
    obtain ⟨after, hafter, hadmits⟩ := ReceiverStream.onReceive_fresh holds.receiver
      (holds.bounded _ out) (holds.missing _ out) (by rw [holds.window]; exact holds.below _ out)
      c.sendTime nowNs
    rw [hafter]
    refine ⟨hadmits.inv, hadmits.window, hadmits.base_le, fun s => ?_, fun _ => rfl⟩
    rw [hadmits.accepted s, and_iff_left hresult]
  · rename_i hresult
    refine ⟨holds.receiver, rfl, Nat.le_refl _, fun s => ?_, fun written => absurd written hresult⟩
    exact ⟨Or.inl, fun either => either.resolve_right fun both => hresult both.2⟩

/-- A verdict leaves the ring of reports and the block is back. -/
theorem Taken.inFlight (taken : Taken k nowNs c rest L L') (inside : k ≤ cfg.writers)
    (reported : L.dones k = c :: rest) :
    (L'.inFlight cfg ++ [c.seq]).Perm (L.inFlight cfg) ∧
      (L'.untaken cfg ++ [c]).Perm (L.untaken cfg) := by
  have hout : (L'.inFlight cfg ++ [c.seq]).Perm (L.inFlight cfg ++ []) := by
    refine inFlight_update inside (taken.rings.trans (Function.update_eq_self k L.rings).symm)
      taken.dones ?_
    unfold channel
    rw [reported, List.append_nil, List.append_assoc]
    exact (List.perm_append_singleton c.seq _).append_left _
  have hverdicts : (L'.untaken cfg ++ [c]).Perm (L.untaken cfg ++ []) := by
    unfold untaken
    rw [taken.dones]
    refine contents_update (Nat.lt_succ_of_le inside) ?_
    rw [reported, List.append_nil]
    exact List.perm_append_singleton c rest
  rw [List.append_nil] at hout hverdicts
  exact ⟨hout, hverdicts⟩

/-- Only a written block counts, and it is accepted with this very verdict. -/
theorem Taken.inv (taken : Taken k nowNs c rest L L') (inside : k ≤ cfg.writers)
    (reported : L.dones k = c :: rest) (holds : L.Inv cfg lane sh) : L'.Inv cfg lane sh := by
  obtain ⟨hout, hverdicts⟩ := taken.inFlight inside reported
  have hmember : c.seq ∈ L.inFlight cfg :=
    hout.mem_iff.mp (List.mem_append_right _ (List.mem_singleton_self _))
  obtain ⟨hreceiver, hwindow, hbase, haccepted, hanswer⟩ := taken.window holds.handout hmember
  have hkey : L'.examined cfg lane = L.examined cfg lane := by
    rw [taken.rest]
    rfl
  refine ⟨holds.handout.remove hreceiver hwindow hbase (fun s accepted => ?_)
    (taken.dispatched (holds.handout.marked _ hmember)) taken.pending hout, ?_⟩
  · exact ((haccepted s).mp accepted).imp_right fun both => both.1
  constructor
  case reported =>
    rw [taken.handled, taken.taken, List.map_append, List.append_assoc]
    refine holds.ledger.reported.trans (List.Perm.append_left _ ?_)
    exact hverdicts.symm.trans List.perm_append_comm
  case handled => rw [taken.handled, hkey]; exact holds.ledger.handled
  case answered =>
    rw [taken.taken]
    intro t member written
    rcases List.mem_append.mp member with hold | hnew
    · exact holds.ledger.answered t hold written
    · rw [List.mem_singleton.mp hnew] at written ⊢
      rw [if_pos written, hanswer written]
  case accepted =>
    intro s
    rw [taken.taken, List.map_append, List.countP_append, holds.ledger.accepted s,
      List.map_singleton, List.countP_singleton]
    by_cases hthis : s = c.seq ∧ c.result = .written
    · have hbefore : ¬ L.rx.Accepted s := by
        rw [hthis.1]
        exact holds.handout.missing _ hmember
      have hwas : writtenAs s c = true := by simp [writtenAs, hthis.1, hthis.2]
      rw [if_neg hbefore, if_pos hwas, if_pos ((haccepted s).mpr (Or.inr hthis))]
    · have hnot : ¬ writtenAs s c = true := by
        simp only [writtenAs, Bool.and_eq_true, decide_eq_true_eq]
        exact fun both => hthis ⟨both.2.symm, both.1⟩
      rw [if_neg hnot]
      exact if_congr (((haccepted s).trans (or_iff_left hthis)).symm) rfl rfl
  case written =>
    rw [taken.written, taken.taken, holds.ledger.written]
    by_cases hresult : c.result = .written
    · rw [if_pos ⟨hresult, hanswer hresult⟩, u64_add]
      simp [hresult]
    · simp [hresult]
  case writes => rw [taken.handled, hkey]; exact holds.ledger.writes
  case placed =>
    have hplace : L'.laneBase = L.laneBase ∧ L'.shardBytes = L.shardBytes := by
      rw [taken.rest]
      exact ⟨rfl, rfl⟩
    unfold filled
    rw [hplace.1, hplace.2, taken.rings, taken.handled]
    exact holds.ledger.placed
  case idle =>
    intro hstart
    have hbefore : L.haveStart = false := by
      rw [taken.rest] at hstart
      exact hstart
    rw [(holds.ledger.idle hbefore).2.2] at hmember
    cases hmember

theorem drainResults_inv (holds : L.Inv cfg lane sh) (inside : k ≤ cfg.writers)
    (nowNs count : Nat) : (L.drainResults nowNs k count).Inv cfg lane sh :=
  drainResults_induction (fun _ _ _ _ before reported taken => taken.inv inside reported before)
    count holds

end Changes

theorem claim_writes {sh claimed : Shared} {prepares : Bool} {ss : StreamStart}
    (joined : claim sh prepares ss = some claimed) : claimed.writes = sh.writes := by
  unfold claim at joined
  split at joined
  · split at joined <;> rw [← Option.some.inj joined]
  · split at joined
    · rw [← Option.some.inj joined]
    · cases joined

/-- Joining changes the key and the place of the lane before any block concerns
them. -/
theorem join_inv {cfg : RxConfig} {lane : Nat} {sh : Shared} {L : RecvLane}
    (holds : L.Inv cfg lane sh) (idle : L.haveStart = false) (sink : Shared) (ss : StreamStart)
    (works : Nat → Bool) (keys : Option (List UInt8) × Option Signer) :
    (L.join sink lane ss works keys).Inv cfg lane sh := by
  have hhandled : L.log.handled = [] := (holds.ledger.idle idle).1
  refine ⟨holds.handout.perm rfl rfl rfl (List.Perm.refl _), { holds.ledger with
    handled := ?_, writes := ?_, placed := ?_, idle := fun joined => by cases joined }⟩
  · intro h member
    change h ∈ L.log.handled at member
    rw [hhandled] at member
    cases member
  · rw [holds.ledger.writes]
    change _ = (L.log.handled.map _).filterMap _
    rw [hhandled]
    rfl
  · intro slot member
    change slot ∈ L.filled cfg at member
    rw [holds.ledger.filled_of_idle idle] at member
    cases member

/-- Every change of a lane keeps its accounts, and adds to the writes of no other. -/
theorem Moved.inv {cfg : RxConfig} {lane : Nat} {sh sh' : Shared} {L L' : RecvLane}
    (moved : Moved cfg lane sh L e sh' L') (holds : L.Inv cfg lane sh) :
    L'.Inv cfg lane sh' ∧ ∀ other, other ≠ lane →
      (sh'.writes.filter fun w => w.lane = other) = sh.writes.filter fun w => w.lane = other := by
  cases moved with
  | quiet _ _ _ same => exact ⟨(same.inv holds).shared rfl, fun _ _ => rfl⟩
  | unprepared _ _ _ _ _ agreed _ status =>
    rw [claim_writes agreed]
    exact ⟨((untouched_status L status).inv holds).shared (claim_writes agreed), fun _ _ => rfl⟩
  | joined inp _ ss keys _ _ _ _ before _ _ agreed =>
    rw [claim_writes agreed]
    exact ⟨(join_inv holds before _ ss inp.works keys).shared (claim_writes agreed),
      fun _ _ => rfl⟩
  | handedOut _ _ d _ _ _ started decoded passed handed =>
    exact ⟨dispatch_inv holds decoded started passed handed, fun _ _ => rfl⟩
  | drained k count failsAfter inside =>
    obtain ⟨handled, drained, _⟩ := drainChannel_drained cfg lane k count failsAfter sh L
    refine ⟨drained.inv inside rfl holds, fun other differs => ?_⟩
    rw [drained.writes, List.filter_append, writes_of_lane, if_neg differs, List.append_nil]
  | verdicts k count nowNs _ inside =>
    exact ⟨drainResults_inv holds inside nowNs count, fun _ _ => rfl⟩

end RecvLane

namespace RxState

def Inv (cfg : RxConfig) (st : RxState) : Prop :=
  ∀ lane, (st.lanes lane).Inv cfg lane st.shared

theorem create_inv (cfg : RxConfig) (sink : Sink) : (create sink).Inv cfg := fun lane =>
  RecvLane.create_inv cfg lane sink

section Steps

variable {cfg : RxConfig} {st : RxState}

/-- Every step of every thread keeps the accounts of every lane. -/
theorem Inv.stepped (holds : st.Inv cfg) {st' : RxState} (stepped : Stepped cfg st e st') :
    st'.Inv cfg := by
  cases stepped with
  | lane lane sh L _ _ change =>
    obtain ⟨hlane, hothers⟩ := change.inv (holds lane)
    refine forall_lanes hlane fun other differs => ?_
    refine ⟨(holds other).handout, { (holds other).ledger with writes := ?_ }⟩
    rw [hothers other differs]
    exact (holds other).ledger.writes
  | finish => exact holds

theorem Inv.step (holds : st.Inv cfg) {st' : RxState} (moved : st.step cfg e = some st') :
    st'.Inv cfg :=
  holds.stepped (step_stepped moved)

theorem reachable_inv {sink : Sink} (reached : Reachable (RxState.step cfg) (create sink) st) :
    st.Inv cfg :=
  reached.invariant (fun _ _ _ holds moved => Inv.step holds moved) (create_inv cfg sink)

end Steps

end RxState

end FuseTransport.Transfer
