import FuseTransport.Transfer.Traffic

/-!
# The receiving side of a session

Every block a lane of the receiver holds is one the sender's lane has sent, read under
the same key and for the same place.  What it writes are the sender's bytes, and it
leaves with success only behind the block that ends the stream.
-/

namespace FuseTransport.Transfer

open Foundation Foundation.Channels Proto

variable {lane : Nat} {block : SentBlock}

/-- The payload of a block is found in the file. -/
theorem Slice.data {cfg : SendConfig} (slice : Slice cfg lane block) {i : Nat} {b : UInt8}
    (found : block.payload[i]? = some b) :
    cfg.data[cfg.laneBase lane + block.offset + i]? = some b := by
  rw [slice.2, List.getElem?_take] at found
  split at found
  · rw [List.getElem?_drop, SendConfig.shard, List.getElem?_take] at found
    split at found
    · rw [List.getElem?_drop, ← Nat.add_assoc] at found
      exact found
    · cases found
  · cases found

structure Brings (cfg : SendConfig) (lane seqNo : Nat) (block : SentBlock) (item : Item) : Prop where
  seq : item.completion.seq = seqNo
  written : item.completion.result = .written
  last : isLastBlock item.completion.flags = isLastBlock block.flags
  sendTime : item.completion.sendTime < 2 ^ 64
  bytes : ∀ p b, item.At p b ↔ cfg.laneBase lane + block.offset ≤ p ∧
    block.payload[p - (cfg.laneBase lane + block.offset)]? = some b

theorem examine_brings {cfg : SendConfig} {seqNo : Nat} {slot : PacketSlot}
    {opens : DataDatagram → Option (List UInt8)}
    (sent : SendOf (cfg.cipher lane) lane seqNo block slot.dg) (slice : Slice cfg lane block)
    (lane_fits : lane < 2 ^ 16) (seq_fits : seqNo < 2 ^ 64)
    (reads : opens = unprotect (cfg.cipher lane) lane) (base : slot.laneBase = cfg.laneBase lane)
    (total : slot.laneTotal = cfg.shardBytes lane) :
    Brings cfg lane seqNo block (examine opens slot) := by
  have hinside := slice.1
  have hshard := shard_inside cfg.data.length cfg.lanes lane
  have hdata := cfg.data_fits
  have hbound : cfg.shardBytes lane < 2 ^ 64 := by
    change shardLength cfg.data.length cfg.lanes lane < 2 ^ 64
    omega
  obtain ⟨d, hdecoded, conveys⟩ := sent.decode lane_fits seq_fits (by omega)
  have hopen : opens d = some block.payload := by rw [reads]; exact conveys.payload
  unfold examine
  rw [hdecoded]
  dsimp only
  rw [hopen]
  dsimp only
  rw [conveys.offset, base]
  split
  · exact ⟨conveys.seqNo, rfl, conveys.last, conveys.sendTimeNs, fun p b => Iff.rfl⟩
  · rename_i hrefused
    -- inside the lane, so there is nothing to write
    have hempty : block.payload = [] := by
      refine List.eq_nil_of_length_eq_zero (Nat.eq_zero_of_not_pos fun positive => hrefused ?_)
      exact ⟨positive, by omega, by omega⟩
    refine ⟨conveys.seqNo, rfl, conveys.last, conveys.sendTimeNs, fun p b => ?_⟩
    rw [hempty]
    constructor
    · rintro ⟨_, hat⟩
      cases hat
    · rintro ⟨_, hat⟩
      cases hat

variable {c : Completion}

theorem Reports.header {item : Item} (reports : Reports item c) :
    c.seq = item.completion.seq ∧ c.flags = item.completion.flags ∧
      c.sendTime = item.completion.sendTime := by
  cases reports with
  | examined | ioFailed => exact ⟨rfl, rfl, rfl⟩

/-! ## What holds of a lane -/

namespace RecvLane

/-- What holds of a lane of the receiver, given the blocks the sender's lane has sent. -/
structure Sound (cfg : SessionConfig) (lane : Nat) (history : List SentBlock) (sh : Shared)
    (R : RecvLane) : Prop where
  slots : ∀ slot ∈ R.filled cfg.recv, Carried cfg.send lane history slot.dg
  place : R.haveStart = true →
    R.laneBase = cfg.send.laneBase lane ∧ R.shardBytes = cfg.send.shardBytes lane
  reads : R.haveStart = true → R.opens cfg.recv.keyed lane = unprotect (cfg.send.cipher lane) lane
  ready : R.haveStart = true → sh.sinkState = .ready
  asks : R.haveStart = true → R.Asks
  fresh : R.haveStart = true → sh.sink.resumed = false → R.log.want = wholeLane R.shardBytes
  stored : ∀ h ∈ R.log.handled, h.2.result = .written →
    ∀ p b, (R.examined cfg.recv lane h).1.At p b → sh.sink.Holds p
  final : R.finalSeq ≠ kNone →
    ∃ block, history[R.finalSeq]? = some block ∧ isLastBlock block.flags = true
  reports : R.rx.Reports history.length
  nonce : R.peerNonce < 2 ^ 64
  left : R.status = some .ok →
    R.haveStart = true ∧ R.finalSeq ≠ kNone ∧ R.finalSeq < R.rx.baseSeqNo

theorem create_sound (cfg : SessionConfig) (lane_fits : lane < 2 ^ 16) (sh : Shared) :
    (create lane).Sound cfg lane [] sh where
  slots := by
    change ∀ slot ∈ contents (cfg.recv.writers + 1) (fun _ => []) ++ [], _
    rw [contents_empty]
    exact nofun
  place := nofun
  reads := nofun
  ready := nofun
  asks := nofun
  fresh := nofun
  stored := nofun
  final := fun set => absurd rfl set
  reports := ReceiverStream.Reports.create lane_fits 0 kWindow true
  nonce := Nat.two_pow_pos 64
  left := nofun

structure Onward (sh sh' : Shared) : Prop where
  held : ∀ p, sh.sink.Holds p → sh'.sink.Holds p
  ready : sh.sinkState = .ready → sh'.sinkState = .ready ∧ sh'.sink.resumed = sh.sink.resumed
  fresh : sh'.sink.resumed = false → sh.sink.resumed = false

theorem Onward.refl (sh : Shared) : Onward sh sh := ⟨fun _ => id, fun ready => ⟨ready, rfl⟩, id⟩

section Sound

variable {cfg : SessionConfig} {lane : Nat} {history : List SentBlock} {sh sh' : Shared}
  {R R' : RecvLane}

section

variable (sound : R.Sound cfg lane history sh)
include sound

theorem Sound.onward (onward : Onward sh sh') : R.Sound cfg lane history sh' :=
  { sound with
    ready := fun started => (onward.ready (sound.ready started)).1
    fresh := fun started resumed => sound.fresh started (onward.fresh resumed)
    stored := fun h member written p b hat => onward.held p (sound.stored h member written p b hat) }

theorem Sound.mono {longer : List SentBlock} (grows : history <+: longer) :
    R.Sound cfg lane longer sh :=
  { sound with
    slots := fun slot member => (sound.slots slot member).mono grows
    final := by
      intro set
      obtain ⟨block, hfound, hlast⟩ := sound.final set
      exact ⟨block, getElem?_of_grows grows hfound, hlast⟩
    reports := sound.reports.mono grows.length_le }

/-- Every block that is or was out is one of the sender's, and its consumer sees it
so. -/
theorem Sound.brings (accounts : R.Inv cfg.recv lane sh)
    (slices : ∀ block ∈ history, Slice cfg.send lane block) (lane_fits : lane < 2 ^ 16)
    (word : history.length ≤ 2 ^ 64) {slot : PacketSlot} (member : slot ∈ R.filled cfg.recv) :
    ∃ seqNo block, history[seqNo]? = some block ∧
      Brings cfg.send lane seqNo block (examine (R.opens cfg.recv.keyed lane) slot) := by
  have hstarted : R.haveStart = true := by
    cases hidle : R.haveStart with
    | true => rfl
    | false =>
      rw [accounts.ledger.filled_of_idle hidle] at member
      cases member
  obtain ⟨seqNo, block, hfound, hsent⟩ := sound.slots slot member
  obtain ⟨hbase, htotal⟩ := accounts.ledger.placed slot member
  obtain ⟨hlaneBase, hshard⟩ := sound.place hstarted
  have hinside := (List.getElem?_eq_some_iff.mp hfound).1
  exact ⟨seqNo, block, hfound, examine_brings hsent (slices block (List.mem_of_getElem? hfound))
    lane_fits (by omega) (sound.reads hstarted) (hbase.trans hlaneBase) (htotal.trans hshard)⟩

/-- A verdict the reader has not taken is about a block of the sender. -/
theorem Sound.reported (accounts : R.Inv cfg.recv lane sh)
    (slices : ∀ block ∈ history, Slice cfg.send lane block) (lane_fits : lane < 2 ^ 16)
    (word : history.length ≤ 2 ^ 64) (member : c ∈ R.untaken cfg.recv) :
    ∃ block, history[c.seq]? = some block ∧ isLastBlock c.flags = isLastBlock block.flags ∧
      c.sendTime < 2 ^ 64 := by
  have hreported := accounts.ledger.reported.mem_iff.mpr (List.mem_append_right _ member)
  obtain ⟨h, hhandled, rfl⟩ := List.mem_map.mp hreported
  have hfilled : h.1 ∈ R.filled cfg.recv :=
    List.mem_append_right _ (List.mem_map_of_mem hhandled)
  obtain ⟨seqNo, block, hfound, brings⟩ := sound.brings accounts slices lane_fits word hfilled
  have hreports := accounts.ledger.handled h hhandled
  obtain ⟨hseq, hflags, htime⟩ := hreports.header
  refine ⟨block, ?_, ?_, ?_⟩
  · rw [hseq]
    exact brings.seq ▸ hfound
  · rw [hflags]
    exact brings.last
  · rw [htime]
    exact brings.sendTime

/-- An accepted block is one of the sender's, and all of it is in the output. -/
theorem Sound.accepted (accounts : R.Inv cfg.recv lane sh)
    (slices : ∀ block ∈ history, Slice cfg.send lane block) (lane_fits : lane < 2 ^ 16)
    (word : history.length ≤ 2 ^ 64) {s : Nat} (accepted : R.rx.Accepted s) :
    ∃ block, history[s]? = some block ∧ ∀ i < block.payload.length,
      sh.sink.Holds (cfg.send.laneBase lane + block.offset + i) := by
  obtain ⟨h, hfilter⟩ := accounts.handled_once accepted
  have hmember : h ∈ R.log.handled.filter fun h => writtenAs s h.2 := by
    rw [hfilter]
    exact List.mem_singleton_self h
  obtain ⟨hhandled, hwas⟩ := List.mem_filter.mp hmember
  obtain ⟨hresult, hseq⟩ := Bool.and_eq_true_iff.mp hwas
  have hfilled : h.1 ∈ R.filled cfg.recv :=
    List.mem_append_right _ (List.mem_map_of_mem hhandled)
  obtain ⟨seqNo, block, hfound, brings⟩ := sound.brings accounts slices lane_fits word hfilled
  have hnumber : seqNo = s := by
    rw [← of_decide_eq_true hseq, (accounts.ledger.handled h hhandled).seq, ← brings.seq]
    rfl
  rw [hnumber] at hfound
  refine ⟨block, hfound, fun i inside => ?_⟩
  refine sound.stored h hhandled (of_decide_eq_true hresult) _ block.payload[i]
    ((brings.bytes _ _).mpr ⟨Nat.le_add_right _ _, ?_⟩)
  rw [Nat.add_sub_cancel_left, List.getElem?_eq_getElem inside]

end

theorem Asks.place (asks : R.Asks) (same : SamePlace R R') : R'.Asks := by
  obtain ⟨hascending, hshort, hbounded⟩ := asks
  rw [← same.shardBytes] at hascending hbounded
  rw [← same.want] at hascending hshort
  exact ⟨hascending, hshort, hbounded⟩

/-- A lane at its place is judged by its blocks. -/
theorem Sound.at_place (sound : R.Sound cfg lane history sh) (same : SamePlace R R')
    (key : R'.key = R.key) (nonce : R'.peerNonce = R.peerNonce)
    (slots : ∀ slot ∈ R'.filled cfg.recv, Carried cfg.send lane history slot.dg)
    (stored : ∀ h ∈ R'.log.handled, h.2.result = .written →
      ∀ p b, (R.examined cfg.recv lane h).1.At p b → sh.sink.Holds p)
    (final : R'.finalSeq ≠ kNone →
      ∃ block, history[R'.finalSeq]? = some block ∧ isLastBlock block.flags = true)
    (reports : R'.rx.Reports history.length)
    (left : R'.status = some .ok →
      R'.haveStart = true ∧ R'.finalSeq ≠ kNone ∧ R'.finalSeq < R'.rx.baseSeqNo) :
    R'.Sound cfg lane history sh := by
  have hopens : R'.opens cfg.recv.keyed lane = R.opens cfg.recv.keyed lane := by
    unfold opens
    rw [key]
  constructor
  case slots => exact slots
  case place => rw [same.haveStart, same.laneBase, same.shardBytes]; exact sound.place
  case reads => rw [same.haveStart, hopens]; exact sound.reads
  case ready => rw [same.haveStart]; exact sound.ready
  case asks => rw [same.haveStart]; exact fun started => (sound.asks started).place same
  case fresh => rw [same.haveStart, same.want, same.shardBytes]; exact sound.fresh
  case stored =>
    unfold examined at stored ⊢
    rw [hopens]
    exact stored
  case final => exact final
  case reports => exact reports
  case nonce => rw [nonce]; exact sound.nonce
  case left => exact left

theorem Untouched.sound (same : Untouched R R') (sound : R.Sound cfg lane history sh)
    (left : R'.status = some .ok →
      R.haveStart = true ∧ R.finalSeq ≠ kNone ∧ R.finalSeq < R.rx.baseSeqNo) :
    R'.Sound cfg lane history sh := by
  obtain ⟨stamps, hstamps⟩ := same.stamps
  have hrest : R'.finalSeq = R.finalSeq ∧ R'.log = R.log ∧ R'.filled cfg.recv = R.filled cfg.recv ∧
      R'.key = R.key ∧ R'.peerNonce = R.peerNonce := by
    rw [same.rest]
    exact ⟨rfl, rfl, rfl, rfl, rfl⟩
  obtain ⟨hfinal, hlog, hfilled, hkey, hnonce⟩ := hrest
  refine sound.at_place same.place hkey hnonce ?_ ?_ ?_ ?_ ?_
  · rw [hfilled]
    exact sound.slots
  · rw [hlog]
    exact sound.stored
  · rw [hfinal]
    exact sound.final
  · rw [hstamps]
    exact ⟨sound.reports.streamId, sound.reports.baseSeqNo, sound.reports.lastSendTime,
      sound.reports.highest⟩
  · rw [same.place.haveStart, hfinal, hstamps]
    exact left

end Sound

end RecvLane

/-- The output holds bytes of the sender's buffer at their places. -/
structure Faithful (cfg : SessionConfig) (sh : Shared) : Prop extends Sized sh where
  right : ∀ p b, sh.sink.bytes p = some b → cfg.send.data[p]? = some b
  length : sh.sinkState = .ready → sh.fileTotal = cfg.send.data.length

theorem create_faithful (cfg : SessionConfig) (kind : SinkKind) (prior : Option Prior) :
    Faithful cfg { sink := { kind := kind, prior := prior } } :=
  ⟨⟨nofun, nofun, fun _ => ⟨rfl, rfl⟩⟩, nofun, nofun⟩

variable {ss : StreamStart}

theorem claim_onward {sh claimed : Shared} {prepares : Bool} (output : Sized sh)
    (agreed : RecvLane.claim sh prepares ss = some claimed) : RecvLane.Onward sh claimed := by
  obtain ⟨_, _, hbytes, hready, _⟩ := claim_sized output agreed
  refine ⟨fun p held => ?_, fun ready => ?_, fun resumed => ?_⟩
  · unfold Sink.Holds
    rw [hbytes]
    exact held
  · rw [hready ready]
    exact ⟨ready, rfl⟩
  · by_cases ready : sh.sinkState = .ready
    · rw [← hready ready]
      exact resumed
    · exact (output.unused ready).2

variable {dg : List UInt8} {k : Nat}

namespace RecvLane

/-- A transfer that takes nothing over asks for the whole lane. -/
theorem wanted_fresh {sink : Sink} (fresh : sink.resumed = false) (base shard : Nat) :
    wanted sink base shard = wholeLane shard := by
  unfold wanted Sink.missing wholeLane
  rw [if_pos (Or.inl fresh)]
  by_cases hsome : shard > 0
  · rw [if_pos (by omega), if_pos hsome, Nat.add_sub_cancel_left, List.map_singleton, Nat.sub_self]
    rfl
  · rw [if_neg (by omega), if_neg hsome]
    rfl

theorem length_wanted {sh : Shared} (output : Sized sh) (ready : sh.sinkState = .ready)
    {base shard : Nat} (inside : base + shard ≤ sh.fileTotal) :
    (wanted sh.sink base shard).length ≤ kMaxResumeRanges := by
  obtain ⟨hsize, hbound⟩ := output.sized ready
  have hmissing := (sh.sink.missing_spec (Nat.le_add_right base shard) (hsize ▸ inside)
    (output.chunks ready)).1.shift (Nat.le_refl base)
  exact length_coarsenRanges (by decide) hmissing (by omega)

/-- The key an opening message proves reads the blocks sealed under its salt. -/
theorem trial_reads {keyed : Option Keyed} {derives : Bool}
    {keys : Option (List UInt8) × Option Signer}
    (authentic : trial keyed lane ss dg derives = some keys) {R : RecvLane} (key : R.key = keys.1) :
    R.opens keyed lane = unprotect (keyed.map fun k =>
      blockCipher k.backend (k.deriveSessionKey ss.sessionSalt) lane) lane := by
  funext d
  unfold trial at authentic
  cases keyed with
  | none => rfl
  | some k =>
    dsimp only at authentic
    split at authentic
    · rw [← Option.some.inj authentic] at key
      unfold opens
      rw [key]
      rfl
    · cases authentic

section Steps

variable {cfg : SessionConfig} {lane : Nat} {history : List SentBlock} {sh sh' : Shared}
  {R R' : RecvLane}

theorem Sound.join (sound : R.Sound cfg lane history sh) (accounts : R.Inv cfg.recv lane sh)
    (running : R.status = none) {claimed : Shared} (output : Sized claimed)
    (ready : claimed.sinkState = .ready) (length : claimed.fileTotal = cfg.send.data.length)
    {L : SendLane} (start : ss = L.streamStart cfg.send lane) {derives : Bool}
    (works : Nat → Bool) {keys : Option (List UInt8) × Option Signer}
    (before : R.haveStart = false)
    (authentic : trial cfg.recv.keyed lane ss dg derives = some keys) :
    (R.join claimed lane ss works keys).Sound cfg lane history claimed := by
  have hbase : ss.streamBaseOffset = cfg.send.laneBase lane := by rw [start]; rfl
  have hshard : ss.totalBytes = cfg.send.shardBytes lane := by rw [start]; rfl
  have hinside : ss.streamBaseOffset + ss.totalBytes ≤ claimed.fileTotal := by
    rw [hbase, hshard, length]
    exact shard_inside _ _ _
  constructor
  case slots =>
    intro slot member
    change slot ∈ R.filled cfg.recv at member
    rw [accounts.ledger.filled_of_idle before] at member
    cases member
  case place => exact fun _ => ⟨hbase, hshard⟩
  case reads =>
    intro _
    rw [trial_reads authentic (R := R.join claimed lane ss works keys) rfl, start]
    unfold SendConfig.cipher SessionConfig.recv SendLane.streamStart
    cases hkeyed : cfg.send.keyed with
    | none | some k => rfl
  case ready => exact fun _ => ready
  case asks =>
    intro _
    refine ⟨(wanted_ascending output ready hinside).1, length_wanted output ready hinside, ?_⟩
    have hbound := (output.sized ready).2
    change ss.totalBytes ≤ kMaxSize
    omega
  case fresh => exact fun _ fresh => wanted_fresh fresh _ _
  case stored =>
    intro h member
    change h ∈ R.log.handled at member
    rw [(accounts.ledger.idle before).1] at member
    cases member
  case final => exact sound.final
  case reports => exact sound.reports
  case nonce =>
    rw [start]
    exact (cfg.send.nonces lane).toNat_lt
  case left =>
    intro ok
    cases running.symm.trans ok

/-! ## Blocks -/

theorem Sound.dispatch (sound : R.Sound cfg lane history sh) (running : R.status = none)
    {d : DataDatagram} (carried : Carried cfg.send lane history dg)
    (handed : dispatch cfg.recv R dg d = some R') : R'.Sound cfg lane history sh := by
  obtain ⟨hplace, hstatus⟩ := dispatch_place handed
  unfold RecvLane.dispatch at handed
  split at handed
  · have hstate := Option.some.inj handed
    refine sound.at_place hplace (by rw [← hstate]) (by rw [← hstate]) (fun slot member => ?_)
      (by rw [← hstate]; exact sound.stored) (by rw [← hstate]; exact sound.final)
      (by rw [← hstate]; exact sound.reports) fun ok => ?_
    · rw [← hstate] at member
      rcases List.mem_append.mp member with hring | hhandled
      · obtain ⟨k, hk, hslot⟩ := mem_contents.mp hring
        dsimp only at hslot
        by_cases hsame : k = route cfg.recv d.hdr
        · rw [hsame, Function.update_self] at hslot
          rcases List.mem_append.mp hslot with hold | hnew
          · exact sound.slots slot (List.mem_append_left _
              (mem_contents.mpr ⟨_, Nat.lt_succ_of_le (route_le _ _), hold⟩))
          · rw [List.mem_singleton.mp hnew]
            exact carried
        · rw [Function.update_of_ne hsame] at hslot
          exact sound.slots slot (List.mem_append_left _ (mem_contents.mpr ⟨k, hk, hslot⟩))
      · exact sound.slots slot (List.mem_append_right _ hhandled)
    · cases running.symm.trans (hstatus.symm.trans ok)
  · cases handed

/-- A batch writes the sender's bytes where they belong. -/
theorem Sound.drainChannel (sound : R.Sound cfg lane history sh)
    (accounts : R.Inv cfg.recv lane sh) (output : Faithful cfg sh)
    (slices : ∀ block ∈ history, Slice cfg.send lane block) (lane_fits : lane < 2 ^ 16)
    (word : history.length ≤ 2 ^ 64) (inside : k ≤ cfg.recv.writers) (count : Nat)
    (failsAfter : Nat → Option Nat) :
    (drainChannel cfg.recv lane k count failsAfter sh R).2.Sound cfg lane history
        (drainChannel cfg.recv lane k count failsAfter sh R).1 ∧
      Faithful cfg (drainChannel cfg.recv lane k count failsAfter sh R).1 ∧
      Onward sh (drainChannel cfg.recv lane k count failsAfter sh R).1 := by
  obtain ⟨handled, drained, _⟩ := drainChannel_drained cfg.recv lane k count failsAfter sh R
  obtain ⟨hbatch, hfilled⟩ := drained.filled inside
  have hstate : (RecvLane.drainChannel cfg.recv lane k count failsAfter sh R).1.sinkState =
      sh.sinkState := rfl
  have htotal : (RecvLane.drainChannel cfg.recv lane k count failsAfter sh R).1.fileTotal =
      sh.fileTotal := rfl
  have hplace : SamePlace R (RecvLane.drainChannel cfg.recv lane k count failsAfter sh R).2 :=
    ⟨rfl, rfl, rfl, rfl, rfl⟩
  have hrest : (RecvLane.drainChannel cfg.recv lane k count failsAfter sh R).2.key = R.key ∧
      (RecvLane.drainChannel cfg.recv lane k count failsAfter sh R).2.peerNonce = R.peerNonce ∧
      (RecvLane.drainChannel cfg.recv lane k count failsAfter sh R).2.finalSeq = R.finalSeq ∧
      (RecvLane.drainChannel cfg.recv lane k count failsAfter sh R).2.rx = R.rx ∧
      (RecvLane.drainChannel cfg.recv lane k count failsAfter sh R).2.status = R.status :=
    ⟨rfl, rfl, rfl, rfl, rfl⟩
  generalize RecvLane.drainChannel cfg.recv lane k count failsAfter sh R = after at *
  have honward : Onward sh after.1 :=
    ⟨drained.takes.kept, fun ready => ⟨hstate.trans ready, drained.takes.shape.resumed⟩,
      fun fresh => drained.takes.shape.resumed.symm.trans fresh⟩
  refine ⟨?_, ⟨output.toSized.drained hstate htotal drained.takes.shape, ?_, ?_⟩, honward⟩
  · obtain ⟨hkey, hnonce, hfinal, hrx, hstatus⟩ := hrest
    have hsound := sound.onward honward
    refine hsound.at_place hplace hkey hnonce (fun slot member => sound.slots slot (hfilled slot member))
      ?_ ?_ ?_ ?_
    · intro h member written p b hat
      rw [drained.logged] at member
      rcases List.mem_append.mp member with hold | hnew
      · exact hsound.stored h hold written p b hat
      · exact drained.takes.stored _ (List.mem_map_of_mem hnew) written p b hat
    · rw [hfinal]
      exact sound.final
    · rw [hrx]
      exact sound.reports
    · rw [hstatus, hplace.haveStart, hfinal, hrx]
      exact sound.left
  · intro p b found
    rcases drained.takes.source p b found with hbefore | ⟨r, member, hat⟩
    · exact output.right p b hbefore
    · obtain ⟨h, hh, rfl⟩ := List.mem_map.mp member
      obtain ⟨seqNo, block, hfound, brings⟩ :=
        sound.brings accounts slices lane_fits word (hbatch h hh)
      obtain ⟨habove, hbyte⟩ := (brings.bytes p b).mp hat
      have hdata := (slices block (List.mem_of_getElem? hfound)).data hbyte
      rwa [Nat.add_sub_cancel' habove] at hdata
  · rw [hstate, htotal]
    exact output.length

theorem Taken.sound {nowNs : Nat} {rest : List Completion} (taken : Taken k nowNs c rest R R')
    (sound : R.Sound cfg lane history sh) (running : R.status = none)
    (found : history[c.seq]? = some block) (last : isLastBlock c.flags = isLastBlock block.flags)
    (sendTime : c.sendTime < 2 ^ 64) :
    R'.Sound cfg lane history sh := by
  have hinside := (List.getElem?_eq_some_iff.mp found).1
  have hplace : SamePlace R R' := by
    rw [taken.rest]
    exact ⟨rfl, rfl, rfl, rfl, rfl⟩
  have hrest : R'.key = R.key ∧ R'.peerNonce = R.peerNonce ∧ R'.status = R.status := by
    rw [taken.rest]
    exact ⟨rfl, rfl, rfl⟩
  obtain ⟨hkey, hnonce, hstatus⟩ := hrest
  refine sound.at_place hplace hkey hnonce ?_ ?_ ?_ ?_ fun ok => ?_
  · unfold filled
    rw [taken.rings, taken.handled]
    exact sound.slots
  · rw [taken.handled]
    exact sound.stored
  · rw [taken.finalSeq]
    split
    · rename_i hend
      exact fun _ => ⟨block, found, last.symm.trans hend.2⟩
    · exact sound.final
  · rw [taken.rx]
    split
    · exact sound.reports.onReceive hinside sendTime nowNs
    · exact sound.reports
  · cases running.symm.trans (hstatus.symm.trans ok)

/-- Taking verdicts accepts only blocks of the sender. -/
theorem Sound.drainResults (sound : R.Sound cfg lane history sh)
    (accounts : R.Inv cfg.recv lane sh) (slices : ∀ block ∈ history, Slice cfg.send lane block)
    (lane_fits : lane < 2 ^ 16) (word : history.length ≤ 2 ^ 64) (running : R.status = none)
    (inside : k ≤ cfg.recv.writers) (nowNs count : Nat) :
    (R.drainResults nowNs k count).Sound cfg lane history sh ∧
      R.rx.baseSeqNo ≤ (R.drainResults nowNs k count).rx.baseSeqNo ∧
      ∀ s, R.rx.Accepted s → (R.drainResults nowNs k count).rx.Accepted s := by
  have hstep : ∀ M M' c rest,
      (M.Sound cfg lane history sh ∧ M.Inv cfg.recv lane sh ∧ M.status = none ∧
        R.rx.baseSeqNo ≤ M.rx.baseSeqNo ∧ ∀ s, R.rx.Accepted s → M.rx.Accepted s) →
      M.dones k = c :: rest → Taken k nowNs c rest M M' →
      M'.Sound cfg lane history sh ∧ M'.Inv cfg.recv lane sh ∧ M'.status = none ∧
        R.rx.baseSeqNo ≤ M'.rx.baseSeqNo ∧ ∀ s, R.rx.Accepted s → M'.rx.Accepted s := by
    rintro M M' c rest ⟨hsound, haccounts, hrunning, hbase, haccepted⟩ hdones taken
    have hmember : c ∈ M.untaken cfg.recv := by
      refine mem_contents.mpr ⟨k, Nat.lt_succ_of_le inside, ?_⟩
      rw [hdones]
      exact List.mem_cons_self
    obtain ⟨block, hfound, hlast, htime⟩ :=
      hsound.reported haccounts slices lane_fits word hmember
    have hwindow := taken.window haccounts.handout (untaken_inFlight hmember)
    refine ⟨taken.sound hsound hrunning hfound hlast htime, taken.inv inside hdones haccounts, ?_,
      Nat.le_trans hbase hwindow.2.2.1, fun s accepted => (hwindow.2.2.2.1 s).mpr (Or.inl (haccepted s accepted))⟩
    rw [taken.rest]
    exact hrunning
  obtain ⟨hsound, _, _, hkept⟩ :=
    drainResults_induction hstep count ⟨sound, accounts, running, Nat.le_refl _, fun _ => id⟩
  exact ⟨hsound, hkept⟩

/-- What a step of the receiver keeps of a lane's promises to the sender. -/
structure Kept (R R' : RecvLane) : Prop where
  base : R.rx.baseSeqNo ≤ R'.rx.baseSeqNo
  accepted : ∀ s, R.rx.Accepted s → R'.rx.Accepted s
  asked : R.haveStart = true → R'.haveStart = true ∧ R'.log.want = R.log.want

theorem Untouched.base_le (same : Untouched R R') : R.rx.baseSeqNo ≤ R'.rx.baseSeqNo := by
  obtain ⟨stamps, hrx⟩ := same.stamps
  rw [hrx]

theorem dispatch_rx {d : DataDatagram} (handed : RecvLane.dispatch cfg.recv R dg d = some R') :
    R'.rx = R.rx := by
  unfold RecvLane.dispatch at handed
  split at handed
  · rw [← Option.some.inj handed]
  · cases handed

theorem SamePlace.asked_same (same : SamePlace R R') :
    R.haveStart = true → R'.haveStart = true ∧ R'.log.want = R.log.want :=
  fun started => ⟨same.haveStart.trans started, same.want⟩

/-- Every change of a lane that is sent only what its sender's lane sends. -/
theorem Moved.sound {e : RxEvent} (moved : Moved cfg.recv lane sh R e sh' R')
    (sound : R.Sound cfg lane history sh) (accounts : R.Inv cfg.recv lane sh)
    (output : Faithful cfg sh) (slices : ∀ block ∈ history, Slice cfg.send lane block)
    (lane_fits : lane < 2 ^ 16) (word : history.length ≤ 2 ^ 64)
    (arrived : ∀ inp dg, e = .datagram lane inp dg → Forward cfg.send lane history dg) :
    R'.Sound cfg lane history sh' ∧ Faithful cfg sh' ∧ Onward sh sh' ∧ Kept R R' := by
  cases moved with
  | quiet _ digest _ same running leaves =>
    have honward : Onward sh { sh with digest := digest } :=
      ⟨fun _ => id, fun ready => ⟨ready, rfl⟩, id⟩
    refine ⟨same.sound (sound.onward honward) fun ok => ?_,
      ⟨⟨output.sized, output.chunks, output.unused⟩, output.right, output.length⟩, honward,
      same.base_le, fun s => (same.accepted s).mpr, same.place.asked_same⟩
    have hcompleted := (leaves ok).1
    simp only [completed, Bool.and_eq_true, decide_eq_true_eq] at hcompleted
    exact ⟨hcompleted.1.1.1, hcompleted.1.1.2, hcompleted.1.2⟩
  | unprepared inp dg ss _ running agreed unready status failed =>
    obtain ⟨hsized, _, hbytes, _, _⟩ := claim_sized output.toSized agreed
    have honward := claim_onward output.toSized agreed
    refine ⟨(untouched_status R status).sound (sound.onward honward) fun ok => absurd ok failed,
      ⟨hsized, ?_, fun ready => absurd ready unready⟩, honward, Nat.le_refl _, fun _ => id,
      fun started => ⟨started, rfl⟩⟩
    rw [hbytes]
    exact output.right
  | joined inp dg ss keys _ running peeked decoded before authentic _ agreed ready =>
    obtain ⟨hsized, htotal, hbytes, _, _⟩ := claim_sized output.toSized agreed
    have honward := claim_onward output.toSized agreed
    obtain ⟨L, hstart⟩ := (arrived inp dg rfl).starts ss decoded
    have hlength : sh'.fileTotal = cfg.send.data.length := by
      rw [htotal, hstart]
      rfl
    refine ⟨sound.join accounts running hsized ready hlength hstart inp.works before
      authentic, ⟨hsized, ?_, fun _ => hlength⟩, honward, Nat.le_refl _, fun _ => id,
      fun started => ?_⟩
    · rw [hbytes]
      exact output.right
    · cases before.symm.trans started
  | handedOut inp dg d _ running peeked started decoded passed handed =>
    have hplace := (dispatch_place handed).1
    refine ⟨sound.dispatch running ((arrived inp dg rfl).blocks peeked) handed, output,
      Onward.refl sh, ?_, ?_, hplace.asked_same⟩
    · rw [dispatch_rx handed]
    · rw [dispatch_rx handed]
      exact fun _ => id
  | drained k count failsAfter inside =>
    obtain ⟨hsound, houtput, honward⟩ :=
      sound.drainChannel accounts output slices lane_fits word inside count failsAfter
    exact ⟨hsound, houtput, honward, Nat.le_refl _, fun _ => id, fun started => ⟨started, rfl⟩⟩
  | verdicts k count nowNs running inside =>
    obtain ⟨hsound, hbase, haccepted⟩ := sound.drainResults accounts slices lane_fits word running
      inside nowNs count
    exact ⟨hsound, output, Onward.refl sh, hbase, haccepted,
      (drainResults_place R nowNs k count).1.asked_same⟩

end Steps

end RecvLane

end FuseTransport.Transfer
