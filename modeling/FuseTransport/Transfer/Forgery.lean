import FuseTransport.Transfer.Incoming
import FuseTransport.Transfer.Tiling

/-!
# A network that forges

Under a pre-shared key the network may alter, inject and replay whatever it likes, at
both ends; it only cannot make the cipher accept what the sender has not sealed.  The
reader hands out forged blocks like any others, and their consumers refuse them.
-/

namespace FuseTransport.Transfer

open Foundation Foundation.BigEndian Foundation.Channels Foundation.Runs Proto

variable (cfg : SendConfig)

/-- A datagram whose block, if it opens, is the one the sender sealed under its number. -/
def FromSender (lane : Nat) (history : List SentBlock) (dg : List UInt8) : Prop :=
  ∀ d ∈ decodeDataDatagram dg, ∀ body ∈ unprotect (cfg.cipher lane) lane d,
    ∃ block ∈ history[d.hdr.seqNo]?, block.offset = d.hdr.offset ∧ block.payload = body

/-- A datagram whose opening message, if it verifies, is one the sender signed, with
whatever token. -/
def SenderSigned (lane : Nat) (dg : List UInt8) : Prop :=
  ∀ ss ∈ decodeStreamStart dg, ∀ derives, (RecvLane.trial cfg.keyed lane ss dg derives).isSome →
    ss = SendLane.streamStart cfg lane { SendLane.create cfg lane with token := ss.token }

/-- What the network can do to the receiver. -/
def Unforged (history : Nat → List SentBlock) : RxEvent → Prop
  | .datagram lane _ dg => FromSender cfg lane (history lane) dg ∧ SenderSigned cfg lane dg
  | _ => True

instance  (history : Nat → List SentBlock) : DecidablePred (Unforged cfg history)
  | .datagram _ _ _ => by unfold Unforged FromSender SenderSigned; infer_instance
  | .consumer .. | .results .. | .window .. | .ack .. | .nack .. | .probe .. | .giveUp ..
  | .aborted .. | .complete .. | .finish .. => isTrue trivial

namespace RecvLane

theorem claim_bytes {sh claimed : Shared} {prepares : Bool} {ss : StreamStart}
    (agreed : claim sh prepares ss = some claimed) : claimed.sink.bytes = sh.sink.bytes := by
  grind [claim, Sink.prepare]

/-- What a lane keeps under such a network. -/
structure Authentic (cfg : SessionConfig) (lane : Nat) (history : List SentBlock)
    (R : RecvLane) : Prop where
  slots : ∀ k, ∀ slot ∈ R.rings k, FromSender cfg.send lane history slot.dg
  place : R.haveStart = true → R.laneBase = cfg.send.laneBase lane
  reads : R.haveStart = true → R.opens cfg.recv.keyed lane = unprotect (cfg.send.cipher lane) lane

section Lane

variable {cfg : SessionConfig} {lane : Nat} {history : List SentBlock} {sh sh' : Shared}
  {R R' : RecvLane}

/-- A block with something to write is the sender's. -/
theorem Authentic.examined (authentic : R.Authentic cfg lane history)
    (accounts : R.Inv cfg.recv lane sh) (slices : ∀ block ∈ history, Slice cfg.send lane block)
    {k p : Nat} {b : UInt8} (inside : k ≤ cfg.recv.writers) {slot : PacketSlot}
    (member : slot ∈ R.rings k) (found : (examine (R.opens cfg.recv.keyed lane) slot).At p b) :
    cfg.send.data[p]? = some b := by
  have hfilled : slot ∈ R.filled cfg.recv :=
    List.mem_append_left _ (mem_contents.mpr ⟨k, Nat.lt_succ_of_le inside, member⟩)
  have hstarted : R.haveStart = true := by
    cases hidle : R.haveStart with
    | true => rfl
    | false =>
      rw [accounts.ledger.filled_of_idle hidle] at hfilled
      cases hfilled
  obtain ⟨habove, hbyte⟩ := found
  have hsome : (examine (R.opens cfg.recv.keyed lane) slot).body ≠ [] := by
    intro hnone
    rw [hnone] at hbyte
    cases hbyte
  obtain ⟨d, body, hdecoded, hopen, hbody, hoff⟩ := examine_written (Item.authentic _ hsome)
  rw [authentic.reads hstarted] at hopen
  obtain ⟨block, hfound, hoffset, hpayload⟩ := authentic.slots k slot member d hdecoded body hopen
  rw [hoff hsome, (accounts.ledger.placed slot hfilled).1, authentic.place hstarted,
    ← hoffset] at habove hbyte
  rw [hbody] at hbyte
  split at hbyte
  · have hdata := (slices block (List.mem_of_getElem? hfound)).data (hpayload ▸ hbyte)
    rwa [Nat.add_sub_cancel' habove] at hdata
  · cases hbyte

theorem Authentic.at_place (authentic : R.Authentic cfg lane history) (same : SamePlace R R')
    (key : R'.key = R.key)
    (slots : ∀ k, ∀ slot ∈ R'.rings k, FromSender cfg.send lane history slot.dg) :
    R'.Authentic cfg lane history := by
  refine ⟨slots, ?_, ?_⟩
  · rw [same.haveStart, same.laneBase]
    exact authentic.place
  · rw [same.haveStart]
    unfold opens
    rw [key]
    exact authentic.reads

theorem Authentic.join (authentic : R.Authentic cfg lane history) {dg : List UInt8}
    {ss : StreamStart} (decoded : decodeStreamStart dg = some ss)
    (signed : SenderSigned cfg.send lane dg) {derives : Bool}
    {keys : Option (List UInt8) × Option Signer}
    (trusted : trial cfg.recv.keyed lane ss dg derives = some keys) (claimed : Shared)
    (works : Nat → Bool) : (R.join claimed lane ss works keys).Authentic cfg lane history := by
  have hstart := signed ss decoded derives (Option.isSome_iff_exists.mpr ⟨keys, trusted⟩)
  refine ⟨authentic.slots, fun _ => ?_, fun _ => ?_⟩
  · rw [hstart]
    rfl
  · rw [trial_reads trusted (R := R.join claimed lane ss works keys) rfl, hstart]
    unfold SendConfig.cipher SessionConfig.recv SendLane.streamStart
    cases hkeyed : cfg.send.keyed with
    | none | some k => rfl

/-- One event of a lane: what it writes are only the sender's bytes. -/
theorem Moved.authentic {e : RxEvent} (moved : Moved cfg.recv lane sh R e sh' R')
    (authentic : R.Authentic cfg lane history) (accounts : R.Inv cfg.recv lane sh)
    (slices : ∀ block ∈ history, Slice cfg.send lane block)
    (arrives : ∀ inp dg, e = .datagram lane inp dg →
      FromSender cfg.send lane history dg ∧ SenderSigned cfg.send lane dg) :
    R'.Authentic cfg lane history ∧
      ∀ p b, sh'.sink.bytes p = some b → sh.sink.bytes p = some b ∨ cfg.send.data[p]? = some b := by
  cases moved with
  | quiet _ _ _ same =>
    refine ⟨authentic.at_place same.place ?_ ?_, fun _ _ => Or.inl⟩
    · rw [same.rest]
    · rw [same.rest]
      exact authentic.slots
  | unprepared _ _ _ _ _ agreed =>
    rw [claim_bytes agreed]
    exact ⟨authentic.at_place ⟨rfl, rfl, rfl, rfl, rfl⟩ rfl authentic.slots, fun _ _ => Or.inl⟩
  | joined inp dg ss keys _ _ _ decoded _ trusted _ agreed =>
    rw [claim_bytes agreed]
    exact ⟨authentic.join decoded (arrives inp dg rfl).2 trusted _ inp.works, fun _ _ => Or.inl⟩
  | handedOut inp dg d _ _ _ _ _ _ handed =>
    refine ⟨authentic.at_place (dispatch_place handed).1 ?_ ?_, fun _ _ => Or.inl⟩ <;>
      unfold dispatch at handed <;> split at handed <;> cases handed
    · rfl
    · refine (Function.forall_update_iff R.rings fun _ ring =>
        ∀ slot ∈ ring, FromSender cfg.send lane history slot.dg).mpr ⟨fun slot member => ?_,
          fun k _ => authentic.slots k⟩
      rcases List.mem_append.mp member with hold | hnew
      · exact authentic.slots _ slot hold
      · rw [List.mem_singleton.mp hnew]
        exact (arrives inp dg rfl).1
  | drained k count failsAfter inside =>
    obtain ⟨handled, drained, _⟩ := drainChannel_drained cfg.recv lane k count failsAfter sh R
    obtain ⟨n, htaken, hleft⟩ := drained.slots
    refine ⟨authentic.at_place ⟨rfl, rfl, rfl, rfl, rfl⟩ rfl ?_, fun p b found => ?_⟩
    · exact (Function.forall_update_iff R.rings fun _ ring =>
        ∀ slot ∈ ring, FromSender cfg.send lane history slot.dg).mpr ⟨fun slot member =>
          authentic.slots k slot (List.mem_of_mem_drop member), fun j _ => authentic.slots j⟩
    · refine (drained.takes.source p b found).imp_right ?_
      rintro ⟨r, member, hat⟩
      obtain ⟨h, hh, rfl⟩ := List.mem_map.mp member
      have hslot : h.1 ∈ (R.rings k).take n := htaken ▸ List.mem_map_of_mem hh
      exact authentic.examined accounts slices inside (List.mem_of_mem_take hslot) hat
  | verdicts k count nowNs =>
    have hstep : ∀ M M' c rest, M.Authentic cfg lane history → M.dones k = c :: rest →
        Taken k nowNs c rest M M' → M'.Authentic cfg lane history := by
      intro M M' c rest kept _ taken
      refine kept.at_place ?_ ?_ ?_ <;> rw [taken.rest]
      · exact ⟨rfl, rfl, rfl, rfl, rfl⟩
      · exact taken.rings ▸ kept.slots
    exact ⟨drainResults_induction hstep count authentic, fun _ _ => Or.inl⟩

end Lane

end RecvLane

/-! ## Every run -/

/-- What holds of the receiver under a network that cannot forge seals. -/
structure RxState.Authentic (cfg : SessionConfig) (history : Nat → List SentBlock)
    (st : RxState) : Prop where
  accounts : st.Inv cfg.recv
  lanes : ∀ lane, (st.lanes lane).Authentic cfg lane (history lane)
  right : ∀ p b, st.shared.sink.bytes p = some b → cfg.send.data[p]? = some b

theorem RxState.Authentic.step {cfg : SessionConfig} {history : Nat → List SentBlock}
    (slices : ∀ lane < cfg.send.lanes, ∀ block ∈ history lane, Slice cfg.send lane block)
    {st st' : RxState} {e : RxEvent} (authentic : st.Authentic cfg history)
    (unforged : Unforged cfg.send history e) (moved : st.step cfg.recv e = some st') : st'.Authentic cfg history := by
  have haccounts := authentic.accounts.step moved
  cases step_stepped moved with
  | lane lane sh L own inside change =>
    obtain ⟨hlane, hbrought⟩ := change.authentic (authentic.lanes lane) (authentic.accounts lane)
      (slices lane inside) fun inp dg arrived => by
        rw [arrived] at unforged
        exact unforged
    exact ⟨haccounts, forall_lanes hlane fun other _ => authentic.lanes other, fun p b found =>
      (hbrought p b found).elim (authentic.right p b) id⟩
  | finish verifies commits waiting left => exact ⟨haccounts, authentic.lanes, authentic.right⟩

/-- Whatever the network makes the receiver and the sender's lanes hear, short of forging a
seal, every byte that this session wrote is the sender's byte for that place. -/
theorem forged_datagrams_refused {cfg : SessionConfig} {tx : Nat → SendLane}
    (sent : ∀ lane < cfg.send.lanes,
      Reachable (SendLane.step cfg.send lane) (SendLane.create cfg.send lane) (tx lane))
    {run : List RxEvent} {st : RxState}
    (reached : replay (RxState.step cfg.recv)
      (RxState.create { kind := cfg.kind, prior := cfg.prior }) run = some st)
    (unforged : ∀ e ∈ run, Unforged cfg.send (fun lane => (tx lane).history) e) :
    ∀ p b, st.shared.sink.bytes p = some b → cfg.send.data[p]? = some b := by
  have halong : Along (RxState.step cfg.recv)
      (fun _ e => Unforged cfg.send (fun lane => (tx lane).history) e)
      (RxState.create { kind := cfg.kind, prior := cfg.prior }) run := by
    refine (along_iff reached).mpr fun before e after middle split _ => unforged e ?_
    rw [split]
    exact List.mem_append_right _ List.mem_cons_self
  have hslices := fun lane inside => (SendLane.reachable_kept (sent lane inside)).sound.walk.slices
  exact (replay_preserves_along (fun _ _ _ authentic meets moved =>
    RxState.Authentic.step hslices authentic meets moved) reached halong
    ⟨RxState.create_inv cfg.recv _, fun _ => ⟨nofun, nofun, nofun⟩, nofun⟩).right

/-! ## A forged block in front of the sender's -/

def keyedByte : SessionConfig where
  send := { lanes := 1, keyed := some ⟨tagBackend, id⟩, salt := List.replicate 16 1, data := [9] }

/-- A control datagram of the other end. -/
def signed (dg : List UInt8) : List UInt8 := dg ++ put 8 1 ++ List.replicate kAeadTagLen 1

/-- The only block of the lane, with a byte and a tag of one's own. -/
def byteBlock (b tag : UInt8) : List UInt8 :=
  dataPrefix { payloadLen := 17, flags := kFlagLastBlock } 1 ++ b :: List.replicate kAeadTagLen tag

def byteSent : List TxEvent :=
  [.receive (signed (ackBytes {})) (fun _ => true) 0,
    .receive (signed (resumeRangesBytes { ranges := [⟨0, 1⟩] })) (fun _ => true) 0,
    .sendBlock 1 true 1 1 2000]

/-- The lane is opened; the forged block is handed out and refused, the sender's is written. -/
def forgedRun : List RxEvent :=
  [.datagram 0 {} (signed (streamStartBytes
      (SendLane.streamStart keyedByte.send 0 (SendLane.create keyedByte.send 0)))),
    .datagram 0 {} (byteBlock 7 0), .consumer 0 0 1 fun _ => none, .results 0 0 1 1,
    .datagram 0 {} (byteBlock 9 1), .consumer 0 0 1 fun _ => none]

theorem forged_datagrams_refused_forgedRun :
    ∃ st, replay (RxState.step keyedByte.recv) (RxState.create { kind := .memory }) forgedRun =
        some st ∧ st.shared.sink.bytes 0 = some 9 ∧
      ∀ p b, st.shared.sink.bytes p = some b → [9][p]? = some b := by
  obtain ⟨T, hT, hhistory⟩ : ∃ T, replay (SendLane.step keyedByte.send 0)
      (SendLane.create keyedByte.send 0) byteSent = some T ∧
        T.history = [⟨[9], 0, kFlagLastBlock⟩] := by decide +kernel
  obtain ⟨st, hst, hbyte⟩ : ∃ st, replay (RxState.step keyedByte.recv)
      (RxState.create { kind := .memory }) forgedRun = some st ∧
        st.shared.sink.bytes 0 = some 9 := by decide +kernel
  refine ⟨st, hst, hbyte, @forged_datagrams_refused keyedByte (fun _ => T) ?_ _ _ hst ?_⟩
  · intro lane inside
    obtain rfl := Nat.lt_one_iff.mp inside
    exact ⟨_, hT⟩
  · rw [show (fun _ : Nat => T.history) = fun _ => [⟨[9], 0, kFlagLastBlock⟩] from
      funext fun _ => hhistory]
    decide +kernel

end FuseTransport.Transfer
