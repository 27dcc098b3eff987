import FuseTransport.Transfer.Incoming
import FuseTransport.Transfer.Outgoing

/-!
# The bytes that arrive are the bytes that were sent

The sender forgets only blocks the receiver has accepted, the receiver accepts only
blocks it has written, and the end of stream stands behind everything else.  So the
success of either end means that the bytes are in the output.
-/

namespace FuseTransport.Transfer

open Foundation Foundation.Runs Proto

/-- What holds between the two ends of a lane and of everything on its wires. -/
structure Link (cfg : SessionConfig) (lane : Nat) (sh : Shared) (R : RecvLane) (T : SendLane)
    (forward backward : List Sent) : Prop where
  sender : T.Sound cfg.send lane R.rx.Accepted
  receiver : R.Sound cfg lane T.history sh
  told : T.Told cfg.send lane R
  forward : ∀ s ∈ forward, Forward cfg.send lane T.history s.bytes
  digest : ∀ s, T.digest = some s → Forward cfg.send lane T.history s.bytes
  backward : ∀ s ∈ backward, Backward lane R T.nextSeq s.bytes
  answer : ∀ s ∈ R.resumeAnswer, Backward lane R T.nextSeq s.bytes

variable {lane : Nat}

theorem create_link (cfg : SessionConfig) (lane_fits : lane < 2 ^ 16) (sh : Shared) :
    Link cfg lane sh (RecvLane.create lane) (SendLane.create cfg.send lane) [] [] where
  sender := SendLane.create_sound cfg.send lane _
  receiver := RecvLane.create_sound cfg lane_fits sh
  told := ⟨Or.inl ⟨rfl, rfl⟩, fun begun => absurd rfl begun⟩
  forward := nofun
  digest := nofun
  backward := nofun
  answer := nofun

variable {i : Nat}

namespace Link

variable {cfg : SessionConfig} {lane : Nat} {sh sh' : Shared} {R R' : RecvLane} {T T' : SendLane}
  {forward backward sent : List Sent}

section

variable (link : Link cfg lane sh R T forward backward)
include link

theorem onward (onward : RecvLane.Onward sh sh') : Link cfg lane sh' R T forward backward :=
  { link with receiver := link.receiver.onward onward }

theorem word : T.history.length ≤ 2 ^ 64 := by
  rw [link.sender.counted]
  exact Nat.le_of_lt link.sender.window.bounded

theorem received (lane_fits : lane < 2 ^ 16) (accounts : R.Inv cfg.recv lane sh)
    (output : Faithful cfg sh) {e : RxEvent} (moved : RecvLane.Moved cfg.recv lane sh R e sh' R')
    (arrived : ∀ inp dg, e = .datagram lane inp dg → ∃ s ∈ forward, s.bytes = dg)
    (replied : RecvLane.Replied cfg.recv lane R sh' R' sent) :
    Link cfg lane sh' R' T forward (backward ++ sent) ∧ Faithful cfg sh' ∧
      RecvLane.Onward sh sh' ∧ RecvLane.Kept R R' := by
  obtain ⟨hreceiver, houtput, honward, hkept⟩ := moved.sound link.receiver accounts output
    link.sender.walk.slices lane_fits link.word (fun inp dg datagram => by
      obtain ⟨s, member, rfl⟩ := arrived inp dg datagram
      exact link.forward s member)
  have hmono : ∀ dg, Backward lane R T.nextSeq dg → Backward lane R' T.nextSeq dg :=
    fun dg old => old.mono (Nat.le_refl _) hkept.accepted hkept.asked
  have hreports := link.receiver.reports
  rw [link.sender.counted] at hreports
  obtain ⟨hsent, hanswer⟩ := replied.backward lane_fits hreports
    (Nat.le_of_lt link.sender.window.bounded) link.receiver.nonce link.answer hreceiver.nonce
    hreceiver.asks hmono
  refine ⟨⟨link.sender.mono hkept.accepted, hreceiver, link.told.kept hkept.asked, link.forward,
    link.digest, fun s member => ?_, hanswer⟩, houtput, honward, hkept⟩
  rcases List.mem_append.mp member with hold | hnew
  · exact hmono _ (link.backward s hold)
  · exact hsent s hnew

/-- A lane that only speaks. -/
theorem replied (lane_fits : lane < 2 ^ 16) (replied : RecvLane.Replied cfg.recv lane R sh R sent) :
    Link cfg lane sh R T forward (backward ++ sent) := by
  have hreports := link.receiver.reports
  rw [link.sender.counted] at hreports
  obtain ⟨hsent, _⟩ := replied.backward lane_fits hreports
    (Nat.le_of_lt link.sender.window.bounded) link.receiver.nonce link.answer link.receiver.nonce
    link.receiver.asks fun _ => id
  refine { link with backward := fun s member => ?_ }
  rcases List.mem_append.mp member with hold | hnew
  · exact link.backward s hold
  · exact hsent s hnew

theorem sends (lane_fits : lane < 2 ^ 16) {e : TxEvent}
    (moved : SendLane.Moved cfg.send lane T e T' sent)
    (arrived : ∀ dg works wireNs, e = .receive dg works wireNs → ∃ s ∈ backward, s.bytes = dg) :
    Link cfg lane sh R T' (forward ++ sent) backward := by
  have hheard : ∀ dg works wireNs, e = .receive dg works wireNs → Backward lane R T.nextSeq dg := by
    intro dg works wireNs received
    obtain ⟨s, member, rfl⟩ := arrived dg works wireNs received
    exact link.backward s member
  have hsender := moved.sound link.sender fun dg works wireNs received =>
    (hheard dg works wireNs received).acks
  obtain ⟨hsent, hdigest⟩ := moved.forward link.sender lane_fits link.digest
    fun dg works wireNs received => (hheard dg works wireNs received).nacks
  have hgrows := moved.grows
  have hnext : T.nextSeq ≤ T'.nextSeq := by
    rw [← link.sender.counted, ← hsender.counted]
    exact hgrows.length_le
  have hmono : ∀ dg, Backward lane R T.nextSeq dg → Backward lane R T'.nextSeq dg :=
    fun dg old => old.mono hnext (fun _ => id) fun started => ⟨started, rfl⟩
  refine ⟨hsender, link.receiver.mono hgrows,
    moved.told link.sender link.told link.receiver.asks hheard, fun s member => ?_, hdigest,
    fun s member => hmono _ (link.backward s member),
    fun s member => hmono _ (link.answer s member)⟩
  rcases List.mem_append.mp member with hold | hnew
  · exact (link.forward s hold).mono hgrows
  · exact hsent s hnew

end

theorem rangesToSend_flatten (shardBytes : Nat) (lists : List (List ResumeRange)) :
    rangesToSend shardBytes lists = rangesToSend shardBytes [lists.flatten] := by
  unfold rangesToSend
  rw [List.flatten_singleton]

section

variable (link : Link cfg lane sh R T forward backward)
include link

/-- When everything that was sent has been accepted, the last block included, the lane's
bytes are in the output. -/
theorem held (lane_fits : lane < 2 ^ 16) (accounts : R.Inv cfg.recv lane sh)
    (fresh : sh.sink.resumed = false) (some : T.history ≠ []) (ended : T.ranges.length ≤ T.ri)
    (accepted : ∀ s < T.history.length, R.rx.Accepted s) (inside : i < cfg.send.shardBytes lane) :
    sh.sink.Holds (cfg.send.laneBase lane + i) := by
  have hbegun : T.phase ≠ .handshake := fun waiting => some (link.sender.idle waiting).1
  obtain ⟨hstarted, hranges⟩ := link.told.begun hbegun
  rw [rangesToSend_flatten, flatten_answerLists, link.receiver.fresh hstarted fresh,
    (link.receiver.place hstarted).2, rangesToSend_wholeLane] at hranges
  have hnamed : Names T.ranges i := by
    rw [hranges, wholeLane, if_pos (Nat.lt_of_le_of_lt (Nat.zero_le i) inside)]
    exact ⟨_, List.mem_singleton_self _, Nat.zero_le _, by rw [Nat.zero_add]; exact inside⟩
  obtain ⟨block, member, habove, hbelow⟩ := link.sender.walk.complete ended hnamed
  obtain ⟨s, hs, hblock⟩ := List.getElem_of_mem member
  obtain ⟨other, hfound, hheld⟩ := link.receiver.accepted accounts link.sender.walk.slices lane_fits
    link.word (accepted s hs)
  rw [List.getElem?_eq_getElem hs, hblock] at hfound
  rw [← Option.some.inj hfound] at hheld
  have hbyte := hheld (i - block.offset) (by omega)
  rwa [Nat.add_assoc, Nat.add_sub_cancel' habove] at hbyte

theorem held_of_received (lane_fits : lane < 2 ^ 16) (accounts : R.Inv cfg.recv lane sh)
    (fresh : sh.sink.resumed = false) (ok : R.status = some .ok)
    (inside : i < cfg.send.shardBytes lane) :
    sh.sink.Holds (cfg.send.laneBase lane + i) := by
  obtain ⟨_, hset, hbehind⟩ := link.receiver.left ok
  obtain ⟨block, hfound, hlast⟩ := link.receiver.final hset
  obtain ⟨hend, hover⟩ := link.sender.walk.last _ block hfound hlast
  refine link.held lane_fits accounts fresh ?_ hover (fun s below => Or.inl (by omega)) inside
  exact List.ne_nil_of_mem (List.mem_of_getElem? hfound)

theorem held_of_sent (lane_fits : lane < 2 ^ 16) (accounts : R.Inv cfg.recv lane sh)
    (fresh : sh.sink.resumed = false) (ok : T.status = some .ok)
    (inside : i < cfg.send.shardBytes lane) :
    sh.sink.Holds (cfg.send.laneBase lane + i) := by
  obtain ⟨hlast, hdrained⟩ := link.sender.done (Or.inr ok)
  obtain ⟨hover, hsome⟩ := link.sender.walk.sentLast hlast
  refine link.held lane_fits accounts fresh hsome hover (fun s below => ?_) inside
  rw [link.sender.counted] at below
  exact link.sender.window.below s (by omega)

end

end Link

/-! ## The session -/

namespace Session

structure Inv (cfg : SessionConfig) (st : Session) : Prop where
  accounts : st.rx.Inv cfg.recv
  output : Faithful cfg st.rx.shared
  outcome : st.rx.outcome = some .ok →
    ∀ lane < cfg.send.lanes, (st.rx.lanes lane).status = some .ok
  links : ∀ lane < cfg.send.lanes,
    Link cfg lane st.rx.shared (st.rx.lanes lane) (st.tx lane) (st.forward lane) (st.backward lane)

theorem lane_fits (cfg : SessionConfig) (inside : lane < cfg.send.lanes) :
    lane < 2 ^ 16 := Nat.lt_trans inside cfg.send.lanes_fit

theorem create_inv (cfg : SessionConfig) : (create cfg).Inv cfg where
  accounts := RxState.create_inv cfg.recv _
  output := create_faithful cfg cfg.kind cfg.prior
  outcome := nofun
  links := fun _ inside => create_link cfg (lane_fits cfg inside) _

section Steps

variable {cfg : SessionConfig} {st : Session}

/-- A wire to which only one lane adds. -/
theorem update_wire {wire : Nat → List Sent} {other : Nat} (differs : other ≠ lane)
    (more : List Sent) : Function.update wire lane (wire lane ++ more) other = wire other :=
  Function.update_of_ne differs _ _

theorem Inv.received (inv : st.Inv cfg) {e : RxEvent} {rx : RxState} {sent : List Sent}
    (arrived : ∀ lane inp dg, e = .datagram lane inp dg → ∃ s ∈ st.forward lane, s.bytes = dg)
    (stepped : RxState.Stepped cfg.recv st.rx e rx)
    (replied : RecvLane.Replied cfg.recv e.lane (st.rx.lanes e.lane) rx.shared (rx.lanes e.lane)
      sent)
    (accounts : rx.Inv cfg.recv) : (st.received e.lane (rx, sent)).Inv cfg := by
  cases stepped with
  | lane lane sh L own inside moved =>
    subst own
    have hsame : ({ st.rx.setLane e.lane L with shared := sh } : RxState).lanes e.lane = L :=
      RxState.setLane_self _ _ _
    rw [hsame] at replied
    obtain ⟨hlink, houtput, honward, _⟩ := (inv.links e.lane inside).received (lane_fits cfg inside)
      (inv.accounts e.lane) inv.output moved (fun inp dg => arrived e.lane inp dg) replied
    refine ⟨accounts, houtput, fun ok other within => ?_, fun other within => ?_⟩
    · by_cases hother : other = e.lane
      · rw [hother]
        change (({ st.rx.setLane e.lane L with shared := sh } : RxState).lanes e.lane).status = _
        rw [hsame]
        exact moved.status_ok (inv.outcome ok e.lane inside)
      · change ((st.rx.setLane e.lane L).lanes other).status = _
        rw [RxState.setLane_of_ne _ hother]
        exact inv.outcome ok other within
    · change Link cfg other sh (({ st.rx.setLane e.lane L with shared := sh } : RxState).lanes other)
        (st.tx other) (st.forward other) (Function.update st.backward e.lane _ other)
      by_cases hother : other = e.lane
      · rw [hother, hsame, Function.update_self]
        exact hlink
      · rw [RxState.setLane_of_ne _ hother, update_wire hother]
        exact (inv.links other within).onward honward
  | finish verifies commits =>
    refine ⟨accounts, inv.output, fun ok lane within => ?_, fun other within => ?_⟩
    · exact RxState.lanes_ok (Option.some.inj ok) within
    · change Link cfg other st.rx.shared (st.rx.lanes other) (st.tx other) (st.forward other)
        (Function.update st.backward e.lane _ other)
      by_cases hother : other = e.lane
      · rw [hother, Function.update_self]
        exact (inv.links e.lane (hother ▸ within)).replied (lane_fits cfg (hother ▸ within)) replied
      · rw [update_wire hother]
        exact inv.links other within

theorem Inv.sent (inv : st.Inv cfg) (inside : lane < cfg.send.lanes) {e : TxEvent} {T : SendLane}
    {sent : List Sent} (moved : SendLane.Moved cfg.send lane (st.tx lane) e T sent)
    (arrived : ∀ dg works wireNs, e = .receive dg works wireNs →
      ∃ s ∈ st.backward lane, s.bytes = dg) : (st.sent lane (T, sent)).Inv cfg := by
  refine ⟨inv.accounts, inv.output, inv.outcome, fun other within => ?_⟩
  change Link cfg other st.rx.shared (st.rx.lanes other) (Function.update st.tx lane T other)
    (Function.update st.forward lane _ other) (st.backward other)
  by_cases hother : other = lane
  · rw [hother, Function.update_self, Function.update_self]
    exact (inv.links lane inside).sends (lane_fits cfg inside) moved arrived
  · rw [Function.update_of_ne hother, update_wire hother]
    exact inv.links other within

theorem Inv.step (inv : st.Inv cfg) {e : SessionEvent} {st' : Session}
    (moved : st.step cfg e = some st') : st'.Inv cfg := by
  cases step_stepped moved with
  | receiver e rx sent arrived stepped replied =>
    have haccounts : rx.Inv cfg.recv := inv.accounts.stepped stepped
    exact inv.received arrived stepped replied haccounts
  | sender lane e T sent inside arrived change => exact inv.sent inside change arrived

theorem reachable_inv {run : List SessionEvent}
    (reached : replay (step cfg) (create cfg) run = some st) : st.Inv cfg :=
  replay_preserves (fun _ _ _ inv moved => Inv.step inv moved) reached (create_inv cfg)

end Steps

end Session

/-- In every run of a session, whatever sizes the blocks have and however the threads of
both ends and the network interleave: on a transfer that takes nothing over, a call of
the receiver that succeeds leaves exactly the sender's bytes, and a lane of the sender
that succeeds has all of its bytes in the output. -/
theorem transfer_integrity {cfg : SessionConfig} {run : List SessionEvent} {st : Session}
    (reached : replay (Session.step cfg) (Session.create cfg) run = some st)
    (fresh : st.rx.shared.sink.resumed = false) :
    (st.rx.outcome = some .ok → st.rx.shared.sink.total = cfg.send.data.length ∧
      ∀ p, st.rx.shared.sink.bytes p = cfg.send.data[p]?) ∧
    ∀ lane < cfg.send.lanes, (st.tx lane).status = some .ok →
      ∀ i < cfg.send.shardBytes lane,
        st.rx.shared.sink.bytes (cfg.send.laneBase lane + i) = (cfg.send.shard lane)[i]? ∧
        (cfg.send.shard lane)[i]?.isSome = true := by
  have inv := Session.reachable_inv reached
  have hright : ∀ p, st.rx.shared.sink.Holds p → st.rx.shared.sink.bytes p = cfg.send.data[p]? := by
    intro p held
    obtain ⟨b, hb⟩ := Option.ne_none_iff_exists'.mp held
    rw [hb, inv.output.right p b hb]
  refine ⟨fun ok => ?_, fun lane inside ok i within => ?_⟩
  · have hlanes := inv.outcome ok
    have hready : st.rx.shared.sinkState = .ready := by
      have hfirst := inv.links 0 cfg.send.lanes_pos
      exact hfirst.receiver.ready (hfirst.receiver.left (hlanes 0 cfg.send.lanes_pos)).1
    refine ⟨(inv.output.sized hready).1.symm.trans (inv.output.length hready), fun p => ?_⟩
    rcases Nat.lt_or_ge p cfg.send.data.length with hinside | hbehind
    · obtain ⟨lane, hlane, habove, hbelow⟩ := shards_cover cfg.send.lanes_pos hinside
      change cfg.send.laneBase lane ≤ p at habove
      have hheld := (inv.links lane hlane).held_of_received (Session.lane_fits cfg hlane)
        (inv.accounts lane) fresh (hlanes lane hlane) (i := p - cfg.send.laneBase lane)
        (Nat.sub_lt_left_of_lt_add habove hbelow)
      rw [Nat.add_sub_cancel' habove] at hheld
      exact hright p hheld
    · rw [List.getElem?_eq_none_iff.mpr hbehind]
      cases hbyte : st.rx.shared.sink.bytes p with
      | none => rfl
      | some b =>
        have hdata := (List.getElem?_eq_some_iff.mp (inv.output.right p b hbyte)).1
        exact absurd hdata (Nat.not_lt.mpr hbehind)
  · have hheld := (inv.links lane inside).held_of_sent (Session.lane_fits cfg inside)
      (inv.accounts lane) fresh ok within
    have hshard : (cfg.send.shard lane)[i]? = cfg.send.data[cfg.send.laneBase lane + i]? := by
      rw [SendConfig.shard, List.getElem?_take_of_lt within, List.getElem?_drop]
    rw [hshard]
    refine ⟨hright _ hheld, ?_⟩
    rw [← hright _ hheld]
    exact Option.isSome_iff_ne_none.mpr hheld

def twoLanes : SessionConfig where
  send :=
    { lanes := 2, lanes_pos := Nat.two_pos, lanes_fit := two_lt_short, data := [8, 9]
      nonces := fun _ => 7 }

/-- A lane opens, learns that its byte is needed, sends it and leaves; the receiver writes
it, acknowledges it and ends the lane. -/
def laneRun (lane : Nat) (byte : UInt8) : List SessionEvent :=
  let opening := streamStartBytes
    { streamId := lane, blockSize := 1200, totalBytes := 1, streamBaseOffset := lane
      fileTotalBytes := 2, nonce := 7 }
  let received (acked : Nat) : SessionEvent :=
    .sender lane (.receive (ackBytes { streamId := lane, baseSeqNo := acked, echoedSendTime := acked
                                       nonce := 7, rwnd := 16 - acked }) (fun _ => true) 0)
  [.sender lane (.sendStart true), .receiver (.datagram lane {} opening),
    .receiver (.ack lane true), received 0,
    .sender lane (.receive (resumeRangesBytes { streamId := lane, nonce := 7, ranges := [⟨0, 1⟩] })
      (fun _ => true) 0),
    .sender lane (.sendBlock 1 true 1 1 2000),
    .receiver (.datagram lane {}
      (dataPrefix { streamId := lane, payloadLen := 1, flags := kFlagLastBlock } 1 ++ [byte])),
    .receiver (.consumer lane 0 1 fun _ => none), .receiver (.results lane 0 1 1),
    .receiver (.ack lane true), received 1, .sender lane (.leave true),
    .receiver (.complete lane fun _ => true)]

/-- The two lanes in turn, and the end of the transfer. -/
def twoLanesRun : List SessionEvent :=
  (List.zipWith (fun first second => [first, second]) (laneRun 0 8) (laneRun 1 9)).flatten ++
    [.receiver (.finish true true)]

theorem transfer_integrity_twoLanes :
    ∃ st, replay (Session.step twoLanes) (Session.create twoLanes) twoLanesRun = some st ∧
      st.rx.outcome = some .ok ∧ st.rx.shared.sink.bytes 0 = some 8 ∧
      st.rx.shared.sink.bytes 1 = some 9 ∧ st.rx.shared.sink.bytes 2 = none := by
  obtain ⟨st, hreplay, hok, hfresh⟩ : ∃ st,
      replay (Session.step twoLanes) (Session.create twoLanes) twoLanesRun = some st ∧
        st.rx.outcome = some .ok ∧ st.rx.shared.sink.resumed = false := by decide +kernel
  obtain ⟨_, hbytes⟩ := (transfer_integrity hreplay hfresh).1 hok
  exact ⟨st, hreplay, hok, hbytes 0, hbytes 1, hbytes 2⟩

end FuseTransport.Transfer
