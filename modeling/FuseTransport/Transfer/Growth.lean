import FuseTransport.Transfer.LoopRuns

/-!
# The block size over whole runs

The size stays between the configured one and what the route holds, no data datagram is
larger than the route's MTU unless the configured size already needs more, and a size that
failed is not tried again before a clean stretch that doubles with each failure.
-/

namespace FuseTransport.Transfer

open Foundation.Runs Proto

namespace SizeHistory

variable {cfg : SendConfig} {route : Route} {h last : SizeHistory}

def step (cfg : SendConfig) (route : Route) (h : SizeHistory) (t : Turn) : Option SizeHistory :=
  some (h.turn cfg route t)

theorem reachable_inv (sized : 0 < cfg.blockSize.toNat)
    (reached : Reachable (SizeHistory.step cfg route) (create cfg route) h) : h.Inv cfg route := by
  refine reached.invariant (fun h t next inv stepped => ?_) create_inv
  rw [← Option.some.inj stepped]
  exact Inv.turn inv sized t

/-- Behind a failed growth step the block stays at the size before it until a turn is due. -/
theorem Inv.backs_off (inv : h.Inv cfg route) (sized : 0 < cfg.blockSize.toNat) {t : Turn}
    {size : Nat} (fails : h.FailsFrom cfg route t size) {turns : List Turn}
    (replayed : replay (SizeHistory.step cfg route) (h.turn cfg route t) turns = some last)
    (early : Along (SizeHistory.step cfg route) (fun h t => ¬ h.Due t) (h.turn cfg route t) turns) :
    last.sizing.block ≤ size := by
  have hstep : ∀ (h : SizeHistory) (t : Turn) (next : SizeHistory),
      h.Inv cfg route ∧ h.sizing.growthCeiling ≤ size → ¬ h.Due t →
      h.step cfg route t = some next →
      next.Inv cfg route ∧ next.sizing.growthCeiling ≤ size := by
    rintro h t next ⟨inv, below⟩ early stepped
    rw [← Option.some.inj stepped]
    exact ⟨inv.turn sized t, Nat.le_trans (inv.ceiling_turn early) below⟩
  obtain ⟨hinv, hbelow⟩ := replay_preserves_along hstep replayed early
    ⟨inv.turn sized t, inv.ceiling_of_failsFrom fails⟩
  exact Nat.le_trans hinv.within.block hbelow

end SizeHistory

variable {s : Sent} {sent : List Sent}

namespace SendLane

variable {cfg : SendConfig} {lane : Nat} {L L' : SendLane}

/-- What a lane signs is not a block. -/
theorem Says.not_data {body : List UInt8} (said : L.Says cfg lane body) (rest : List UInt8) :
    peekMsgType (body ++ rest) ≠ some .data := by
  cases said with
  | aside _ aside => exact aside.peek_ne rest (by simp)
  | start =>
    rw [peekMsgType_of_checkOuter (checkOuter_streamStart (L.streamStart cfg lane) rest)]
    exact nofun

theorem Spoke.signed_not_data {signed : List Sent} {bodies : List (List UInt8)}
    (spoke : Spoke cfg lane L L' sent bodies signed) (member : s ∈ signed) :
    peekMsgType s.bytes ≠ some .data := by
  obtain ⟨body, hbody, rest, hbytes⟩ := spoke.emits.bytes member
  rw [hbytes]
  exact (spoke.said body hbody).not_data rest

/-- The digest that a lane keeps is not a block. -/
def DigestOnly (L : SendLane) : Prop := ∀ s, L.digest = some s → peekMsgType s.bytes ≠ some .data

theorem Moved.digestOnly {e : TxEvent} (moved : Moved cfg lane L e L' sent) (only : L.DigestOnly) :
    L'.DigestOnly := by
  cases moved with
  | spoke _ _ _ _ _ spoke =>
    intro s kept
    rcases spoke.digest s kept with hsigned | hbefore
    · exact spoke.signed_not_data hsigned
    · exact only s hbefore
  | heard dg works wireNs told waiting running heard =>
    intro s kept
    rw [(begin_frame cfg lane told).2.1, heard.frame.2.1] at kept
    exact only s kept
  | acked | nacked | timedOut => exact only
  | block block works nowNs wireNs cap =>
    intro s kept
    rw [(sendNext_frame L cfg lane block works nowNs wireNs cap).1] at kept
    exact only s kept

theorem reachable_digestOnly (reached : Reachable (SendLane.step cfg lane) (create cfg lane) L) :
    L.DigestOnly := by
  refine reached.invariant (fun L e L' only stepped => ?_) nofun
  obtain ⟨⟨L', sent⟩, hacted, rfl⟩ := Option.map_eq_some_iff.mp stepped
  exact (act_moved hacted).digestOnly only

def SlotsWithin (limit : Nat) (L : SendLane) : Prop :=
  ∀ seqNo slot, L.reg.lookup seqNo = some slot → slot.payload.length ≤ limit

/-- A block that is sent again is no larger than it was. -/
theorem SlotsWithin.resend {limit : Nat} (slots : L.SlotsWithin limit) {works : Bool}
    {wireNs seqNo : Nat} (member : s ∈ L.resend cfg lane works wireNs seqNo) :
    s.bytes.length ≤ kDataPrefixSize + limit + cfg.tagBytes := by
  unfold SendLane.resend at member
  split at member
  · rename_i slot found
    obtain ⟨dg, hdg, rfl⟩ := Option.map_eq_some_iff.mp (Option.mem_toList.mp member)
    have hlength := cfg.length_blockDatagram hdg
    have hslot := slots seqNo slot found
    dsimp only at hlength ⊢
    omega
  · cases member

/-- A step that sends no new block puts no data on the wire but what the registry holds. -/
theorem Moved.datagram_le {e : TxEvent} (moved : Moved cfg lane L e L' sent)
    (old : SendLoop.isNewBlock e = false) (only : L.DigestOnly) {limit : Nat}
    (slots : L.SlotsWithin limit) (member : s ∈ sent) (data : peekMsgType s.bytes = some .data) :
    s.bytes.length ≤ kDataPrefixSize + limit + cfg.tagBytes := by
  cases moved with
  | spoke _ _ _ _ _ spoke =>
    rcases spoke.among s member with hsigned | hdigest
    · exact absurd data (spoke.signed_not_data hsigned)
    · exact absurd data (only s hdigest)
  | heard | acked => cases member
  | nacked dg works wireNs nack decoded =>
    obtain ⟨named, _, hs⟩ := List.mem_flatMap.mp member
    exact slots.resend hs
  | timedOut seqNo works wireNs sent => exact slots.resend member
  | block => cases old

end SendLane

namespace Packing

variable {cfg : SendConfig} {lane block room limit : Nat} {emptyLast : Bool}
  {attempts : Nat → Attempt} {p q : Packing} {a : Attempt}

theorem Puts.reg (puts : Puts cfg lane block p a q) :
    q.lane.reg = (p.kept cfg lane block a).reg := by
  cases puts with
  | staged => exact (SendLane.count_frame _ _ _).1
  | stored => rfl

theorem Loads.slotsWithin (loads : Loads cfg lane emptyLast room p)
    (more : p.lane.ri < p.lane.ranges.length ∨ emptyLast = true) (fits : block ≤ cfg.blockCeiling)
    (small : block ≤ limit) (puts : Puts cfg lane block p a q) (slots : p.lane.SlotsWithin limit) :
    q.lane.SlotsWithin limit := by
  obtain ⟨stored, hstore, hkeep⟩ :=
    (SendLane.reachable_kept loads.reached).sound.keep (loads.pending more) fits a.nowNs
  have hreg : q.lane.reg = stored := by
    rw [puts.reg, Packing.kept, Packing.next, hkeep]
  have hlength := loads.length_next more block
  have hlen := blockLength_le_block p.lane block
  intro seqNo slot found
  rw [hreg, SenderRegistry.lookup_store hstore] at found
  split at found
  · cases found
    change (p.next cfg lane block).payload.length ≤ limit
    omega
  · split at found
    · cases found
    · exact slots seqNo slot found

theorem Loads.slotsWithin_pack (loads : Loads cfg lane emptyLast room p) (positive : 0 < block)
    (fits : block ≤ cfg.blockCeiling) (small : block ≤ limit) (slots : p.lane.SlotsWithin limit) :
    (Packing.pack cfg lane block emptyLast attempts room p).lane.SlotsWithin limit := by
  refine pack_rule (fun room p => Loads cfg lane emptyLast room p ∧ p.lane.SlotsWithin limit)
    (fun p => p.lane.SlotsWithin limit) (fun _ _ enters => enters.2) ?_ ⟨loads, slots⟩
  rintro room p ⟨loads, slots⟩ more _ a q puts
  have hslots := loads.slotsWithin more fits small puts slots
  exact ⟨hslots, fun goes => ⟨loads.goesOn more positive fits puts goes, hslots⟩⟩

theorem Packed.datagram_le (packed : Packed cfg block p) (member : s ∈ p.datagrams) :
    s.bytes.length ≤ segment cfg block := by
  rcases packed.uniform with huniform | ⟨sent, hsingle, hsmall⟩
  · exact Nat.le_of_eq (huniform s member)
  · rw [hsingle, List.mem_singleton] at member
    rw [member]
    exact hsmall

end Packing

/-! ## The loop -/

namespace SendLoop

variable {cfg : LoopConfig} {lane : Nat} {st st' : SendLoop} {sent : List Sent}

theorem Held.block_le_mtuCeiling (held : st.Held cfg lane) :
    st.sizing.block ≤ cfg.send.mtuCeiling cfg.route :=
  Nat.le_trans held.within.block held.within.ceiling

theorem Looped.slotsWithin {e : LoopEvent} (looped : Looped cfg lane st e st' sent)
    (held : st.Held cfg lane) (slots : st.lane.SlotsWithin (cfg.send.mtuCeiling cfg.route)) :
    st'.lane.SlotsWithin (cfg.send.mtuCeiling cfg.route) := by
  cases looped with
  | acked dg works wireNs ack sent fits acted =>
    have hwindow := held.kept.sound.window
    have hfrees := applyAck_frees st.lane.reg ack (some st.lane.receivedEnd) hwindow.ordered
      (Nat.le_trans hwindow.window (Nat.add_le_add_left st.lane.reg.window_le _)) hwindow.bounded
    exact fun seqNo slot found => slots seqNo slot (hfrees.lookup_some found)
  | other e L est loss sent _ same acted learned =>
    intro seqNo slot found
    rw [same.reg] at found
    exact slots seqNo slot found
  | controller => exact slots
  | batch attempts sends =>
    exact (held.fills sends).loads.slotsWithin_pack held.block_pos held.block_le
      held.block_le_mtuCeiling slots
  | turn => exact slots

theorem reachable_slotsWithin (reached : Reachable (SendLoop.step cfg lane) (create cfg lane) st) :
    st.lane.SlotsWithin (cfg.send.mtuCeiling cfg.route) := by
  refine reachable_keeps (fun st => st.lane.SlotsWithin (cfg.send.mtuCeiling cfg.route)) ?_
    (fun _ _ _ _ looped held slots => looped.slotsWithin held slots) reached
  intro seqNo slot found
  cases (SenderRegistry.lookup_create lane kWindow seqNo).symm.trans found

/-- No data datagram is larger than the ceiling allows. -/
theorem Looped.datagram_le {e : LoopEvent} (looped : Looped cfg lane st e st' sent)
    (held : st.Held cfg lane) (slots : st.lane.SlotsWithin (cfg.send.mtuCeiling cfg.route))
    (member : s ∈ sent) (data : peekMsgType s.bytes = some .data) :
    s.bytes.length ≤ kDataPrefixSize + cfg.send.mtuCeiling cfg.route + cfg.send.tagBytes := by
  have honly := SendLane.reachable_digestOnly held.reached
  cases looped with
  | acked dg works wireNs ack sent fits acted =>
    exact (SendLane.act_moved acted).datagram_le rfl honly slots member data
  | other e L est loss sent old same acted learned =>
    exact (SendLane.act_moved acted).datagram_le old honly slots member data
  | controller => cases member
  | batch attempts sends =>
    have hsmall := (held.packed sends attempts).datagram_le member
    have hblock := held.block_le_mtuCeiling
    unfold Packing.segment at hsmall
    omega
  | turn => cases member

/-- The flags that the loop reads at the end of a turn. -/
def flags (st : SendLoop) : Turn := ⟨st.lane.base != st.lastBase, st.lossSeen⟩

def turnAt (st : SendLoop) : LoopEvent → List Turn
  | .turn => [st.flags]
  | .lane _ | .controller _ | .batch _ => []

/-- The turns of a run of the loop, each with its flags. -/
def turns (cfg : LoopConfig) (lane : Nat) : SendLoop → List LoopEvent → List Turn :=
  trace (SendLoop.step cfg lane) turnAt

/-- The block size of the loop is that of its turns. -/
theorem replay_sizing {run : List LoopEvent} {h : SizeHistory}
    (replayed : replay (SendLoop.step cfg lane) st run = some st') (same : st.sizing = h.sizing) :
    ∃ last, replay (SizeHistory.step cfg.send cfg.route) h (st.turns cfg lane run) = some last ∧
      st'.sizing = last.sizing := by
  induction run generalizing st h with
  | nil =>
    cases replayed
    exact ⟨h, rfl, same⟩
  | cons e rest ih =>
    obtain ⟨next, hstep, hrest⟩ := Option.bind_eq_some_iff.mp replayed
    obtain ⟨⟨_, sent⟩, hacted, rfl⟩ := Option.map_eq_some_iff.mp hstep
    rw [turns, trace_cons hstep]
    cases act_looped hacted with
    | acked | other | controller | batch => exact ih hrest same
    | turn =>
      have hturn : (st.onTurn cfg).sizing = (h.turn cfg.send cfg.route st.flags).sizing := by
        rw [SizeHistory.turn_sizing, ← same]
        rfl
      exact ih hrest hturn

/-- The block size stays between its limits, whatever mix of advances and losses comes, and
after a loss within eight advances of a growth step the size before that step is not
exceeded before a turn that is due.  The size of the loop is that of its own turns, so
this holds of the loop with the flags it reads.  No data datagram exceeds the route's
MTU unless the configured size already does. -/
theorem block_size_backs_off (cfg : LoopConfig) (lane : Nat) :
    (∀ h, Reachable (SizeHistory.step cfg.send cfg.route) (SizeHistory.create cfg.send cfg.route) h →
      cfg.send.baseBlock ≤ h.sizing.block ∧ h.sizing.block ≤ h.sizing.growthCeiling ∧
        h.sizing.growthCeiling ≤ cfg.send.mtuCeiling cfg.route ∧
        cfg.send.mtuCeiling cfg.route ≤ cfg.send.blockCeiling ∧
        h.reprobe ≤ h.sizing.reprobeAfter ∧
        ∀ t size, h.FailsFrom cfg.send cfg.route t size → ∀ turns last,
          replay (SizeHistory.step cfg.send cfg.route) (h.turn cfg.send cfg.route t) turns =
            some last →
          Along (SizeHistory.step cfg.send cfg.route) (fun h t => ¬ h.Due t)
            (h.turn cfg.send cfg.route t) turns →
          last.sizing.block ≤ size) ∧
    ∀ run st, replay (SendLoop.step cfg lane) (create cfg lane) run = some st →
      (∃ h, replay (SizeHistory.step cfg.send cfg.route) (SizeHistory.create cfg.send cfg.route)
          ((create cfg lane).turns cfg lane run) = some h ∧ st.sizing = h.sizing ∧
        ∀ size, h.FailsFrom cfg.send cfg.route st.flags size → ∀ rest last,
          replay (SendLoop.step cfg lane) st (.turn :: rest) = some last →
          Along (SizeHistory.step cfg.send cfg.route) (fun h t => ¬ h.Due t)
            (h.turn cfg.send cfg.route st.flags) ((st.onTurn cfg).turns cfg lane rest) →
          last.sizing.block ≤ size) ∧
      ∀ e st' sent, st.act cfg lane e = some (st', sent) → ∀ s ∈ sent,
        peekMsgType s.bytes = some .data →
        s.bytes.length + ipUdpOverhead cfg.route ≤
          max cfg.route.mtu.toNat (cfg.send.overhead cfg.route + cfg.send.baseBlock) := by
  refine ⟨fun h reached => ?_, fun run st replayed => ⟨?_, ?_⟩⟩
  · have hinv := SizeHistory.reachable_inv cfg.sized reached
    exact ⟨hinv.within.base, hinv.within.block, hinv.within.ceiling,
      cfg.send.mtuCeiling_le_blockCeiling cfg.route, hinv.reprobe,
      fun t size fails turns last replayed early => hinv.backs_off cfg.sized fails replayed early⟩
  · obtain ⟨h, hturns, hsame⟩ :=
      replay_sizing (h := SizeHistory.create cfg.send cfg.route) replayed rfl
    refine ⟨h, hturns, hsame, fun size fails rest last onward early => ?_⟩
    have hinv := SizeHistory.reachable_inv cfg.sized ⟨_, hturns⟩
    obtain ⟨final, hfinal, hsize⟩ := replay_sizing onward hsame
    obtain ⟨next, hstep, -⟩ := Option.bind_eq_some_iff.mp onward
    obtain ⟨⟨_, sent⟩, hacted, rfl⟩ := Option.map_eq_some_iff.mp hstep
    rw [turns, trace_cons hstep] at hfinal
    cases act_looped hacted with
    | turn =>
      rw [hsize]
      exact hinv.backs_off cfg.sized fails hfinal early
  · intro e st' sent acted s member data
    have hsmall := (act_looped acted).datagram_le (reachable_held ⟨_, replayed⟩)
      (reachable_slotsWithin ⟨_, replayed⟩) member data
    refine Nat.le_trans ?_ (cfg.send.datagram_le cfg.route (Nat.le_refl _))
    unfold SendConfig.overhead
    omega

/-- Twenty bytes in blocks of one on a route of 1500. -/
def ethernet : LoopConfig where
  send := { lanes := 1, data := List.replicate 20 3, blockSize := 1, nonces := fun _ => 7 }
  route := ⟨1500, false⟩

def advancing (base : Nat) : List LoopEvent :=
  [.lane (.receive (ackBytes { baseSeqNo := base, nonce := 7 }) (fun _ => true) 0), .turn]

/-- All blocks go out, the eighth acknowledgement doubles the block size, and the next block
is reported missing. -/
def failedGrowth : List LoopEvent :=
  opening [⟨0, 20⟩] ++ [.batch fun _ => {}] ++ (List.range 8).flatMap (fun k => advancing (k + 1)) ++
    [.lane (.receive (nackBytes { missing := [8] }) (fun _ => true) 0)]

def threeAdvances : List LoopEvent := (List.range 3).flatMap fun k => advancing (k + 9)

/-- The history of these turns: eight advances and the growth step. -/
def grownOnce : SizeHistory where
  sizing := { block := 2, growthCeiling := 1441, preGrowthBlock := 1 }
  advances := 8
  grown := some ⟨1, 0, false⟩

theorem block_size_backs_off_ethernet :
    ∃ st last, replay (SendLoop.step ethernet 0) (create ethernet 0) failedGrowth = some st ∧
      st.sizing.block = 2 ∧ st.flags = ⟨false, true⟩ ∧
      replay (SendLoop.step ethernet 0) st (.turn :: threeAdvances) = some last ∧
      last.sizing.reprobeAfter = 128 ∧ last.sizing.block ≤ 1 := by
  obtain ⟨st, hreplay, hblock, hflags, hturns, last, honward, hreprobe⟩ :
      ∃ st, replay (SendLoop.step ethernet 0) (create ethernet 0) failedGrowth = some st ∧
        st.sizing.block = 2 ∧ st.flags = ⟨false, true⟩ ∧
        (st.onTurn ethernet).turns ethernet 0 threeAdvances = List.replicate 3 ⟨true, false⟩ ∧
        ∃ last, replay (SendLoop.step ethernet 0) st (.turn :: threeAdvances) = some last ∧
          last.sizing.reprobeAfter = 128 := by decide +kernel
  have hhistory : replay (SizeHistory.step ethernet.send ethernet.route)
      (SizeHistory.create ethernet.send ethernet.route)
      ((create ethernet 0).turns ethernet 0 failedGrowth) = some grownOnce := by decide +kernel
  obtain ⟨⟨h, hturned, _, hbacks⟩, _⟩ := (block_size_backs_off ethernet 0).2 _ st hreplay
  cases hhistory.symm.trans hturned
  rw [hflags] at hbacks
  refine ⟨st, last, hreplay, hblock, hflags, honward, hreprobe,
    hbacks 1 ⟨rfl, ⟨1, 0, false⟩, rfl, rfl, by decide⟩ _ last honward ?_⟩
  rw [hturns]
  decide +kernel

end SendLoop

end FuseTransport.Transfer
