import FuseTransport.Proto.Reencode
import FuseTransport.Transfer.Nonces
import FuseTransport.Transfer.Peers

/-!
# Where the ends of a lane send

Whatever arrives, and from wherever, the address an end of a lane sends to has echoed its
token or the challenge that was drawn for it.
-/

namespace FuseTransport.Transfer

open Proto Foundation Foundation.Runs Foundation.BigEndian

/-- What a challenge becomes on the wire carries it. -/
theorem sendPathProbe_challenges (signer : Option Signer) (works : Bool) (lane nonce : Nat)
    {challenge : Nat} (word : challenge < 2 ^ 64) {s : Sent}
    (member : s ∈ (sendPathProbe signer works .pathChallenge lane nonce challenge).1) :
    s.Challenges challenge := by
  obtain ⟨bodies, hemits, hbodies, _⟩ :=
    sendPathProbe_emits signer works .pathChallenge lane nonce challenge
  obtain ⟨body, hbody, rest, hbytes⟩ := hemits.bytes member
  obtain ⟨_, rfl⟩ := hbodies body hbody
  have houter : checkOuter .pathChallenge
      (pathProbeBytes .pathChallenge ⟨lane, nonce, challenge⟩ ++ rest) = true := by
    exact checkOuter_putOuter .pathChallenge rfl _
  rw [Sent.Challenges, hbytes]
  unfold decodePathProbe
  rw [if_neg (decodable houter (by simp [kOuterHeaderSize]))]
  refine ⟨_, rfl, ?_⟩
  exact getAt_put _ word

variable {dg : List UInt8}

theorem decodePathProbe_of_streamStart {ss : StreamStart} {type : MsgType}
    (decoded : decodeStreamStart dg = some ss) (other : type ≠ .streamStart) :
    decodePathProbe type dg = none := by
  cases hprobe : decodePathProbe type dg with
  | none => rfl
  | some pp =>
    have hstart := (decodeStreamStart_some decoded).1
    rw [(decodePathProbe_some hprobe).1] at hstart
    exact absurd (Option.some.inj hstart) other

/-! ## The receiving end -/

namespace RecvLane

variable {cfg : RxConfig} {lane : Nat} {sh : Shared} {L : RecvLane} {inp : Inputs} {dg : List UInt8}

/-- Only an opening message with the right token lets a lane join. -/
theorem onDatagram_joined {out : Shared × RecvLane × List Sent}
    (done : onDatagram cfg lane inp sh L dg = some out) (before : L.haveStart = false)
    (joined : out.2.1.haveStart = true) :
    ∃ ss, decodeStreamStart dg = some ss ∧ ss.token = inp.wantToken := by
  have hsame : out.2.1.haveStart ≠ L.haveStart := by
    rw [joined, before]
    decide
  cases onDatagram_handled cfg lane sh L done with
  | ignored => exact absurd rfl hsame
  | streamStart ss _ decoded =>
    refine ⟨ss, decoded, ?_⟩
    by_contra hwrong
    rw [onStreamStart, if_pos hwrong] at hsame
    exact hsame rfl
  | streamClose sc =>
    have huntouched := (onStreamClose_untouched L cfg dg sc).1
    exact absurd (congrArg RecvLane.haveStart huntouched.rest) hsame
  | pathProbe type pp =>
    have huntouched := (onPathProbe_untouched L lane (inp.works 0) dg type pp).1
    exact absurd (congrArg RecvLane.haveStart huntouched.rest) hsame
  | fileDigest dm =>
    have huntouched := (onFileDigest_untouched L lane (inp.works 0) sh dg dm).1
    exact absurd (congrArg RecvLane.haveStart huntouched.rest) hsame
  | block d next _ _ _ _ handed =>
    unfold dispatch at handed
    split at handed
    · cases handed
      exact absurd rfl hsame
    · cases handed

theorem response_some {value : Nat} (responds : L.response dg = some value) :
    ∃ pp, decodePathProbe .pathResponse dg = some pp ∧ pp.challenge = value := by
  unfold response at responds
  split at responds
  · rename_i pp hdecoded
    split at responds
    · exact ⟨pp, hdecoded, Option.some.inj responds⟩
    · cases responds
  · cases responds

theorem retries_some {wantToken : Nat} (again : L.retries wantToken dg = true) :
    ∃ ss, decodeStreamStart dg = some ss ∧ ss.token = wantToken ∧ L.haveStart = true ∧
      ss.nonce = L.peerNonce ∧ ctlAuthentic L.signer dg = true := by
  unfold retries at again
  split at again
  · rename_i ss hdecoded
    simp only [Bool.and_eq_true, decide_eq_true_eq] at again
    obtain ⟨⟨⟨htoken, hstart⟩, hnonce⟩, hauthentic⟩ := again
    exact ⟨ss, hdecoded, htoken, hstart, hnonce, hauthentic⟩
  · cases again

end RecvLane

variable {p : Probe} {sent : List Sent} {inp : RecvLane.Inputs} {src : PeerAddr}

namespace PeerState

variable {cfg : PeerConfig} {st next : PeerState} {lane : Nat}

def Sound (cfg : PeerConfig) (st : PeerState) : Prop :=
  ∀ lane, (st.ends lane).anchor.Sound (cfg.prf lane) none

@[simp]
theorem setEnd_self (st : PeerState) (lane : Nat) (P : PeerLane) :
    (st.setEnd lane P).ends lane = P := by
  simp [setEnd]

theorem setEnd_of_ne (st : PeerState) {lane other : Nat} (differs : other ≠ lane) (P : PeerLane) :
    (st.setEnd lane P).ends other = st.ends other := by
  exact Function.update_of_ne differs _ _

theorem Sound.setEnd (sound : st.Sound cfg) {P : PeerLane}
    (changed : P.anchor.Sound (cfg.prf lane) none) : (st.setEnd lane P).Sound cfg := by
  intro other
  by_cases hsame : other = lane
  · subst hsame
    rw [setEnd_self]
    exact changed
  · rw [setEnd_of_ne st hsame]
    exact sound other

/-- The base of a state plays no part in it. -/
theorem Sound.base (sound : st.Sound cfg) (base : RxState) :
    ({ st with base := base } : PeerState).Sound cfg := sound

theorem act_probe {works : Bool} {challenge : Nat} {base : RxState}
    (acted : st.base.act cfg.rx (.probe lane works challenge) = some (base, sent)) :
    sent = (sendPathProbe (st.base.lanes lane).signer works .pathChallenge lane
      (st.base.lanes lane).peerNonce challenge).1 :=
  (RxState.onLane_some acted).2.2.2

theorem Sound.probePath (sound : st.Sound cfg) (probed : st.probePath cfg lane src p = some next) :
    next.Sound cfg := by
  unfold PeerState.probePath at probed
  split at probed
  · cases probed
    refine sound.setEnd ((sound lane).probe src p.nowNs p.drawn ?_)
    intro challenge _ s impossible
    cases impossible
  · rename_i challenge hdue
    obtain ⟨⟨base, sent⟩, hacted, rfl⟩ := Option.map_eq_some_iff.mp probed
    refine Sound.base (sound.setEnd ((sound lane).probe src p.nowNs p.drawn ?_)) base
    intro other hother s member
    obtain rfl : challenge = other := Option.some.inj (hdue.symm.trans hother)
    rw [act_probe hacted] at member
    exact sendPathProbe_challenges _ _ _ _ ((sound lane).challenge_lt hdue) member

theorem act_datagram {base : RxState}
    (acted : st.base.act cfg.rx (.datagram lane inp dg) = some (base, sent)) :
    ∃ out, RecvLane.onDatagram cfg.rx lane inp st.base.shared (st.base.lanes lane) dg = some out ∧
      (st.base.lanes lane).status = none ∧ base.lanes lane = out.2.1 ∧ sent = out.2.2 := by
  obtain ⟨hreading, acted⟩ := Option.ite_none_right_eq_some.mp acted
  obtain ⟨out, hout, hnext⟩ := Option.map_eq_some_iff.mp acted
  obtain ⟨rfl, rfl⟩ := Prod.mk.inj hnext
  exact ⟨out, hout, (RxState.reading_some hreading).2, RxState.setLane_self st.base lane out.2.1, rfl⟩

theorem act_joined {base : RxState}
    (acted : st.base.act cfg.rx (.datagram lane inp dg) = some (base, sent))
    (before : (st.base.lanes lane).haveStart = false)
    (joined : (base.lanes lane).haveStart = true) :
    ∃ ss, decodeStreamStart dg = some ss ∧ ss.token = inp.wantToken := by
  obtain ⟨out, hout, _, hlane, _⟩ := act_datagram acted
  rw [hlane] at joined
  exact RecvLane.onDatagram_joined hout before joined

/-- The lane handles a datagram that has just been noted, unless it is an opening message for
a lane that has joined. -/
theorem Sound.receive (sound : st.Sound cfg) {a : Anchor} (before : a.Sound (cfg.prf lane) none)
    (noted : (st.ends lane).anchor = a.hear src dg ∨
      (st.base.lanes lane).haveStart = true ∧ (decodeStreamStart dg).isSome = true)
    (token : inp.wantToken = wantToken cfg lane src dg)
    (received : st.receive cfg lane src inp dg = some next) : next.Sound cfg := by
  obtain ⟨⟨base, sent⟩, hacted, rfl⟩ := Option.map_eq_some_iff.mp received
  refine Sound.base (sound.setEnd ?_) base
  have hturned : (turn (st.base.lanes lane) (base.lanes lane) src dg
      (st.ends lane).anchor).Sound (cfg.prf lane) none := by
    unfold turn
    split
    · rename_i hjoins
      rcases noted with hnoted | ⟨hstart, _⟩
      · obtain ⟨ss, hdecoded, htoken⟩ := act_joined hacted hjoins.1 hjoins.2
        refine (sound lane).join ?_
        rw [hnoted]
        refine ⟨a.log, dg, ss, rfl, hdecoded, ?_⟩
        rw [htoken, token, wantToken, hdecoded]
        rfl
      · rw [hjoins.1] at hstart
        cases hstart
    · split
      · rename_i value hresponse
        obtain ⟨pp, hdecoded, rfl⟩ := RecvLane.response_some hresponse
        rcases noted with hnoted | ⟨_, hopening⟩
        · rw [hnoted]
          exact before.respond hdecoded
        · obtain ⟨ss, hstart⟩ := Option.isSome_iff_exists.mp hopening
          rw [decodePathProbe_of_streamStart hstart (by decide)] at hdecoded
          cases hdecoded
      · exact sound lane
  split
  · exact hturned.sendPeer sent
  · exact hturned.send src sent

theorem probePath_haveStart (probed : st.probePath cfg lane src p = some next) :
    (next.base.lanes lane).haveStart = (st.base.lanes lane).haveStart := by
  unfold PeerState.probePath at probed
  split at probed
  · cases probed
    rfl
  · obtain ⟨⟨base, sent⟩, hacted, rfl⟩ := Option.map_eq_some_iff.mp probed
    obtain ⟨_, _, hbase, _⟩ := RxState.onLane_some hacted
    rw [hbase, RxState.setLane_self]
    rfl

theorem Sound.onDatagram (sound : st.Sound cfg)
    (done : st.onDatagram cfg lane src inp dg p = some next) :
    next.Sound cfg := by
  have hheard : (st.onAnchor lane fun a => a.hear src dg).Sound cfg :=
    sound.setEnd ((sound lane).hear src dg)
  unfold PeerState.onDatagram at done
  dsimp only at done
  split at done
  · rename_i hretried
    obtain ⟨ss, hdecoded, _, hstart, _⟩ := RecvLane.retries_some hretried.1
    obtain ⟨middle, hprobed, hreceived⟩ := Option.bind_eq_some_iff.mp done
    refine (hheard.probePath hprobed).receive (sound lane) (Or.inr ⟨?_, ?_⟩) rfl hreceived
    · rw [probePath_haveStart hprobed]
      exact hstart
    · rw [hdecoded]
      rfl
  · refine hheard.receive (sound lane) (Or.inl ?_) rfl done
    rw [PeerState.onAnchor, setEnd_self]

theorem Sound.onConsumer (sound : st.Sound cfg) {k count : Nat} {failsAfter : Nat → Option Nat}
    (done : st.onConsumer cfg lane k count failsAfter = some next) : next.Sound cfg := by
  obtain ⟨⟨base, sent⟩, _, rfl⟩ := Option.map_eq_some_iff.mp done
  refine Sound.base (sound.setEnd ?_) base
  exact sound lane

theorem Sound.onResult (sound : st.Sound cfg) {k nowNs : Nat}
    (done : st.onResult cfg lane k nowNs p = some next) : next.Sound cfg := by
  unfold PeerState.onResult at done
  split at done
  · obtain ⟨⟨base, sent⟩, _, hrest⟩ := Option.bind_eq_some_iff.mp done
    have hpopped := Sound.base (sound.setEnd (P := { st.ends lane with
      doneSrcs := Function.update (st.ends lane).doneSrcs k (((st.ends lane).doneSrcs k).drop 1) })
      (sound lane)) base
    dsimp only at hrest
    split at hrest
    · exact hpopped.probePath hrest
    · cases hrest
      exact hpopped
  · cases done

/-- One step of the receiving end, whatever it hears. -/
theorem Sound.step (sound : st.Sound cfg) {event : PeerEvent}
    (steps : st.step cfg event = some next) : next.Sound cfg := by
  cases event with
  | datagram lane src inp dg probe => exact sound.onDatagram steps
  | consumer lane k count failsAfter => exact sound.onConsumer steps
  | result lane k nowNs probe => exact sound.onResult steps
  | own e =>
    rw [PeerState.step] at steps
    split at steps
    · obtain ⟨⟨base, sent⟩, _, rfl⟩ := Option.map_eq_some_iff.mp steps
      exact Sound.base (sound.setEnd ((sound e.lane).sendPeer sent)) base
    · cases steps

theorem reachable_sound {sink : Sink} (reached : Reachable (step cfg) (create sink) st) :
    st.Sound cfg :=
  reached.invariant (fun _ _ _ sound steps => sound.step steps)
    fun lane => Anchor.Sound.create (cfg.prf lane) none

end PeerState

/-! ## The sending end -/

namespace SendEnd

variable {cfg : SendConfig} {lane : Nat} {dst : PeerAddr} {prf : List UInt8 → Nat} {st next : SendEnd}

/-- The destination is the one the lane was given, or has proved its address.  A sending end
hears of no tokens. -/
def Sound (dst : PeerAddr) (st : SendEnd) : Prop :=
  ∀ prf, st.anchor.Sound prf (some dst)

theorem response_some {L : SendLane} {value : Nat}
    (responds : L.response cfg lane dg = some value) :
    ∃ pp, decodePathProbe .pathResponse dg = some pp ∧ pp.challenge = value := by
  unfold SendLane.response at responds
  split at responds
  · rename_i pp hdecoded
    split at responds
    · exact ⟨pp, hdecoded, Option.some.inj responds⟩
    · cases responds
  · cases responds

theorem acknowledges_some {L : SendLane} (acknowledges : L.acknowledges cfg lane dg = true) :
    ∃ ack, decodeAck dg = some ack := by
  unfold SendLane.acknowledges at acknowledges
  split at acknowledges
  · rename_i ack hdecoded
    exact ⟨ack, hdecoded⟩
  · cases acknowledges

theorem Sound.probePath (sound : st.Sound dst) (probed : st.probePath cfg lane src p = some next) :
    next.Sound dst := by
  intro prf
  unfold SendEnd.probePath at probed
  split at probed
  · cases probed
    refine (sound prf).probe src p.nowNs p.drawn ?_
    intro challenge _ s impossible
    cases impossible
  · rename_i challenge hdue
    obtain ⟨⟨L, sent⟩, hacted, rfl⟩ := Option.map_eq_some_iff.mp probed
    refine (sound prf).probe src p.nowNs p.drawn ?_
    intro other hother s member
    obtain rfl : challenge = other := Option.some.inj (hdue.symm.trans hother)
    rw [SendLane.act] at hacted
    split at hacted
    · obtain ⟨rfl, rfl⟩ := Prod.mk.inj (Option.some.inj hacted)
      exact sendPathProbe_challenges _ _ _ _ ((sound prf).challenge_lt hdue) member
    · cases hacted

/-- The lane handles a datagram that has just been noted, unless it is an
acknowledgement. -/
theorem Sound.receive (sound : st.Sound dst) {works : Nat → Bool} {wireNs : Nat} {a : Anchor}
    (before : ∀ prf, a.Sound prf (some dst))
    (noted : st.anchor = a.hear src dg ∨ (decodeAck dg).isSome = true)
    (received : st.receive cfg lane src dg works wireNs = some next) : next.Sound dst := by
  intro prf
  obtain ⟨⟨L, sent⟩, _, rfl⟩ := Option.map_eq_some_iff.mp received
  have hsends : ∀ a : Anchor, a.Sound prf (some dst) →
      (if peekMsgType dg = some .pathChallenge then a.send src sent
        else a.sendPeer sent).Sound prf (some dst) := by
    intro a hsound
    split
    · exact hsound.send src sent
    · exact hsound.sendPeer sent
  cases hresponse : st.lane.response cfg lane dg with
  | none => exact hsends _ (sound prf)
  | some value =>
    obtain ⟨pp, hdecoded, rfl⟩ := response_some hresponse
    rcases noted with hnoted | hack
    · rw [hnoted]
      exact hsends _ ((before prf).respond hdecoded)
    · obtain ⟨ack, hack⟩ := Option.isSome_iff_exists.mp hack
      have hpeek := (decodePathProbe_some hdecoded).1
      rw [(decodeAck_some hack).1] at hpeek
      cases hpeek

/-- One step of the sending end, whatever it hears. -/
theorem Sound.step (sound : st.Sound dst) {event : SendEndEvent}
    (steps : st.step cfg lane event = some next) : next.Sound dst := by
  cases event with
  | receive src dg works wireNs p =>
    have hheard : SendEnd.Sound dst { st with anchor := st.anchor.hear src dg } :=
      fun prf => (sound prf).hear src dg
    rw [SendEnd.step] at steps
    split at steps
    · rename_i hack
      obtain ⟨ack, hdecoded⟩ := acknowledges_some hack.1
      obtain ⟨middle, hprobed, hreceived⟩ := Option.bind_eq_some_iff.mp steps
      refine (hheard.probePath hprobed).receive sound (Or.inr ?_) hreceived
      rw [hdecoded]
      rfl
    · exact hheard.receive sound (Or.inl rfl) steps
  | own e =>
    rw [SendEnd.step] at steps
    split at steps
    · obtain ⟨⟨L, sent⟩, _, rfl⟩ := Option.map_eq_some_iff.mp steps
      exact fun prf => (sound prf).sendPeer sent
    · cases steps

theorem reachable_sound (reached : Reachable (step cfg lane) (create cfg lane dst) st) :
    st.Sound dst :=
  reached.invariant (fun _ _ _ sound steps => sound.step steps)
    fun prf => Anchor.Sound.create prf (some dst)

/-- No token binds a sending end: it would have to be the right one whatever the function. -/
theorem not_tokenEchoed {log : List Happening} {a : PeerAddr} :
    ¬ ∀ prf, TokenEchoed prf log a := by
  intro always
  obtain ⟨before, dg, ss, hlog, hdecoded, htoken⟩ := always fun _ => 1
  obtain ⟨before', dg', ss', hlog', hdecoded', htoken'⟩ := always fun _ => 2
  rw [hlog] at hlog'
  obtain ⟨_, hheard⟩ := List.append_inj' hlog' rfl
  obtain ⟨_, rfl⟩ := Happening.heard.inj (List.singleton_inj.mp hheard)
  obtain rfl : ss = ss' := Option.some.inj (hdecoded.symm.trans hdecoded')
  have hdiffer : (1 : Nat) = 2 := htoken.symm.trans htoken'
  exact absurd hdiffer (by decide)

end SendEnd

/-- The address either end of a lane sends to has echoed a token or a challenge bound to it,
unless it is the destination a sending end was given.  A challenge validates only the address
it was drawn for, and at most once.  Tokens of different addresses and nonces come from
different inputs of the keyed function. -/
theorem addresses_validated (cfg : PeerConfig) (sink : Sink) (lane : Nat) (send : SendConfig)
    (dst : PeerAddr) :
    (∀ st, Reachable (PeerState.step cfg) (PeerState.create sink) st →
      (∀ p, (st.ends lane).anchor.peer = some p →
        JoinedBy (cfg.prf lane) (st.ends lane).anchor.log p ∨ MovedTo (st.ends lane).anchor.log p) ∧
      SpentOnce (st.ends lane).anchor.log) ∧
    (∀ st, Reachable (SendEnd.step send lane) (SendEnd.create send lane dst) st →
      (∀ p, st.anchor.peer = some p → p = dst ∨ MovedTo st.anchor.log p) ∧
      SpentOnce st.anchor.log) ∧
    ∀ (a b : PeerAddr) (nonce other : Nat), nonce < 2 ^ 64 → other < 2 ^ 64 →
      tokenInput a nonce = tokenInput b other → a = b ∧ nonce = other := by
  refine ⟨fun st reached => ?_, fun st reached => ?_, fun a b nonce other word otherWord =>
    tokenInput_injective word otherWord⟩
  · have hsound := PeerState.reachable_sound reached lane
    refine ⟨fun p hpeer => ?_, hsound.spentOnce⟩
    rcases hsound.bound hpeer with impossible | hbound
    · cases impossible
    · exact hbound
  · have hsound := SendEnd.reachable_sound reached
    refine ⟨fun p hpeer => ?_, (hsound fun _ => 0).spentOnce⟩
    rcases (hsound fun _ => 0).bound hpeer with hfirst | ⟨before, after, hlog, _⟩ | hmoved
    · exact Or.inl (Option.some.inj hfirst).symm
    · have htoken : ∀ prf, TokenEchoed prf before p := fun prf => (hsound prf).lawful _ _ _ hlog
      exact absurd htoken SendEnd.not_tokenEchoed
    · exact Or.inr hmoved

/-- A lane under a key; its tokens are all the same. -/
def keyedPeer : PeerConfig where
  rx := keyedSession.recv
  prf := fun _ _ => 7

def host (port : UInt16) : PeerAddr := .inet port (Vector.replicate 4 10)

def keyedSender : SendLane := { SendLane.create keyedSession.send 0 with token := 7 }

def keyedOpening : List Sent := (SendLane.sendStart keyedSession.send 0 true keyedSender).2

def keyedResponse (value : Nat) : List Sent :=
  (sendPathProbe keyedSender.signer true .pathResponse 0 (keyedSession.send.nonce 0) value).1

/-- The sender opens from one port and again from another, which then names the challenge;
`works` says whether the backend could sign it. -/
def rebinding (works : Bool) : List PeerEvent :=
  keyedOpening.flatMap (fun s =>
    [.datagram 0 (host 1) {} s.bytes {},
      .datagram 0 (host 2) {} s.bytes { nowNs := 1, drawn := 5, works := works }]) ++
  (keyedResponse 5).map fun s => .datagram 0 (host 2) {} s.bytes {}

/-- A sending lane without a key and with nothing to send. -/
def plainSend : SendConfig where
  lanes := 1
  data := []

def plainAnswers : List (PeerAddr × List UInt8) :=
  let ack := ackBytes { streamId := 0, nonce := plainSend.nonce 0 }
  (encodeResumeAnswer none (fun _ => true) 0 (plainSend.nonce 0) false []).1.map
      (fun s => (host 1, s.bytes)) ++
    [(host 1, ack), (host 2, ack)] ++
    (sendPathProbe none true .pathResponse 0 (plainSend.nonce 0) 5).1.map fun s => (host 2, s.bytes)

def sendRebinding : List SendEndEvent :=
  plainAnswers.map fun a => .receive a.1 a.2 (fun _ => true) 0 { nowNs := 1, drawn := 5 }

theorem addresses_validated_rebinding :
    (∃ st, Reachable (PeerState.step keyedPeer) (PeerState.create { kind := .memory }) st ∧
      (st.ends 0).anchor.peer = some (host 2) ∧
      (JoinedBy (keyedPeer.prf 0) (st.ends 0).anchor.log (host 2) ∨
        MovedTo (st.ends 0).anchor.log (host 2))) ∧
    (∃ st, Reachable (SendEnd.step plainSend 0) (SendEnd.create plainSend 0 (host 1)) st ∧
      st.anchor.peer = some (host 2) ∧ (host 2 = host 1 ∨ MovedTo st.anchor.log (host 2))) ∧
    tokenInput (host 1) 3 ≠ tokenInput (host 2) 3 := by
  have hvalidated := addresses_validated keyedPeer { kind := .memory } 0 plainSend (host 1)
  obtain ⟨st, hreplay, hpeer⟩ : ∃ st, replay (PeerState.step keyedPeer)
      (PeerState.create { kind := .memory }) (rebinding true) = some st ∧
        (st.ends 0).anchor.peer = some (host 2) := by decide +kernel
  obtain ⟨st', hreplay', hpeer'⟩ : ∃ st, replay (SendEnd.step plainSend 0)
      (SendEnd.create plainSend 0 (host 1)) sendRebinding = some st ∧
        st.anchor.peer = some (host 2) := by decide +kernel
  have hreached : Reachable (PeerState.step keyedPeer) _ st := ⟨_, hreplay⟩
  have hreached' : Reachable (SendEnd.step plainSend 0) _ st' := ⟨_, hreplay'⟩
  exact ⟨⟨st, hreached, hpeer, (hvalidated.1 st hreached).1 _ hpeer⟩,
    ⟨st', hreached', hpeer', (hvalidated.2.1 st' hreached').1 _ hpeer'⟩,
    fun same => absurd (hvalidated.2.2 _ _ 3 3 (by decide) (by decide) same).1 (by decide)⟩

def Happening.sentTo (a : PeerAddr) : Happening → Bool
  | .sent dst _ => dst = a
  | _ => false

/-- The backend cannot sign the challenge, so it is never sent; yet a response that names it
moves the peer. -/
theorem peer_moved_unchallenged : ∃ st,
    replay (PeerState.step keyedPeer) (PeerState.create { kind := .memory }) (rebinding false) =
      some st ∧
    (st.ends 0).anchor.peer = some (host 2) ∧ .joined (host 2) ∉ (st.ends 0).anchor.log ∧
    ∀ s, .sent (host 2) s ∉ (st.ends 0).anchor.log := by
  obtain ⟨st, hreplay, hpeer, hjoined, hnone⟩ : ∃ st,
      replay (PeerState.step keyedPeer) (PeerState.create { kind := .memory }) (rebinding false) =
        some st ∧ (st.ends 0).anchor.peer = some (host 2) ∧
        .joined (host 2) ∉ (st.ends 0).anchor.log ∧
        (st.ends 0).anchor.log.any (Happening.sentTo (host 2)) = false := by decide +kernel
  refine ⟨st, hreplay, hpeer, hjoined, fun s member => ?_⟩
  rw [List.any_eq_false] at hnone
  have hsent : Happening.sentTo (host 2) (.sent (host 2) s) = true := by
    rw [Happening.sentTo, decide_eq_true rfl]
  exact hnone _ member hsent

end FuseTransport.Transfer
