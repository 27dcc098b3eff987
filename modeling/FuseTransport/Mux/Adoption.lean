import Mathlib.Data.List.Induction
import FuseTransport.Proto.Versions

/-!
# Whom the multiplexed receiver answers

Before its streams run, the receiver waits for a SETUP from anyone.  It takes the source of
each SETUP_DATA datagram for its peer, and leaves it to the responder whether the datagram is
an offer at all.
-/

namespace FuseTransport.Mux

open Proto Foundation.Runs

def kDefaultSetupTimeoutNs : Nat := 50000000
def kDefaultSetupMaxRetries : Nat := 5
def kVersionMismatchMarker : UInt8 := 0xFF

def isForeignVersion : List UInt8 → Bool
  | version :: marker :: _ => version != kProtocolVersion && marker != kVersionMismatchMarker
  | _ => false

/-- The responder and the peer it has: the address of the last SETUP_DATA datagram. -/
structure MuxSetup (Address : Type) where
  resp : SetupResponder
  peer : Option Address := none

/-- One round of the handshake loop: a datagram with its source and the number drawn if one
is, or none in time. -/
inductive SetupTurn (Address : Type) where
  | heard (source : Address) (bytes : List UInt8) (random nowNs : Nat)
  | silence (nowNs : Nat)

/-- What fits the buffer of a received datagram. -/
def received (bytes : List UInt8) : List UInt8 := bytes.take kMaxSetupDatagramSize

variable {Address : Type}

def SetupTurn.IsData : SetupTurn Address → Prop
  | .heard _ bytes _ _ => peekMsgType (received bytes) = some .setupData
  | .silence _ => False

variable {st : MuxSetup Address} {event : SetupTurn Address} {next : MuxSetup Address}
    {bytes : List UInt8}

namespace MuxSetup

def create : MuxSetup Address where
  resp := SetupResponder.create kDefaultSetupTimeoutNs kDefaultSetupMaxRetries

def onDatagram (st : MuxSetup Address) (source : Address) (bytes : List UInt8)
    (random nowNs : Nat) : MuxSetup Address :=
  if isForeignVersion (received bytes) then st
  else
    { resp := (st.resp.onDatagram random (received bytes) kMaxSetupDatagramSize nowNs).1
      peer := if peekMsgType (received bytes) = some .setupData then some source else st.peer }

/-- The loop goes on until the responder is complete or has failed. -/
def turn (st : MuxSetup Address) (event : SetupTurn Address) : Option (MuxSetup Address) :=
  if st.resp.complete ∨ st.resp.failed then none
  else
    match event with
    | .heard source bytes random nowNs => some (st.onDatagram source bytes random nowNs)
    | .silence nowNs => some { st with resp := (st.resp.onTimeout kMaxSetupDatagramSize nowNs).1 }

def idsInOrder (config : SetupPayload) : Bool :=
  config.streams.zipIdx.all fun entry => entry.1.streamId == entry.2

/-- The configuration with which the handshake returns `true`. -/
def adopted (st : MuxSetup Address) : Option SetupPayload :=
  if st.resp.complete ∧ idsInOrder st.resp.config then some st.resp.config else none

/-- The responder drops the datagram: it stays as it is and has no reply. -/
def Rejects (st : MuxSetup Address) : SetupTurn Address → Prop
  | .heard _ bytes random nowNs =>
    st.resp.onDatagram random (received bytes) kMaxSetupDatagramSize nowNs = (st.resp, none)
  | .silence _ => False

/-- A SETUP_DATA datagram that is no offer comes only from the peer. -/
def Steady (st : MuxSetup Address) : SetupTurn Address → Prop
  | .heard source bytes _ _ =>
    peekMsgType (received bytes) = some .setupData →
      SetupResponder.offer (received bytes) = none → st.peer = some source
  | .silence _ => True

theorem roomy : 18 ≤ kMaxSetupDatagramSize := by decide

/-! ## What a round can do -/

/-- The responder has the offer it had, and is complete only with one. -/
structure SameOffer (resp after : SetupResponder) : Prop where
  config : after.config = resp.config
  replySent : after.replySent = resp.replySent
  complete : after.complete = true → resp.complete = true ∨ resp.replySent = true

inductive Turned (st : MuxSetup Address) : SetupTurn Address → MuxSetup Address → Prop where
  | kept {event : SetupTurn Address} {next : MuxSetup Address} (other : ¬ event.IsData)
      (same : SameOffer st.resp next.resp) (peer : next.peer = st.peer) : Turned st event next
  | offered {source : Address} {bytes body : List UInt8} {random nowNs : Nat}
      {next : MuxSetup Address} (data : peekMsgType (received bytes) = some .setupData)
      (offers : SetupResponder.offer (received bytes) = some (next.resp.config, body))
      (answered : ¬ st.Rejects (.heard source bytes random nowNs))
      (replySent : next.resp.replySent = true) (peer : next.peer = some source) :
      Turned st (.heard source bytes random nowNs) next
  | mistaken {source : Address} {bytes : List UInt8} {random nowNs : Nat}
      (data : peekMsgType (received bytes) = some .setupData)
      (refused : SetupResponder.offer (received bytes) = none) :
      Turned st (.heard source bytes random nowNs) { st with peer := some source }

/-- The handshake is a build of our version. -/
theorem isForeignVersion_eq (bytes : List UInt8) :
    isForeignVersion bytes = Proto.isForeignVersion kProtocolVersion bytes := by
  match bytes with
  | [] => rfl
  | [_] => rfl
  | _ :: _ :: _ => rfl

theorem peekMsgType_of_foreign (foreign : isForeignVersion bytes = true) :
    peekMsgType bytes = none := by
  rw [isForeignVersion_eq] at foreign
  rw [← peekMsgTypeAs_ours]
  exact peekMsgTypeAs_foreign foreign

variable {resp : SetupResponder} {events : List (SetupTurn Address)}

theorem onDatagram_refused (data : peekMsgType bytes = some .setupData)
    (refused : SetupResponder.offer bytes = none) (random outCap nowNs : Nat) :
    resp.onDatagram random bytes outCap nowNs = (resp, none) := by
  simp only [SetupResponder.onDatagram, data, refused, ite_self]

theorem onDatagram_offered {body : List UInt8} {decoded : SetupPayload}
    (data : peekMsgType bytes = some .setupData) (incomplete : resp.complete = false)
    (offers : SetupResponder.offer bytes = some (decoded, body)) (random nowNs : Nat)
    {outCap : Nat} (room : 18 ≤ outCap) :
    (resp.onDatagram random bytes outCap nowNs).1.config = decoded ∧
      (resp.onDatagram random bytes outCap nowNs).1.replySent = true ∧
      (resp.onDatagram random bytes outCap nowNs).2 ≠ none := by
  simp [SetupResponder.onDatagram, data, incomplete, offers, encodeSetupHash_roomy room]

theorem onDatagram_other (other : peekMsgType bytes ≠ some .setupData) (random outCap nowNs : Nat) :
    SameOffer resp (resp.onDatagram random bytes outCap nowNs).1 := by
  have hsame : SameOffer resp resp := ⟨rfl, rfl, Or.inl⟩
  rw [SetupResponder.onDatagram]
  split
  · rename_i hdata
    exact absurd hdata other
  · split
    · exact hsame
    · split
      · rename_i hmatch
        exact ⟨rfl, rfl, fun _ => Or.inr hmatch.1⟩
      · exact hsame
  · exact hsame

theorem onTimeout_sameOffer (resp : SetupResponder) (outCap nowNs : Nat) :
    SameOffer resp (resp.onTimeout outCap nowNs).1 := by
  rw [SetupResponder.onTimeout]
  repeat' split
  all_goals exact ⟨rfl, rfl, Or.inl⟩

theorem turned (moved : st.turn event = some next) : Turned st event next := by
  obtain ⟨hopen, moved⟩ := Option.ite_none_left_eq_some.mp moved
  have hincomplete : st.resp.complete = false := by
    rw [not_or] at hopen
    exact eq_false_of_ne_true hopen.1
  cases event with
  | silence nowNs =>
    cases moved
    exact .kept not_false (onTimeout_sameOffer st.resp _ nowNs) rfl
  | heard source bytes random nowNs =>
    cases moved
    rw [onDatagram]
    split
    · rename_i hforeign
      refine .kept ?_ ⟨rfl, rfl, Or.inl⟩ rfl
      intro hdata
      rw [SetupTurn.IsData, peekMsgType_of_foreign hforeign] at hdata
      cases hdata
    · by_cases hdata : peekMsgType (received bytes) = some .setupData
      · rw [if_pos hdata]
        cases hoffer : SetupResponder.offer (received bytes) with
        | none =>
          rw [onDatagram_refused hdata hoffer]
          exact .mistaken hdata hoffer
        | some offered =>
          obtain ⟨decoded, body⟩ := offered
          obtain ⟨hconfig, hsent, hanswered⟩ :=
            onDatagram_offered hdata hincomplete hoffer random nowNs roomy
          rw [← hconfig] at hoffer
          exact .offered hdata hoffer (fun rejects => hanswered (congrArg Prod.snd rejects)) hsent
            rfl
      · rw [if_neg hdata]
        exact .kept hdata (onDatagram_other hdata random _ nowNs) rfl

/-- The peer is left alone by what the responder drops exactly in a steady round. -/
theorem rejects_iff (moved : st.turn event = some next) :
    (st.Rejects event → next.peer = st.peer) ↔ st.Steady event := by
  constructor
  · intro hkeeps
    cases event with
    | silence nowNs => trivial
    | heard source bytes random nowNs =>
      intro hdata hrefused
      have hpeer := hkeeps (onDatagram_refused hdata hrefused random _ nowNs)
      cases turned moved with
      | kept other same peer => exact absurd hdata other
      | offered data offers answered replySent peer =>
        rw [hrefused] at offers
        cases offers
      | mistaken data refused => exact hpeer.symm
  · intro hsteady hrejects
    cases turned moved with
    | kept other same peer => exact peer
    | offered data offers answered replySent peer => exact absurd hrejects answered
    | mistaken data refused => exact (hsteady data refused).symm

/-- The peer sent one of the datagrams heard, and that datagram offers the configuration. -/
def PeerOffers (events : List (SetupTurn Address)) (st : MuxSetup Address) : Prop :=
  ∃ source bytes random nowNs body, SetupTurn.heard source bytes random nowNs ∈ events ∧
    st.peer = some source ∧ peekMsgType (received bytes) = some .setupData ∧
    SetupResponder.offer (received bytes) = some (st.resp.config, body)

structure Traced (events : List (SetupTurn Address)) (st : MuxSetup Address) : Prop where
  replied : st.resp.complete = true → st.resp.replySent = true
  offers : st.resp.replySent = true → PeerOffers events st

theorem Traced.turn (traced : Traced events st)
    (steady : st.Steady event) (moved : st.turn event = some next) :
    Traced (events ++ [event]) next := by
  have hlonger : ∀ {after : MuxSetup Address}, after.resp.config = st.resp.config →
      after.peer = st.peer → st.resp.replySent = true → PeerOffers (events ++ [event]) after := by
    intro after hconfig hpeer hsent
    obtain ⟨source, bytes, random, nowNs, body, hmember, hsource, hdata, hoffer⟩ :=
      traced.offers hsent
    refine ⟨source, bytes, random, nowNs, body, List.mem_append_left _ hmember, ?_, hdata, ?_⟩
    · rw [hpeer, hsource]
    · rw [hconfig, hoffer]
  cases turned moved with
  | kept other same peer =>
    constructor
    · intro hcomplete
      rw [same.replySent]
      rcases same.complete hcomplete with hbefore | hsent
      · exact traced.replied hbefore
      · exact hsent
    · intro hsent
      exact hlonger same.config peer (same.replySent ▸ hsent)
  | offered data offers answered replySent peer =>
    exact ⟨fun _ => replySent, fun _ => ⟨_, _, _, _, _,
      List.mem_append_right _ List.mem_cons_self, peer, data, offers⟩⟩
  | mistaken data refused =>
    exact ⟨traced.replied, fun hsent => hlonger rfl (steady data refused).symm hsent⟩

theorem traced_replay
    (replayed : replay turn create events = some st) (along : Along turn Steady create events) :
    Traced events st := by
  induction events using List.reverseRecOn generalizing st with
  | nil =>
    cases replayed
    exact ⟨fun impossible => (Bool.false_ne_true impossible).elim,
      fun impossible => (Bool.false_ne_true impossible).elim⟩
  | append_singleton events event ih =>
    rw [replay_append] at replayed
    obtain ⟨middle, hbefore, hlast⟩ := Option.bind_eq_some_iff.mp replayed
    obtain ⟨hsteady, hevent⟩ := along_append along hbefore
    obtain ⟨next, hmoved, hend⟩ := Option.bind_eq_some_iff.mp hlast
    cases hend
    exact (ih hbefore hsteady).turn hevent.1 hmoved

/-- In a run, the peer is the source of an offer of the configuration that is adopted, and
no datagram that the responder drops changes it, exactly when each SETUP_DATA datagram
without an offer comes from the peer of that time. -/
theorem peer_adopted_iff {events : List (SetupTurn Address)} {st : MuxSetup Address}
    (replayed : replay turn create events = some st) :
    ((∀ config, st.adopted = some config → config = st.resp.config ∧ PeerOffers events st) ∧
        ∀ before event after middle next, events = before ++ event :: after →
          replay turn create before = some middle → middle.turn event = some next →
          middle.Rejects event → next.peer = middle.peer) ↔
      Along turn Steady create events := by
  constructor
  · rintro ⟨_, hkeeps⟩
    apply (along_iff replayed).mpr
    rintro before event after middle rfl hmiddle
    rw [replay_append, hmiddle] at replayed
    obtain ⟨next, hmoved, _⟩ := Option.bind_eq_some_iff.mp
      ((replay_cons middle event after).symm.trans replayed)
    exact (rejects_iff hmoved).mp (hkeeps before event after middle next rfl hmiddle hmoved)
  · intro along
    constructor
    · intro config hadopted
      obtain ⟨hboth, hadopted⟩ := Option.ite_none_right_eq_some.mp hadopted
      have htraced := traced_replay replayed along
      exact ⟨(Option.some.inj hadopted).symm, htraced.offers (htraced.replied hboth.1)⟩
    · intro before event after middle next hsplit hmiddle hmoved
      exact (rejects_iff hmoved).mpr ((along_iff replayed).mp along before event after middle hsplit
        hmiddle)

/-- An offer of one stream, and its confirmation of the nonce 5. -/
def oneStream : SetupPayload where
  numWorkers := 1
  streams := [{ streamFlags := kStreamFlagLossless, blockSize := 1200, windowSize := 64 }]

def offerFrom (source : Nat) : SetupTurn Nat :=
  .heard source (putOuter .setupData ++ setupBody oneStream) 5 1

def confirmFrom (source : Nat) : SetupTurn Nat :=
  .heard source (setupHashBytes .setupFinAck (hash64 (setupBody oneStream)) 5) 0 3

/-- A SETUP_DATA datagram with no body. -/
def emptyFrom (source : Nat) : SetupTurn Nat := .heard source (putOuter .setupData) 0 2

instance (st : MuxSetup Nat) (event : SetupTurn Nat) : Decidable (st.Steady event) :=
  match event with
  | .heard _ _ _ _ => inferInstanceAs (Decidable (_ → _ → _))
  | .silence _ => inferInstanceAs (Decidable True)

/-- The peer repeats its offer as an empty datagram; it stays the peer. -/
theorem peer_adopted_repeated :
    ∃ st, replay turn create [offerFrom 1, emptyFrom 1, confirmFrom 2] = some st ∧
      st.adopted = some oneStream ∧ st.peer = some 1 ∧
      PeerOffers [offerFrom 1, emptyFrom 1, confirmFrom 2] st := by
  obtain ⟨st, hreplay, hadopted, hpeer⟩ : ∃ st,
      replay turn create [offerFrom 1, emptyFrom 1, confirmFrom 2] = some st ∧
        st.adopted = some oneStream ∧ st.peer = some 1 := by decide +kernel
  have hsteady : Along turn Steady create [offerFrom 1, emptyFrom 1, confirmFrom 2] := by
    decide +kernel
  have hoffers := ((peer_adopted_iff hreplay).mpr hsteady).1 oneStream hadopted
  exact ⟨st, hreplay, hadopted, hpeer, hoffers.2⟩

/-- After the offer of one peer, an empty SETUP_DATA datagram from elsewhere: the offer is
adopted, and every answer goes elsewhere. -/
theorem peer_moved_by_refused :
    ∃ st, replay turn create [offerFrom 1, emptyFrom 2, confirmFrom 1] = some st ∧
      st.adopted = some oneStream ∧ st.peer = some 2 ∧
      SetupResponder.offer (received (putOuter .setupData)) = none := by
  decide +kernel

end MuxSetup

end FuseTransport.Mux
