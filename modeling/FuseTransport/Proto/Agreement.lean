import FuseTransport.Foundation.Runs
import FuseTransport.Proto.Handshake

/-!
# Agreement of the SETUP handshake

Any number of initiators and responders take part, now or in earlier handshakes, over a
network that loses, repeats, reorders and keeps messages.  Offers may be anything, but
replies and confirmations are not forged.
-/

namespace FuseTransport.Proto

open Foundation Foundation.Runs

/-! ## Handshakes over a network -/

/-- A reply as it was sent, with the configuration it was sent for. -/
structure HashReply where
  responder : Nat
  config : SetupPayload
  bytes : List UInt8

/-- A confirmation as it was sent, with the reply it answers; `heard` replies had been
sent by then. -/
structure FinAck where
  initiator : Nat
  answers : List UInt8
  bytes : List UInt8
  heard : Nat

structure Draw where
  nonce : Nat
  responder : Nat
  hash : Nat

/-- All parties of all handshakes.  The code does not keep the rest: the nonces, replies and
confirmations so far, and the datagram that completed each responder. -/
structure Handshakes where
  responders : Nat → SetupResponder
  initiators : Nat → SetupInitiator
  drawn : List Draw := []
  replies : List HashReply := []
  finAcks : List FinAck := []
  completedBy : Nat → Option (List UInt8) := fun _ => none

inductive HandshakeEvent where
  | toResponder (i random : Nat) (bytes : List UInt8) (outCap nowNs : Nat)
  | responderTimeout (i outCap nowNs : Nat)
  | start (j outCap nowNs : Nat)
  | toInitiator (j : Nat) (bytes : List UInt8) (outCap nowNs : Nat)
  | initiatorTimeout (j outCap nowNs : Nat)

variable {st' : Handshakes} {e : HandshakeEvent} {i : Nat} {st : Handshakes}

namespace Handshakes

def create (responders : Nat → Nat × Nat) (initiators : Nat → SetupPayload × Nat × Nat) :
    Handshakes where
  responders := fun i => SetupResponder.create (responders i).1 (responders i).2
  initiators := fun j =>
    SetupInitiator.create (initiators j).1 (initiators j).2.1 (initiators j).2.2

def drawing (st : Handshakes) (i random : Nat) (bytes : List UInt8) : List Draw :=
  if (st.responders i).complete then []
  else match SetupResponder.offer bytes with
    | some (_, body) =>
      if (st.responders i).draws body then [⟨random, i, hash64 body⟩] else []
    | none => []

/-- Nonces are machine words and no two draws give the same. -/
def fresh (st : Handshakes) (draw : Draw) : Bool :=
  draw.nonce < 2 ^ 64 && st.drawn.all fun other => other.nonce ≠ draw.nonce

def finAckSent (st : Handshakes) (bytes : List UInt8) : Bool :=
  (decodeSetupHash .setupFinAck bytes).isNone || st.finAcks.any fun f => f.bytes = bytes

def replySent (st : Handshakes) (bytes : List UInt8) : Bool :=
  (decodeSetupHash .setupHashReply bytes).isNone || st.replies.any fun r => r.bytes = bytes

def responded (st : Handshakes) (i : Nat) (out : SetupResponder × Option (List UInt8)) :
    Handshakes :=
  { st with
    responders := Function.update st.responders i out.1
    replies := st.replies ++ (out.2.map fun bytes => ⟨i, out.1.config, bytes⟩).toList }

def initiated (st : Handshakes) (j : Nat) (init : SetupInitiator) : Handshakes :=
  { st with initiators := Function.update st.initiators j init }

/-- A responder has processed a datagram. -/
def heard (st : Handshakes) (i random : Nat) (bytes : List UInt8)
    (out : SetupResponder × Option (List UInt8)) : Handshakes :=
  { st.responded i out with
    drawn := st.drawn ++ st.drawing i random bytes
    completedBy :=
      if out.1.complete ∧ (st.responders i).complete = false then
        Function.update st.completedBy i (some bytes)
      else st.completedBy }

def step (st : Handshakes) : HandshakeEvent → Option Handshakes
  | .toResponder i random bytes outCap nowNs =>
    if st.finAckSent bytes ∧ (st.drawing i random bytes).all st.fresh then
      some (st.heard i random bytes ((st.responders i).onDatagram random bytes outCap nowNs))
    else none
  | .responderTimeout i outCap nowNs =>
    some (st.responded i ((st.responders i).onTimeout outCap nowNs))
  | .start j outCap nowNs => some (st.initiated j ((st.initiators j).start outCap nowNs).1)
  | .toInitiator j bytes outCap nowNs =>
    if st.replySent bytes then
      let out := (st.initiators j).onDatagram bytes outCap nowNs
      some { st.initiated j out.1 with
        finAcks := st.finAcks ++
          (out.2.map fun sent => ⟨j, bytes, sent, st.replies.length⟩).toList }
    else none
  | .initiatorTimeout j outCap nowNs =>
    some (st.initiated j ((st.initiators j).onTimeout outCap nowNs).1)

/-! ### The invariant -/

/-- What a responder that has replied holds: the hash of a valid configuration, and the
nonce it drew for this hash. -/
structure Replied (drawn : List Draw) (i nonce hash : Nat) (config : SetupPayload) : Prop where
  drew : ⟨nonce, i, hash⟩ ∈ drawn
  fits : config.Fits
  valid : setupPayloadValid config = true
  hashes : hash = hash64 (setupBody config)

/-- A reply carries the nonce its responder drew for the hash of the configuration. -/
def Genuine (drawn : List Draw) (reply : HashReply) : Prop :=
  reply.config.Fits ∧ ∃ nonce, ⟨nonce, reply.responder, hash64 (setupBody reply.config)⟩ ∈ drawn ∧
    reply.bytes = setupHashBytes .setupHashReply (hash64 (setupBody reply.config)) nonce

/-- A confirmation answers a reply that had been sent, with the hash of its initiator. -/
def Answers (replies : List HashReply) (hashes : Nat → Nat) (f : FinAck) : Prop :=
  ∃ k < f.heard, ∃ reply, replies[k]? = some reply ∧ reply.bytes = f.answers ∧
    ∃ nonce < 2 ^ 64, f.answers = setupHashBytes .setupHashReply (hashes f.initiator) nonce ∧
      f.bytes = setupHashBytes .setupFinAck (hashes f.initiator) nonce

structure Inv (payloads : Nat → SetupPayload) (st : Handshakes) : Prop where
  initiators : ∀ j, (st.initiators j).payload = payloads j ∧
    (st.initiators j).myHash = hash64 (serialized (payloads j))
  words : ∀ draw ∈ st.drawn, draw.nonce < 2 ^ 64 ∧ draw.hash < 2 ^ 64
  distinct : ∀ draw ∈ st.drawn, ∀ other ∈ st.drawn, draw.nonce = other.nonce → draw = other
  replied : ∀ i, (st.responders i).replySent = true →
    Replied st.drawn i (st.responders i).nonce (st.responders i).myHash (st.responders i).config
  replies : ∀ reply ∈ st.replies, Genuine st.drawn reply
  finAcks : ∀ f ∈ st.finAcks, Answers st.replies (fun j => hash64 (serialized (payloads j))) f
  complete : ∀ i, (st.responders i).complete = true → (st.responders i).replySent = true ∧
    ∃ f ∈ st.finAcks, st.completedBy i = some f.bytes ∧
      f.bytes = setupHashBytes .setupFinAck (st.responders i).myHash (st.responders i).nonce

theorem Replied.mono {drawn drawn' : List Draw} {nonce hash : Nat} {config : SetupPayload}
    (replied : Replied drawn i nonce hash config) (more : drawn ⊆ drawn') :
    Replied drawn' i nonce hash config :=
  ⟨more replied.drew, replied.fits, replied.valid, replied.hashes⟩

theorem Genuine.mono {drawn drawn' : List Draw} {reply : HashReply} (genuine : Genuine drawn reply)
    (more : drawn ⊆ drawn') : Genuine drawn' reply := by
  obtain ⟨hfits, nonce, hdrew, hbytes⟩ := genuine
  exact ⟨hfits, nonce, more hdrew, hbytes⟩

theorem Answers.mono {replies : List HashReply} {hashes : Nat → Nat} {f : FinAck}
    (answers : Answers replies hashes f) (more : List HashReply) :
    Answers (replies ++ more) hashes f := by
  obtain ⟨k, hk, reply, hreply, hrest⟩ := answers
  refine ⟨k, hk, reply, ?_, hrest⟩
  rw [List.getElem?_append_left (List.getElem?_eq_some_iff.mp hreply).1]
  exact hreply

theorem create_inv (responders : Nat → Nat × Nat) (initiators : Nat → SetupPayload × Nat × Nat) :
    (create responders initiators).Inv (fun j => (initiators j).1) where
  initiators := fun _ => ⟨rfl, rfl⟩
  words := nofun
  distinct := nofun
  replied := nofun
  replies := nofun
  finAcks := nofun
  complete := nofun

/-! ### Steps of responders -/

variable {random : Nat}

section Steps

variable {payloads : Nat → SetupPayload} {st : Handshakes}

theorem drawing_cases (st : Handshakes) (i random : Nat) (bytes : List UInt8) :
    st.drawing i random bytes = [] ∨
      ∃ hash < 2 ^ 64, st.drawing i random bytes = [⟨random, i, hash⟩] := by
  unfold drawing
  split
  · exact Or.inl rfl
  · split
    · split
      · exact Or.inr ⟨_, hash64_lt _, rfl⟩
      · exact Or.inl rfl
    · exact Or.inl rfl

/-- A fresh nonce is a word, and differs from those before it. -/
theorem Inv.drew (inv : st.Inv payloads) {bytes : List UInt8}
    (fresh : (st.drawing i random bytes).all st.fresh = true) :
    (∀ draw ∈ st.drawn ++ st.drawing i random bytes, draw.nonce < 2 ^ 64 ∧ draw.hash < 2 ^ 64) ∧
      ∀ draw ∈ st.drawn ++ st.drawing i random bytes,
        ∀ other ∈ st.drawn ++ st.drawing i random bytes,
          draw.nonce = other.nonce → draw = other := by
  rcases st.drawing_cases i random bytes with hnone | ⟨hash, hhash, hone⟩
  · rw [hnone, List.append_nil]
    exact ⟨inv.words, inv.distinct⟩
  · rw [hone] at fresh ⊢
    rw [List.all_cons, List.all_nil, Bool.and_true, Handshakes.fresh, Bool.and_eq_true,
      decide_eq_true_eq, List.all_eq_true] at fresh
    obtain ⟨hword, hother⟩ := fresh
    have hdiffers : ∀ draw ∈ st.drawn, draw.nonce ≠ random := fun draw member =>
      of_decide_eq_true (hother draw member)
    constructor
    · intro draw member
      rcases List.mem_append.mp member with hold | hnew
      · exact inv.words draw hold
      · rw [List.mem_singleton.mp hnew]
        exact ⟨hword, hhash⟩
    · intro draw member other member' same
      rcases List.mem_append.mp member with hold | hnew
      · rcases List.mem_append.mp member' with hold' | hnew'
        · exact inv.distinct draw hold other hold' same
        · rw [List.mem_singleton.mp hnew'] at same
          exact absurd same (hdiffers draw hold)
      · rw [List.mem_singleton.mp hnew] at same ⊢
        rcases List.mem_append.mp member' with hold' | hnew'
        · exact absurd same.symm (hdiffers other hold')
        · exact (List.mem_singleton.mp hnew').symm

/-- A step of one responder, as far as the invariant sees it. -/
structure Answered (st st' : Handshakes) (i : Nat) (sent : List HashReply) : Prop where
  initiators : st'.initiators = st.initiators
  finAcks : st'.finAcks = st.finAcks
  others : ∀ k, k ≠ i → st'.responders k = st.responders k ∧ st'.completedBy k = st.completedBy k
  grown : st.drawn ⊆ st'.drawn
  replies : st'.replies = st.replies ++ sent

theorem Inv.answered (inv : st.Inv payloads) {sent : List HashReply}
    (answered : Answered st st' i sent)
    (words : ∀ draw ∈ st'.drawn, draw.nonce < 2 ^ 64 ∧ draw.hash < 2 ^ 64)
    (distinct : ∀ draw ∈ st'.drawn, ∀ other ∈ st'.drawn, draw.nonce = other.nonce → draw = other)
    (replied : (st'.responders i).replySent = true → Replied st'.drawn i (st'.responders i).nonce
      (st'.responders i).myHash (st'.responders i).config)
    (genuine : ∀ reply ∈ sent, Genuine st'.drawn reply)
    (complete : (st'.responders i).complete = true → (st'.responders i).replySent = true ∧
      ∃ f ∈ st.finAcks, st'.completedBy i = some f.bytes ∧
        f.bytes = setupHashBytes .setupFinAck (st'.responders i).myHash (st'.responders i).nonce) :
    st'.Inv payloads where
  initiators := by
    rw [answered.initiators]
    exact inv.initiators
  words := words
  distinct := distinct
  replied := by
    intro k hsent
    by_cases hother : k = i
    · subst hother
      exact replied hsent
    · rw [(answered.others k hother).1] at hsent ⊢
      exact (inv.replied k hsent).mono answered.grown
  replies := by
    intro reply member
    rw [answered.replies] at member
    rcases List.mem_append.mp member with hold | hnew
    · exact (inv.replies reply hold).mono answered.grown
    · exact genuine reply hnew
  finAcks := by
    intro f member
    rw [answered.finAcks] at member
    rw [answered.replies]
    exact (inv.finAcks f member).mono sent
  complete := by
    intro k hcomplete
    rw [answered.finAcks]
    by_cases hother : k = i
    · subst hother
      exact complete hcomplete
    · obtain ⟨hresp, hby⟩ := answered.others k hother
      rw [hresp] at hcomplete ⊢
      rw [hby]
      exact inv.complete k hcomplete

theorem genuine_of_sent {drawn : List Draw} {nonce hash outCap : Nat} {config : SetupPayload}
    (replied : Replied drawn i nonce hash config) :
    ∀ reply ∈ ((encodeSetupHash .setupHashReply hash nonce outCap).map
      fun bytes => (⟨i, config, bytes⟩ : HashReply)).toList, Genuine drawn reply := by
  intro reply member
  obtain ⟨bytes, hbytes, rfl⟩ := Option.map_eq_some_iff.mp (Option.mem_toList.mp member)
  obtain ⟨hdrew, hfits, _, rfl⟩ := replied
  exact ⟨hfits, nonce, hdrew, encodeSetupHash_some hbytes⟩

theorem responded_answered (st : Handshakes) (i : Nat)
    (out : SetupResponder × Option (List UInt8)) :
    Answered st (st.responded i out) i
      (out.2.map fun bytes => (⟨i, out.1.config, bytes⟩ : HashReply)).toList where
  initiators := rfl
  finAcks := rfl
  others := fun _ other => ⟨Function.update_of_ne other _ _, rfl⟩
  grown := fun _ => id
  replies := rfl

theorem responded_self (st : Handshakes) (i : Nat) (out : SetupResponder × Option (List UInt8)) :
    (st.responded i out).responders i = out.1 :=
  Function.update_self i _ _

theorem Inv.responderTimeout (inv : st.Inv payloads) (i outCap nowNs : Nat) :
    (st.responded i ((st.responders i).onTimeout outCap nowNs)).Inv payloads := by
  have hwaited := (st.responders i).onTimeout_waited outCap nowNs
  generalize (st.responders i).onTimeout outCap nowNs = out at hwaited
  obtain ⟨resp, sent⟩ := out
  refine inv.answered (st.responded_answered i (resp, sent)) inv.words inv.distinct ?_ ?_ ?_
  · rw [responded_self]
    cases hwaited with
    | still | repeated => exact inv.replied i
  · cases hwaited with
    | still => exact nofun
    | repeated _ _ _ hsent => exact genuine_of_sent (inv.replied i hsent)
  · rw [responded_self]
    cases hwaited with
    | still | repeated => exact inv.complete i

/-- An offer leaves behind the nonce that was drawn for it, now or before. -/
theorem Inv.offered (inv : st.Inv payloads) {bytes : List UInt8} {p : SetupPayload}
    (incomplete : (st.responders i).complete = false) (fits : p.Fits)
    (valid : setupPayloadValid p = true)
    (offers : SetupResponder.offer bytes = some (p, setupBody p)) :
    Replied (st.drawn ++ st.drawing i random bytes) i
      (if (st.responders i).draws (setupBody p) then random else (st.responders i).nonce)
      (hash64 (setupBody p)) p := by
  have hdrawing : st.drawing i random bytes =
      if (st.responders i).draws (setupBody p) then [⟨random, i, hash64 (setupBody p)⟩]
      else [] := by
    rw [drawing, incomplete, offers]
    rfl
  refine ⟨?_, fits, valid, rfl⟩
  rw [hdrawing]
  split
  · exact List.mem_append_right _ (List.mem_singleton_self _)
  · rename_i hsame
    simp only [SetupResponder.draws, decide_eq_true_eq, not_or, Bool.not_eq_false,
      Decidable.not_not] at hsame
    rw [hsame.2, List.append_nil]
    exact (inv.replied i hsame.1).drew

theorem finAckSent_some {bytes : List UInt8} {decoded : Nat × Nat}
    (sent : st.finAckSent bytes = true)
    (hdecoded : decodeSetupHash .setupFinAck bytes = some decoded) :
    ∃ f ∈ st.finAcks, f.bytes = bytes := by
  rw [finAckSent, hdecoded] at sent
  obtain ⟨f, member, same⟩ := List.any_eq_true.mp sent
  exact ⟨f, member, of_decide_eq_true same⟩

theorem heard_answered (st : Handshakes) (i random : Nat) (bytes : List UInt8)
    (out : SetupResponder × Option (List UInt8)) :
    Answered st (st.heard i random bytes out) i
      (out.2.map fun bytes => (⟨i, out.1.config, bytes⟩ : HashReply)).toList where
  initiators := rfl
  finAcks := rfl
  others := by
    intro k other
    refine ⟨Function.update_of_ne other _ _, ?_⟩
    change (if _ then Function.update st.completedBy i _ else st.completedBy) k = _
    split
    · exact Function.update_of_ne other _ _
    · rfl
  grown := List.subset_append_left _ _
  replies := rfl

theorem Inv.toResponder (inv : st.Inv payloads) {bytes : List UInt8}
    (sent : st.finAckSent bytes = true) (fresh : (st.drawing i random bytes).all st.fresh = true)
    (outCap nowNs : Nat) :
    (st.heard i random bytes ((st.responders i).onDatagram random bytes outCap nowNs)).Inv
      payloads := by
  have hheard := (st.responders i).onDatagram_heard random bytes outCap nowNs
  generalize (st.responders i).onDatagram random bytes outCap nowNs = out at hheard
  obtain ⟨resp, reply⟩ := out
  obtain ⟨hwords, hdistinct⟩ := inv.drew fresh
  have hself : (st.heard i random bytes (resp, reply)).responders i = resp :=
    Function.update_self i _ _
  refine inv.answered (st.heard_answered i random bytes (resp, reply)) hwords hdistinct ?_ ?_ ?_
  · rw [hself]
    cases hheard with
    | ignored => exact fun hsent => (inv.replied i hsent).mono (List.subset_append_left _ _)
    | offered p incomplete fits valid offers =>
      intro _
      dsimp only
      exact inv.offered incomplete fits valid offers
    | confirmed => exact fun hsent => (inv.replied i hsent).mono (List.subset_append_left _ _)
  · cases hheard with
    | ignored => exact nofun
    | offered p incomplete fits valid offers =>
      exact genuine_of_sent (inv.offered incomplete fits valid offers)
    | confirmed => exact nofun
  · rw [hself]
    intro hcomplete
    cases hheard with
    | ignored =>
      have hby : (st.heard i random bytes (st.responders i, none)).completedBy =
          st.completedBy := by
        refine if_neg fun both => ?_
        rw [hcomplete] at both
        exact absurd both.2 nofun
      rw [hby]
      exact inv.complete i hcomplete
    | offered p incomplete =>
      rw [incomplete] at hcomplete
      cases hcomplete
    | confirmed hreplied hdecoded =>
      cases hbefore : (st.responders i).complete with
      | true =>
        have hby : (st.heard i random bytes
            ({ st.responders i with complete := true }, none)).completedBy =
              st.completedBy := by
          refine if_neg fun both => ?_
          rw [hbefore] at both
          exact absurd both.2 nofun
        rw [hby]
        exact inv.complete i hbefore
      | false =>
        obtain ⟨f, member, hbytes⟩ := finAckSent_some sent hdecoded
        obtain ⟨_, _, hform⟩ := decodeSetupHash_some hdecoded
        refine ⟨hreplied, f, member, ?_, hbytes.trans hform.symm⟩
        change (if _ then Function.update st.completedBy i (some bytes)
          else st.completedBy) i = _
        rw [if_pos ⟨rfl, hbefore⟩, Function.update_self, hbytes]

/-! ### Steps of initiators -/

theorem Inv.initiated (inv : st.Inv payloads) {j : Nat} {init : SetupInitiator}
    (same : SetupInitiator.Same (st.initiators j) init) : (st.initiated j init).Inv payloads where
  initiators := by
    intro k
    change (Function.update st.initiators j init k).payload = _ ∧
      (Function.update st.initiators j init k).myHash = _
    by_cases hother : k = j
    · subst hother
      rw [Function.update_self, same.payload, same.myHash]
      exact inv.initiators k
    · rw [Function.update_of_ne hother]
      exact inv.initiators k
  words := inv.words
  distinct := inv.distinct
  replied := inv.replied
  replies := inv.replies
  finAcks := inv.finAcks
  complete := inv.complete

/-- What an initiator confirms was sent to it. -/
theorem Inv.toInitiator (inv : st.Inv payloads) {j : Nat} {bytes : List UInt8}
    (sent : st.replySent bytes = true) (outCap nowNs : Nat) :
    ({ st.initiated j ((st.initiators j).onDatagram bytes outCap nowNs).1 with
      finAcks := st.finAcks ++ (((st.initiators j).onDatagram bytes outCap nowNs).2.map
        fun out => (⟨j, bytes, out, st.replies.length⟩ : FinAck)).toList } : Handshakes).Inv
          payloads := by
  obtain ⟨hsame, hconfirms⟩ := (st.initiators j).onDatagram_confirms bytes outCap nowNs
  have hinv := inv.initiated hsame
  refine { hinv with finAcks := ?_, complete := ?_ }
  · intro f member
    rcases List.mem_append.mp member with hold | hnew
    · exact inv.finAcks f hold
    · obtain ⟨out, hout, rfl⟩ := Option.map_eq_some_iff.mp (Option.mem_toList.mp hnew)
      obtain ⟨nonce, hnonce, hbytes, hform⟩ := hconfirms out hout
      have hdecoded : (decodeSetupHash .setupHashReply bytes).isNone = false := by
        rw [hbytes, decodeSetupHash_encode .setupHashReply rfl ?_ hnonce]
        · rfl
        · rw [(inv.initiators j).2]
          exact hash64_lt _
      rw [replySent, hdecoded] at sent
      obtain ⟨reply, member, same⟩ := List.any_eq_true.mp sent
      obtain ⟨k, hk, hreply⟩ := List.mem_iff_getElem.mp member
      rw [(inv.initiators j).2] at hbytes hform
      exact ⟨k, hk, reply, List.getElem?_eq_some_iff.mpr ⟨hk, hreply⟩, of_decide_eq_true same,
        nonce, hnonce, hbytes, hform⟩
  · intro i hcomplete
    obtain ⟨hreplied, f, member, hrest⟩ := inv.complete i hcomplete
    exact ⟨hreplied, f, List.mem_append_left _ member, hrest⟩

theorem Inv.step (inv : st.Inv payloads) (moved : st.step e = some st') : st'.Inv payloads := by
  cases e with
  | toResponder i random bytes outCap nowNs =>
    obtain ⟨hguard, moved⟩ := Option.ite_none_right_eq_some.mp moved
    cases moved
    exact inv.toResponder hguard.1 hguard.2 outCap nowNs
  | responderTimeout i outCap nowNs =>
    cases moved
    exact inv.responderTimeout i outCap nowNs
  | start j outCap nowNs =>
    cases moved
    exact inv.initiated ((st.initiators j).start_same outCap nowNs)
  | toInitiator j bytes outCap nowNs =>
    obtain ⟨hguard, moved⟩ := Option.ite_none_right_eq_some.mp moved
    cases moved
    exact inv.toInitiator hguard outCap nowNs
  | initiatorTimeout j outCap nowNs =>
    cases moved
    exact inv.initiated ((st.initiators j).onTimeout_same outCap nowNs)

end Steps

/-! ### One configuration for a nonce -/

/-- No offer that a responder takes up has the hash of a different configuration it
holds: one that gets no nonce of its own is the configuration held. -/
def apart (st : Handshakes) : HandshakeEvent → Bool
  | .toResponder i _ bytes _ _ =>
    (st.responders i).complete || (SetupResponder.offer bytes).all fun offered =>
      (st.responders i).draws offered.2 || offered.1 = (st.responders i).config
  | _ => true

/-- What a responder has replied under its present nonce was for its present
configuration. -/
def Single (st : Handshakes) : Prop :=
  ∀ i, (st.responders i).replySent = true → ∀ reply ∈ st.replies, reply.responder = i →
    reply.bytes = setupHashBytes .setupHashReply (st.responders i).myHash (st.responders i).nonce →
    reply.config = (st.responders i).config

theorem Single.answered {sent : List HashReply} (single : st.Single)
    (answered : Answered st st' i sent) (own : ∀ reply ∈ sent, reply.responder = i)
    (held : (st'.responders i).replySent = true → ∀ reply ∈ st.replies ++ sent,
      reply.responder = i → reply.bytes =
        setupHashBytes .setupHashReply (st'.responders i).myHash (st'.responders i).nonce →
      reply.config = (st'.responders i).config) :
    st'.Single := by
  intro k hsent reply member
  rw [answered.replies] at member
  by_cases hother : k = i
  · subst hother
    exact held hsent reply member
  · rw [(answered.others k hother).1] at hsent ⊢
    intro hfrom
    rcases List.mem_append.mp member with hold | hnew
    · exact single k hsent reply hold hfrom
    · exact absurd (hfrom.symm.trans (own reply hnew)) hother

theorem sent_mem {reply : HashReply} {config : SetupPayload} {sent : Option (List UInt8)}
    (member : reply ∈ (sent.map fun bytes => (⟨i, config, bytes⟩ : HashReply)).toList) :
    reply.responder = i ∧ reply.config = config := by
  obtain ⟨bytes, _, rfl⟩ := Option.map_eq_some_iff.mp (Option.mem_toList.mp member)
  exact ⟨rfl, rfl⟩

variable {payloads : Nat → SetupPayload}

/-- A reply sent so far does not carry a nonce that is drawn now. -/
theorem Inv.undrawn (inv : st.Inv payloads) {draw : Draw}
    (fresh : st.fresh draw = true) {reply : HashReply} (member : reply ∈ st.replies) {hash : Nat}
    (small : hash < 2 ^ 64) :
    reply.bytes ≠ setupHashBytes .setupHashReply hash draw.nonce := by
  intro same
  rw [Handshakes.fresh, Bool.and_eq_true, decide_eq_true_eq, List.all_eq_true] at fresh
  obtain ⟨_, nonce, hdrew, hbytes⟩ := inv.replies reply member
  rw [hbytes] at same
  have hdiffers : nonce ≠ draw.nonce := of_decide_eq_true (fresh.2 _ hdrew)
  exact hdiffers
    (setupHashBytes_inj rfl (hash64_lt _) small (inv.words _ hdrew).1 fresh.1 same).2

/-- An offer leaves one configuration under its nonce: a new nonce is in no reply yet,
and an old one stays with the configuration it was drawn for. -/
theorem Single.offered (single : st.Single)
    (inv : st.Inv payloads) {bytes : List UInt8} {p : SetupPayload}
    (incomplete : (st.responders i).complete = false)
    (offers : SetupResponder.offer bytes = some (p, setupBody p))
    (fresh : (st.drawing i random bytes).all st.fresh = true)
    (distinct : (st.responders i).draws (setupBody p) = true ∨ p = (st.responders i).config)
    {reply : HashReply} (member : reply ∈ st.replies) (own : reply.responder = i)
    (same : reply.bytes = setupHashBytes .setupHashReply (hash64 (setupBody p))
      (if (st.responders i).draws (setupBody p) then random else (st.responders i).nonce)) :
    reply.config = p := by
  cases hdraws : (st.responders i).draws (setupBody p) with
  | true =>
    rw [drawing, incomplete, offers] at fresh
    simp only [hdraws, if_true, List.all_cons, List.all_nil, Bool.and_true, Bool.false_eq_true,
      if_false] at fresh
    rw [hdraws] at same
    exact absurd same (inv.undrawn fresh member (hash64_lt _))
  | false =>
    have hheld := distinct.resolve_left (by rw [hdraws]; exact Bool.false_ne_true)
    simp only [SetupResponder.draws, decide_eq_false_iff_not, not_or, Bool.not_eq_false,
      Decidable.not_not] at hdraws
    rw [SetupResponder.draws, if_neg (by simp [hdraws]), hdraws.2] at same
    exact (single i hdraws.1 reply member own same).trans hheld.symm

theorem Single.step (single : st.Single) (inv : st.Inv payloads)
    (apart : st.apart e = true) (moved : st.step e = some st') : st'.Single := by
  cases e with
  | toResponder i random bytes outCap nowNs =>
    obtain ⟨hguard, moved⟩ := Option.ite_none_right_eq_some.mp moved
    cases moved
    have hheard := (st.responders i).onDatagram_heard random bytes outCap nowNs
    generalize (st.responders i).onDatagram random bytes outCap nowNs = out at hheard
    obtain ⟨resp, reply⟩ := out
    have hself : (st.heard i random bytes (resp, reply)).responders i = resp :=
      Function.update_self i _ _
    refine single.answered (st.heard_answered i random bytes (resp, reply))
      (fun reply member => (sent_mem member).1) ?_
    rw [hself]
    intro hsent reply member hfrom hbytes
    cases hheard with
    | ignored | confirmed =>
      rw [Option.map_none, Option.toList_none, List.append_nil] at member
      exact single i hsent reply member hfrom hbytes
    | offered p incomplete fits valid offers =>
      rcases List.mem_append.mp member with hold | hnew
      · rw [Handshakes.apart, incomplete, offers, Bool.false_or, Option.all_some, Bool.or_eq_true,
          decide_eq_true_eq] at apart
        dsimp only at hbytes
        exact single.offered inv incomplete offers hguard.2 apart hold hfrom hbytes
      · exact (sent_mem hnew).2
  | responderTimeout i outCap nowNs =>
    cases moved
    have hwaited := (st.responders i).onTimeout_waited outCap nowNs
    generalize (st.responders i).onTimeout outCap nowNs = out at hwaited
    obtain ⟨resp, sent⟩ := out
    refine single.answered (st.responded_answered i (resp, sent))
      (fun reply member => (sent_mem member).1) ?_
    rw [responded_self]
    intro hsent reply member hfrom hbytes
    rcases List.mem_append.mp member with hold | hnew
    · cases hwaited with
      | still | repeated => exact single i hsent reply hold hfrom hbytes
    · exact (sent_mem hnew).2
  | start =>
    cases moved
    exact single
  | toInitiator =>
    cases (Option.ite_none_right_eq_some.mp moved).2
    exact single
  | initiatorTimeout =>
    cases moved
    exact single

/-! ### A completed handshake -/

theorem step_complete (complete : (st.responders i).complete = true)
    (moved : st.step e = some st') :
    (st'.responders i).complete = true ∧ (st'.responders i).config = (st.responders i).config := by
  have hupdate : ∀ k resp, (k = i → resp.complete = true ∧ resp.config = (st.responders i).config) →
      (Function.update st.responders k resp i).complete = true ∧
        (Function.update st.responders k resp i).config = (st.responders i).config := by
    intro k resp hsame
    by_cases hother : i = k
    · subst hother
      rw [Function.update_self]
      exact hsame rfl
    · rw [Function.update_of_ne hother]
      exact ⟨complete, rfl⟩
  cases e with
  | toResponder k random bytes outCap nowNs =>
    cases (Option.ite_none_right_eq_some.mp moved).2
    refine hupdate k _ ?_
    rintro rfl
    exact (SetupResponder.onDatagram_complete complete random bytes outCap nowNs).2
  | responderTimeout k outCap nowNs =>
    cases moved
    refine hupdate k _ ?_
    rintro rfl
    exact (SetupResponder.onTimeout_complete complete outCap nowNs).2
  | start =>
    cases moved
    exact ⟨complete, rfl⟩
  | toInitiator =>
    cases (Option.ite_none_right_eq_some.mp moved).2
    exact ⟨complete, rfl⟩
  | initiatorTimeout =>
    cases moved
    exact ⟨complete, rfl⟩

theorem replay_complete {first last : Handshakes} {run : List HandshakeEvent}
    (replayed : replay step first run = some last)
    (complete : (first.responders i).complete = true) :
    (last.responders i).complete = true ∧
      (last.responders i).config = (first.responders i).config := by
  have hstep : ∀ st e st', (st.responders i).complete = true ∧
      (st.responders i).config = (first.responders i).config → step st e = some st' →
      (st'.responders i).complete = true ∧
        (st'.responders i).config = (first.responders i).config := by
    rintro st e st' ⟨hcomplete, hconfig⟩ moved
    obtain ⟨hcomplete', hconfig'⟩ := step_complete hcomplete moved
    exact ⟨hcomplete', hconfig'.trans hconfig⟩
  exact replay_preserves hstep replayed ⟨complete, rfl⟩

theorem serialized_inj {p p' : SetupPayload} (fits : p.Fits) (fits' : p'.Fits)
    (same : serialized p = setupBody p') : p = p' := by
  have hbody : setupBody p = setupBody p' := by
    rw [← same, serialized, serializeSetupPayload,
      if_neg fun beyond => beyond.elim (Nat.not_lt.mpr fits.count) (Nat.not_lt.mpr fits.ext),
      emit, if_neg ?_, Option.getD_some]
    have hcount := fits.count
    have hext := fits.ext
    rw [length_setupBody, kMaxSetupDatagramSize]
    omega
  have hdecoded := decodeSetupData_encode p fits
  rw [hbody, decodeSetupData_encode p' fits'] at hdecoded
  exact (Prod.mk.inj (Option.some.inj hdecoded)).1.symm

/-- The confirmation that completed a responder, traced back to a reply of that responder. -/
theorem Inv.traced (inv : st.Inv payloads) (complete : (st.responders i).complete = true) :
    ∃ f ∈ st.finAcks, st.completedBy i = some f.bytes ∧
      f.answers = setupHashBytes .setupHashReply (st.responders i).myHash (st.responders i).nonce ∧
      (st.responders i).myHash = hash64 (serialized (payloads f.initiator)) ∧
      ∃ k < f.heard, ∃ reply, st.replies[k]? = some reply ∧ reply.bytes = f.answers ∧
        reply.responder = i ∧ hash64 (setupBody reply.config) = (st.responders i).myHash := by
  obtain ⟨hsent, f, member, hby, hfinAck⟩ := inv.complete i complete
  obtain ⟨k, hk, reply, hreply, hanswers, nonce, hnonce, hform, hbytes⟩ := inv.finAcks f member
  have hheld := inv.replied i hsent
  have hwords : (st.responders i).nonce < 2 ^ 64 ∧ (st.responders i).myHash < 2 ^ 64 :=
    inv.words _ hheld.drew
  obtain ⟨hword, hhash⟩ := hwords
  -- the confirmation names the responder's own hash and nonce
  rw [hbytes] at hfinAck
  obtain ⟨hsame, rfl⟩ := setupHashBytes_inj rfl (hash64_lt _) hhash hnonce hword hfinAck
  obtain ⟨_, drawn, hdrew, hreplyBytes⟩ := inv.replies reply (List.mem_of_getElem? hreply)
  rw [hanswers, hform] at hreplyBytes
  obtain ⟨hsame', rfl⟩ := setupHashBytes_inj rfl (hash64_lt _) (hash64_lt _) hnonce
    (inv.words _ hdrew).1 hreplyBytes
  -- and nobody else drew that nonce
  obtain ⟨_, hresponder, hhashes⟩ := Draw.mk.inj (inv.distinct _ hdrew _ hheld.drew rfl)
  refine ⟨f, member, hby, ?_, hsame.symm, k, hk, reply, hreply, hanswers, hresponder, hhashes⟩
  rw [hform, ← hsame]

end Handshakes

/-- A responder completes only on a confirmation by an initiator with the hash it holds,
which answers one of its own replies; then it stays as it is.  As long as no offer
has the hash of a different configuration the responder holds, that reply was for the
very configuration it completes with. -/
theorem setup_agreement {responders : Nat → Nat × Nat} {initiators : Nat → SetupPayload × Nat × Nat}
    {run : List HandshakeEvent} {st : Handshakes} {i : Nat}
    (reached : replay Handshakes.step (Handshakes.create responders initiators) run = some st)
    (complete : (st.responders i).complete = true) :
    setupPayloadValid (st.responders i).config = true ∧
    (∃ f ∈ st.finAcks, st.completedBy i = some f.bytes ∧
      hash64 (setupBody (st.responders i).config) = hash64 (serialized (initiators f.initiator).1) ∧
      ((initiators f.initiator).1.Fits →
        serialized (initiators f.initiator).1 = setupBody (st.responders i).config →
        (initiators f.initiator).1 = (st.responders i).config) ∧
      ∃ k < f.heard, ∃ reply, st.replies[k]? = some reply ∧ reply.bytes = f.answers ∧
        reply.responder = i ∧
        hash64 (setupBody reply.config) = hash64 (setupBody (st.responders i).config) ∧
        (Along Handshakes.step (fun st e => st.apart e = true)
            (Handshakes.create responders initiators) run →
          reply.config = (st.responders i).config)) ∧
    ∀ more last, replay Handshakes.step st more = some last →
      (last.responders i).complete = true ∧
      (last.responders i).config = (st.responders i).config ∧
      (∀ random bytes outCap nowNs,
        ((last.responders i).onDatagram random bytes outCap nowNs).2 = none) ∧
      ∀ outCap nowNs, ((last.responders i).onTimeout outCap nowNs).2 = none := by
  have hcreated := Handshakes.create_inv responders initiators
  have inv : st.Inv fun j => (initiators j).1 :=
    replay_preserves (fun _ _ _ inv moved => inv.step moved) reached hcreated
  obtain ⟨f, member, hby, hanswers, hhash, k, hk, reply, hreply, hbytes, hresponder, hsame⟩ :=
    inv.traced complete
  have hsent := (inv.complete i complete).1
  have hheld := inv.replied i hsent
  refine ⟨hheld.valid, ⟨f, member, hby, hheld.hashes.symm.trans hhash,
    fun fits same => Handshakes.serialized_inj fits hheld.fits same, k, hk, reply, hreply, hbytes,
    hresponder, hsame.trans hheld.hashes, ?_⟩, ?_⟩
  · intro along
    have hstep : ∀ (st : Handshakes) (e : HandshakeEvent) (st' : Handshakes),
        st.Inv (fun j => (initiators j).1) ∧ st.Single → st.apart e = true →
        st.step e = some st' → st'.Inv (fun j => (initiators j).1) ∧ st'.Single :=
      fun _ _ _ kept apart moved => ⟨kept.1.step moved, kept.2.step kept.1 apart moved⟩
    exact (replay_preserves_along hstep reached along ⟨hcreated, nofun⟩).2 i hsent reply (List.mem_of_getElem? hreply) hresponder (hbytes.trans hanswers)
  · intro more last replayed
    obtain ⟨hcomplete, hconfig⟩ := Handshakes.replay_complete replayed complete
    exact ⟨hcomplete, hconfig,
      fun random bytes outCap nowNs =>
        (SetupResponder.onDatagram_complete hcomplete random bytes outCap nowNs).1,
      fun outCap nowNs => (SetupResponder.onTimeout_complete hcomplete outCap nowNs).1⟩

/-- One lossless stream of blocks of 1200 bytes. -/
def oneStream (window : Nat) (ext : List UInt8) : SetupPayload :=
  { numWorkers := 1
    streams := [{ streamFlags := kStreamFlagLossless, blockSize := 1200, windowSize := window }]
    ext := ext }

def oneParty (p : SetupPayload) : Handshakes :=
  Handshakes.create (fun _ => (0, 5)) (fun _ => (p, 0, 5))

section Exchange

variable (p : SetupPayload) (nonce : Nat)

def offering : HandshakeEvent :=
  .toResponder 0 nonce (putOuter .setupData ++ setupBody p) 18 1

def replying : HandshakeEvent :=
  .toInitiator 0 (setupHashBytes .setupHashReply (hash64 (setupBody p)) nonce) 18 2

def confirming : HandshakeEvent :=
  .toResponder 0 0 (setupHashBytes .setupFinAck (hash64 (setupBody p)) nonce) 18 3

end Exchange

/-- A second configuration is offered while the confirmation of the first is on its way. -/
def twoOffersRun (p q : SetupPayload) : List HandshakeEvent :=
  [.start 0 kMaxSetupDatagramSize 0, offering p 5, replying p 5, offering q 6, confirming p 5]

/-- The confirmation that comes too late is not taken, the one of the next offer is. -/
def retakenRun : List HandshakeEvent :=
  twoOffersRun (oneStream 64 []) (oneStream 65 []) ++
    [offering (oneStream 64 []) 7, replying (oneStream 64 []) 7, confirming (oneStream 64 []) 7]

theorem setup_agreement_retaken :
    ∃ st, replay Handshakes.step (oneParty (oneStream 64 [])) retakenRun = some st ∧
      (st.responders 0).complete = true ∧ (st.responders 0).nonce = 7 ∧
      setupPayloadValid (st.responders 0).config = true ∧
      ∃ f ∈ st.finAcks, ∃ k < f.heard, ∃ reply, st.replies[k]? = some reply ∧
        reply.bytes = f.answers ∧ reply.responder = 0 ∧
        reply.config = (st.responders 0).config := by
  obtain ⟨st, hreplay, hcomplete, hnonce⟩ : ∃ st,
      replay Handshakes.step (oneParty (oneStream 64 [])) retakenRun = some st ∧
        (st.responders 0).complete = true ∧ (st.responders 0).nonce = 7 := by decide +kernel
  have hapart : Along Handshakes.step (fun st e => st.apart e = true)
      (oneParty (oneStream 64 [])) retakenRun := by decide +kernel
  obtain ⟨hvalid, ⟨f, member, _, _, _, k, hk, reply, hreply, hbytes, hfrom, _, hconfig⟩, _⟩ :=
    setup_agreement hreplay hcomplete
  exact ⟨st, hreplay, hcomplete, hnonce, hvalid, f, member, k, hk, reply, hreply, hbytes, hfrom,
    hconfig hapart⟩

/-- Two configurations with one hash. -/
def firstTwin : SetupPayload :=
  oneStream 64 [0, 5, 0, 8, 0x18, 0x2b, 0xef, 0x94, 0xd1, 0xd7, 0xde, 0x56]

def secondTwin : SetupPayload :=
  oneStream 65 [0, 5, 0, 8, 0x6d, 0x63, 0xca, 0x02, 0x7c, 0x58, 0x07, 0x4a]

/-- A responder that is offered a second configuration with the hash of the first keeps the
nonce, and completes with the second on a confirmation of the first: nobody has
answered a reply for the configuration it holds. -/
theorem twin_offer_keeps_nonce :
    ∃ st, replay Handshakes.step (oneParty firstTwin) (twoOffersRun firstTwin secondTwin) = some st ∧
      (st.responders 0).complete = true ∧ (st.responders 0).config = secondTwin ∧
      (st.responders 0).nonce = 5 ∧
      ∀ f ∈ st.finAcks, ∀ k < f.heard, ∀ reply, st.replies[k]? = some reply →
        reply.bytes = f.answers → reply.config ≠ (st.responders 0).config := by
  obtain ⟨st, hreplay, hcomplete, hconfig, hnonce, hheard⟩ : ∃ st, replay Handshakes.step
      (oneParty firstTwin) (twoOffersRun firstTwin secondTwin) = some st ∧
      (st.responders 0).complete = true ∧ (st.responders 0).config = secondTwin ∧
      (st.responders 0).nonce = 5 ∧ ∀ f ∈ st.finAcks, ∀ k < f.heard,
        (st.replies[k]?).map HashReply.config = some firstTwin := by decide +kernel
  refine ⟨st, hreplay, hcomplete, hconfig, hnonce, fun f member k hk reply hreply _ => ?_⟩
  have hfirst := hheard f member k hk
  rw [hreply, Option.map_some, Option.some.injEq] at hfirst
  rw [hfirst, hconfig]
  decide

end FuseTransport.Proto
