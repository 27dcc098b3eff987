import Mathlib.Logic.Function.Iterate
import FuseTransport.Proto.RoundTrip
import FuseTransport.Transfer.Signing

/-!
# What an end signs

Everything an end of a lane signs is a list of bodies, each with the counter that
is next when its turn comes.  What it then puts on the wire is some of these, some
of them several times.
-/

namespace FuseTransport.Transfer

open Proto

/-- The authenticator behind one more body. -/
def Signer.next (s : Signer) : Signer :=
  { s with auth := { s.auth with nextCtr := u64 (s.auth.nextCtr + 1) } }

structure Sent.Signs (signer : Option Signer) (i : Nat) (body : List UInt8) (s : Sent) : Prop where
  bytes : ∃ rest, s.bytes = body ++ rest
  carried : s.carried = signer.map fun g => controlSeal (Signer.next^[i] g).auth body

/-- The bodies an end signs in turn and the datagrams it makes of them. -/
structure Emits (signer after : Option Signer) (bodies : List (List UInt8)) (sents : List Sent) :
    Prop where
  next : after = signer.map Signer.next^[bodies.length]
  each : ∀ s ∈ sents, ∃ i body, bodies[i]? = some body ∧ s.Signs signer i body

namespace Emits

variable {signer middle after : Option Signer} {bodies more : List (List UInt8)}
  {sents others : List Sent}

theorem nil (signer : Option Signer) : Emits signer signer [] [] where
  next := by
    cases signer with
    | none | some g => rfl
  each := fun _ member => absurd member List.not_mem_nil

theorem append (first : Emits signer middle bodies sents) (second : Emits middle after more others) :
    Emits signer after (bodies ++ more) (sents ++ others) := by
  have hiterate : ∀ (i : Nat) (g : Signer),
      Signer.next^[i] (Signer.next^[bodies.length] g) = Signer.next^[bodies.length + i] g := by
    intro i g
    rw [Nat.add_comm, Function.iterate_add_apply]
  constructor
  case next =>
    rw [second.next, first.next, Option.map_map, List.length_append]
    refine congrArg (fun f => signer.map f) (funext fun g => ?_)
    exact hiterate more.length g
  case each =>
    intro s member
    rcases List.mem_append.mp member with hfirst | hsecond
    · obtain ⟨i, body, hbody, hsigns⟩ := first.each s hfirst
      have hinside := (List.getElem?_eq_some_iff.mp hbody).1
      exact ⟨i, body, by rw [List.getElem?_append_left hinside, hbody], hsigns⟩
    · obtain ⟨i, body, hbody, hsigns⟩ := second.each s hsecond
      refine ⟨bodies.length + i, body, ?_, hsigns.bytes, ?_⟩
      · rw [List.getElem?_append_right (Nat.le_add_right _ _), Nat.add_sub_cancel_left, hbody]
      · rw [hsigns.carried, first.next, Option.map_map]
        refine congrArg (fun f => signer.map f) (funext fun g => ?_)
        exact congrArg (fun g : Signer => controlSeal g.auth body) (hiterate i g)

/-- What is sent may be repeated or left out. -/
theorem subset (emits : Emits signer after bodies sents) (among : others ⊆ sents) :
    Emits signer after bodies others :=
  ⟨emits.next, fun s member => emits.each s (among member)⟩

end Emits

/-! ## The sealing functions -/

section Sealing

variable (signer : Option Signer)

theorem sealCtl_emits (works : Bool) (dg : Option (List UInt8)) (cap : Nat) :
    ∃ bodies, Emits signer (sealCtl signer works dg cap).2 bodies
        (sealCtl signer works dg cap).1.toList ∧ (∀ body ∈ bodies, dg = some body) ∧
      bodies.length ≤ 1 := by
  unfold sealCtl
  split
  · exact ⟨[], Emits.nil signer, nofun, Nat.zero_le _⟩
  · rename_i body
    refine ⟨[body], ⟨rfl, fun s member => ?_⟩, fun other member => ?_, Nat.le_refl _⟩
    · rw [Option.toList_some, List.mem_singleton] at member
      rw [member]
      exact ⟨0, body, rfl, ⟨[], (List.append_nil body).symm⟩, rfl⟩
    · rw [List.mem_singleton.mp member]
  · rename_i body g
    unfold ControlAuth.sealControl
    dsimp only
    split
    · exact ⟨[], Emits.nil _, nofun, Nat.zero_le _⟩
    · refine ⟨[body], ⟨rfl, fun s member => ?_⟩, fun other member => ?_, Nat.le_refl _⟩
      · cases works with
        | false => cases member
        | true =>
          rw [if_pos rfl, Option.map_some, Option.toList_some, List.mem_singleton] at member
          rw [member]
          refine ⟨0, body, rfl, ?_, rfl⟩
          rw [ControlAuth.trailed, List.append_assoc]
          exact ⟨_, rfl⟩
      · rw [List.mem_singleton.mp member]

theorem sendStreamClose_emits (works : Bool) (lane nonce : Nat) (reason : UInt8) :
    ∃ bodies, Emits signer (sendStreamClose signer works lane nonce reason).2 bodies
        (sendStreamClose signer works lane nonce reason).1 ∧
      (∀ body ∈ bodies,
        body = streamCloseBytes { streamId := lane, nonce := nonce, reason := reason }) ∧
      bodies.length ≤ 1 := by
  obtain ⟨bodies, hemits, hbodies, hfew⟩ := sealCtl_emits signer works
    (encodeStreamClose { streamId := lane, nonce := nonce, reason := reason } 64) 64
  refine ⟨bodies, hemits.subset fun s member => ?_, fun body member => ?_, hfew⟩
  · obtain ⟨first, hfirst, hcopy⟩ := List.mem_flatMap.mp member
    have hsame : s = first := by simpa using hcopy
    rw [hsame]
    exact hfirst
  · exact emit_eq_some (hbodies body member)

theorem sendPathProbe_emits (works : Bool) (type : MsgType) (lane nonce challenge : Nat) :
    ∃ bodies, Emits signer (sendPathProbe signer works type lane nonce challenge).2 bodies
        (sendPathProbe signer works type lane nonce challenge).1 ∧
      (∀ body ∈ bodies, (type = .pathChallenge ∨ type = .pathResponse) ∧ body =
        pathProbeBytes type { streamId := lane, nonce := nonce, challenge := challenge }) ∧
      bodies.length ≤ 1 := by
  obtain ⟨bodies, hemits, hbodies, hfew⟩ := sealCtl_emits signer works
    (encodePathProbe type { streamId := lane, nonce := nonce, challenge := challenge } 64) 64
  refine ⟨bodies, hemits, fun body member => ?_, hfew⟩
  have hencoded := hbodies body member
  obtain ⟨hkind, hencoded⟩ := Option.ite_none_left_eq_some.mp hencoded
  exact ⟨by by_contra hneither; exact hkind (not_or.mp hneither), emit_eq_some hencoded⟩

theorem foldl_encodePart_emits (works : Nat → Bool) (rrs : List ResumeRanges)
    (acc : List Sent × Option Signer) :
    ∃ bodies signed, Emits acc.2 (rrs.foldl (encodePart works) acc).2 bodies signed ∧
      (∀ body ∈ bodies, ∃ rr ∈ rrs, encodeResumeRanges rr 2048 = some body) ∧
      bodies.length ≤ rrs.length ∧
      ∀ s ∈ (rrs.foldl (encodePart works) acc).1, s ∈ acc.1 ∨ s ∈ signed ∨ s = ⟨[], none⟩ := by
  induction rrs generalizing acc with
  | nil => exact ⟨[], [], Emits.nil _, nofun, Nat.le_refl _, fun s member => Or.inl member⟩
  | cons rr rest ih =>
    obtain ⟨first, hfirst, hbodies, hone⟩ := sealCtl_emits acc.2 (works acc.1.length)
      (encodeResumeRanges rr 2048) 2048
    obtain ⟨later, signed, hlater, hnamed, hfew, hsent⟩ := ih (encodePart works acc rr)
    refine ⟨first ++ later, _, hfirst.append hlater, fun body member => ?_, ?_, fun s member => ?_⟩
    · rcases List.mem_append.mp member with hhere | hrest
      · exact ⟨rr, List.mem_cons_self, hbodies body hhere⟩
      · obtain ⟨other, hother, hencoded⟩ := hnamed body hrest
        exact ⟨other, List.mem_cons_of_mem _ hother, hencoded⟩
    · rw [List.length_append, List.length_cons]
      omega
    · rcases hsent s member with hacc | hsigned | hempty
      · rcases List.mem_append.mp hacc with hold | hnew
        · exact Or.inl hold
        · rw [List.mem_singleton] at hnew
          cases hout : (sealCtl acc.2 (works acc.1.length) (encodeResumeRanges rr 2048) 2048).1 with
          | none =>
            rw [hout] at hnew
            exact Or.inr (Or.inr hnew)
          | some sent =>
            rw [hout] at hnew
            refine Or.inr (Or.inl (List.mem_append_left _ ?_))
            rw [hnew]
            exact List.mem_singleton_self _
      · exact Or.inr (Or.inl (List.mem_append_right _ hsigned))
      · exact Or.inr (Or.inr hempty)

/-- The answer is the signed parts, and an empty datagram for a part that could not
be signed. -/
theorem encodeResumeAnswer_emits (works : Nat → Bool) (lane nonce : Nat) (resumed : Bool)
    (want : List ResumeRange) :
    ∃ bodies signed,
      Emits signer (encodeResumeAnswer signer works lane nonce resumed want).2 bodies signed ∧
      (∀ body ∈ bodies, ∃ rr ∈ resumeAnswer lane nonce resumed want, body = resumeRangesBytes rr) ∧
      bodies.length ≤ (resumeAnswer lane nonce resumed want).length ∧
      ∀ s ∈ (encodeResumeAnswer signer works lane nonce resumed want).1,
        s ∈ signed ∨ s = ⟨[], none⟩ := by
  obtain ⟨bodies, signed, hemits, hnamed, hfew, hsent⟩ := foldl_encodePart_emits works
    (resumeAnswer lane nonce resumed want) ([], signer)
  refine ⟨bodies, signed, hemits, fun body member => ?_, hfew, fun s member => ?_⟩
  · obtain ⟨rr, hrr, hencoded⟩ := hnamed body member
    obtain ⟨_, hencoded⟩ := Option.ite_none_left_eq_some.mp hencoded
    exact ⟨rr, hrr, emit_eq_some hencoded⟩
  · exact (hsent s member).resolve_left List.not_mem_nil

end Sealing

end FuseTransport.Transfer
