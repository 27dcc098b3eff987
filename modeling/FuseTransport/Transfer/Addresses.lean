import FuseTransport.Foundation.Chronicle
import FuseTransport.Transfer.Signing

/-!
# Addresses and their validation

Two things bind a lane to an address: the echo of a token that only a party at the address
can have received, and the echo of a random challenge that was sent there.  Both ends of a
lane keep one candidate for a new address at a time.
-/

namespace FuseTransport.Transfer

open Proto Foundation Foundation.BigEndian Foundation.Chronicle

/-- What is compared of the source of a datagram. -/
inductive PeerAddr where
  | inet (port : UInt16) (addr : Vector UInt8 4)
  | inet6 (port : UInt16) (addr : Vector UInt8 16)
  deriving DecidableEq, Repr

namespace PeerAddr

/-- The codes of the two address families. -/
def family : PeerAddr → Nat
  | inet .. => 2
  | inet6 .. => 10

def port : PeerAddr → Nat
  | inet port _ => port.toNat
  | inet6 port _ => port.toNat

def bytes : PeerAddr → List UInt8
  | inet _ addr => addr.toList
  | inet6 _ addr => addr.toList

end PeerAddr

/-- What the token of an address is computed from. -/
def tokenInput (a : PeerAddr) (nonce : Nat) : List UInt8 :=
  put 2 a.family ++ put 2 a.port ++ a.bytes ++ put 8 nonce

/-- The address-validation token, for a keyed function `prf` that only the lane knows; zero
is no token. -/
def addressToken (prf : List UInt8 → Nat) (a : PeerAddr) (nonce : Nat) : Nat :=
  if prf (tokenInput a nonce) ≠ 0 then prf (tokenInput a nonce) else 1

theorem PeerAddr.family_lt (a : PeerAddr) : a.family < 256 ^ 2 := by
  cases a <;> simp [family]

theorem PeerAddr.port_lt (a : PeerAddr) : a.port < 256 ^ 2 := by
  cases a with
  | inet port addr | inet6 port addr => exact port.toNat_lt

/-- Addresses of one family are of one length. -/
theorem PeerAddr.length_bytes {a b : PeerAddr} (same : a.family = b.family) :
    a.bytes.length = b.bytes.length := by
  cases a <;> cases b <;> simp_all [PeerAddr.bytes, PeerAddr.family]

theorem PeerAddr.eq_of_fields {a b : PeerAddr} (family : a.family = b.family)
    (port : a.port = b.port) (bytes : a.bytes = b.bytes) : a = b := by
  cases a <;> cases b
  · rw [UInt16.toNat_inj.mp port, Vector.toList_inj.mp bytes]
  · cases family
  · cases family
  · rw [UInt16.toNat_inj.mp port, Vector.toList_inj.mp bytes]

/-- Different addresses and nonces give the keyed function different inputs. -/
theorem tokenInput_injective {a b : PeerAddr} {nonce other : Nat} (word : nonce < 2 ^ 64)
    (otherWord : other < 2 ^ 64) (same : tokenInput a nonce = tokenInput b other) :
    a = b ∧ nonce = other := by
  unfold tokenInput at same
  simp only [List.append_assoc] at same
  obtain ⟨hfamily, hrest⟩ := List.append_inj same (by simp)
  obtain ⟨hport, hrest⟩ := List.append_inj hrest (by simp)
  have hfamilies := congrArg get hfamily
  have hports := congrArg get hport
  rw [get_put_of_lt a.family_lt, get_put_of_lt b.family_lt] at hfamilies
  rw [get_put_of_lt a.port_lt, get_put_of_lt b.port_lt] at hports
  obtain ⟨hbytes, hnonce⟩ := List.append_inj hrest (PeerAddr.length_bytes hfamilies)
  have hnonces := congrArg get hnonce
  rw [get_put_of_lt word, get_put_of_lt otherWord] at hnonces
  exact ⟨PeerAddr.eq_of_fields hfamilies hports hbytes, hnonces⟩

structure PathValidator where
  candidate : Option PeerAddr := none
  challenge : Nat := 0
  sentNs : Nat := 0
  active : Bool := false
  deriving DecidableEq, Repr

namespace PathValidator

variable (v : PathValidator)

/-- Another candidate takes the place of the one before, with a challenge of its own. -/
def consider (src : PeerAddr) (drawn : Nat) : PathValidator :=
  if v.active ∧ v.candidate = some src then v
  else { candidate := some src, challenge := u64 drawn, sentNs := 0, active := true }

/-- Traffic arrived from `src`, which is not the current peer: the challenge to send to it
now, if one is due.  `drawn` is the random number that a new candidate gets. -/
def wantProbe (src : PeerAddr) (nowNs drawn : Nat) : PathValidator × Option Nat :=
  let w := v.consider src drawn
  if w.sentNs ≠ 0 ∧ u64Sub nowNs w.sentNs < 50000000 then (w, none)
  else ({ w with sentNs := nowNs }, some w.challenge)

def validated (src : PeerAddr) (value : Nat) : PathValidator × Bool :=
  if v.active = false ∨ v.candidate ≠ some src ∨ value ≠ v.challenge then (v, false)
  else ({ v with active := false }, true)

end PathValidator

namespace PathValidator

variable {v : PathValidator} {src : PeerAddr}

theorem wantProbe_again (same : v.active = true ∧ v.candidate = some src) (nowNs drawn : Nat) :
    ∃ sentNs, (v.wantProbe src nowNs drawn).1 = { v with sentNs := sentNs } := by
  have hconsider : v.consider src drawn = v := if_pos same
  unfold wantProbe
  rw [hconsider]
  dsimp only
  split
  · exact ⟨v.sentNs, rfl⟩
  · exact ⟨nowNs, rfl⟩

theorem wantProbe_new (other : ¬ (v.active = true ∧ v.candidate = some src)) (nowNs drawn : Nat) :
    v.wantProbe src nowNs drawn = (⟨some src, u64 drawn, nowNs, true⟩, some (u64 drawn)) := by
  have hconsider : v.consider src drawn = ⟨some src, u64 drawn, 0, true⟩ := if_neg other
  unfold wantProbe
  rw [hconsider]
  exact if_neg fun impossible => impossible.1 rfl

end PathValidator

inductive Happening where
  | heard (src : PeerAddr) (dg : List UInt8)
  | drew (addr : PeerAddr) (challenge : Nat)
  | sent (dst : PeerAddr) (s : Sent)
  | unsigned (dst : PeerAddr) (challenge : Nat)
  | joined (addr : PeerAddr)
  | moved (addr : PeerAddr) (challenge : Nat)
  deriving DecidableEq, Repr

/-- The address an end sends to, its validator, and all that has happened, which the code
does not keep. -/
structure Anchor where
  peer : Option PeerAddr := none
  path : PathValidator := {}
  log : List Happening := []
  deriving DecidableEq, Repr

namespace Anchor

variable (a : Anchor)

def note (happenings : List Happening) : Anchor :=
  { a with log := a.log ++ happenings }

def hear (src : PeerAddr) (dg : List UInt8) : Anchor := a.note [.heard src dg]

/-- Datagrams leave for one address. -/
def send (dst : PeerAddr) (sents : List Sent) : Anchor :=
  a.note (sents.map (.sent dst))

def sendPeer (sents : List Sent) : Anchor :=
  a.note (a.peer.toList.flatMap fun dst => sents.map (.sent dst))

def join (src : PeerAddr) : Anchor := { a.note [.joined src] with peer := some src }

/-- The source is taken as candidate, if it is not already. -/
def consider (src : PeerAddr) (nowNs drawn : Nat) : Anchor :=
  { a.note (if a.path.active ∧ a.path.candidate = some src then [] else [.drew src (u64 drawn)]) with
    path := (a.path.wantProbe src nowNs drawn).1 }

/-- What has become of a challenge: it left, or it could not be signed. -/
def issue (dst : PeerAddr) (challenge : Nat) (sents : List Sent) : Anchor :=
  if sents = [] then a.note [.unsigned dst challenge] else a.send dst sents

/-- A source other than the peer is considered, and challenged if a challenge is due; `sents`
is what the challenge becomes on the wire. -/
def probe (src : PeerAddr) (nowNs drawn : Nat) (sents : List Sent) : Anchor :=
  match (a.path.wantProbe src nowNs drawn).2 with
  | none => a.consider src nowNs drawn
  | some challenge => (a.consider src nowNs drawn).issue src challenge sents

def respond (src : PeerAddr) (value : Nat) : Anchor :=
  if (a.path.validated src value).2 then
    { a.note [.moved src value] with peer := some src, path := (a.path.validated src value).1 }
  else a

end Anchor

/-! ## What binds an address -/

/-- Draws and moves: after one of these the earlier challenges are worth nothing. -/
def Happening.Settles : Happening → Prop
  | .drew .. => True
  | .moved .. => True
  | _ => False

def Sent.Challenges (s : Sent) (challenge : Nat) : Prop :=
  ∃ pp, decodePathProbe .pathChallenge s.bytes = some pp ∧ pp.challenge = challenge

/-- The challenge was sent to the address, unless it could not be signed. -/
def Challenged (log : List Happening) (a : PeerAddr) (challenge : Nat) : Prop :=
  (∃ s, .sent a s ∈ log ∧ s.Challenges challenge) ∨ .unsigned a challenge ∈ log

def TokenEchoed (prf : List UInt8 → Nat) (log : List Happening) (a : PeerAddr) : Prop :=
  ∃ before dg ss, log = before ++ [.heard a dg] ∧ decodeStreamStart dg = some ss ∧
    ss.token = addressToken prf a ss.nonce

/-- The latest happening: a response from the address with the challenge that was drawn when
it last became the candidate, and that was sent there since.  No other challenge has been
drawn in the meantime, and this one has validated nothing. -/
def ChallengeEchoed (log : List Happening) (a : PeerAddr) (challenge : Nat) : Prop :=
  ∃ before dg pp spell, log = before ++ [.heard a dg] ∧
    decodePathProbe .pathResponse dg = some pp ∧ pp.challenge = challenge ∧
    Since Happening.Settles before (.drew a challenge) spell ∧ Challenged spell a challenge

/-- The address became the peer by its token. -/
def JoinedBy (prf : List UInt8 → Nat) (log : List Happening) (a : PeerAddr) : Prop :=
  ∃ before after, log = before ++ .joined a :: after ∧ TokenEchoed prf before a

/-- The address became the peer by a challenge. -/
def MovedTo (log : List Happening) (a : PeerAddr) : Prop :=
  ∃ challenge before after, log = before ++ .moved a challenge :: after ∧
    ChallengeEchoed before a challenge

/-- A challenge validates the address it was drawn for and no other, and at most once before
another one is drawn. -/
def SpentOnce (log : List Happening) : Prop :=
  ∀ before spell after p q challenge value,
    log = before ++ .drew p challenge :: (spell ++ .moved q value :: after) →
    (∀ r other, .drew r other ∉ spell) →
    q = p ∧ value = challenge ∧ ∀ r other, .moved r other ∉ spell

def Binds (prf : List UInt8 → Nat) (log : List Happening) : Happening → Prop
  | .joined a => TokenEchoed prf log a
  | .moved a challenge => ChallengeEchoed log a challenge
  | _ => True

variable {more : List Happening}

theorem Challenged.mono {log : List Happening} {a : PeerAddr} {challenge : Nat}
    (challenged : Challenged log a challenge) (grows : log ⊆ more) :
    Challenged more a challenge := by
  rcases challenged with ⟨s, hsent, hcarries⟩ | hunsigned
  · exact Or.inl ⟨s, grows hsent, hcarries⟩
  · exact Or.inr (grows hunsigned)

variable {src : PeerAddr} {sents : List Sent}

namespace Anchor

variable {prf : List UInt8 → Nat} {first : Option PeerAddr} {a : Anchor}

/-- The validator's challenge is the latest one drawn, and was sent to the candidate. -/
def Tracks (a : Anchor) : Prop :=
  a.path.active = true → ∃ c spell, a.path.candidate = some c ∧
    Since Happening.Settles a.log (.drew c a.path.challenge) spell ∧
    Challenged spell c a.path.challenge

/-- An end whose peer is the one it began with or has proved its address. -/
structure Sound (prf : List UInt8 → Nat) (first : Option PeerAddr) (a : Anchor) : Prop where
  lawful : Lawful (Binds prf) a.log
  tracks : a.Tracks
  word : a.path.challenge < 2 ^ 64
  peer : ∀ p, a.peer = some p → first = some p ∨ .joined p ∈ a.log ∨
    ∃ challenge, .moved p challenge ∈ a.log

theorem Tracks.append (tracks : a.Tracks) (aside : ∀ h ∈ more, ¬ h.Settles) :
    (a.note more).Tracks := by
  intro hactive
  obtain ⟨c, spell, hcandidate, hsince, hchallenged⟩ := tracks hactive
  exact ⟨c, spell ++ more, hcandidate, hsince.append aside,
    hchallenged.mono (List.subset_append_left _ _)⟩

theorem issued_note (dst : PeerAddr) (challenge : Nat)
    (carries : ∀ s ∈ sents, s.Challenges challenge) :
    ∃ more, (∀ a : Anchor, a.issue dst challenge sents = a.note more) ∧
      (∀ h ∈ more, ¬ h.Settles ∧ ∀ log, Binds prf log h) ∧ Challenged more dst challenge := by
  cases sents with
  | nil =>
    refine ⟨[.unsigned dst challenge], fun _ => rfl, fun h member => ?_,
      Or.inr List.mem_cons_self⟩
    rw [List.mem_singleton.mp member]
    exact ⟨id, fun _ => trivial⟩
  | cons s rest =>
    refine ⟨(s :: rest).map (.sent dst), fun _ => rfl, fun h member => ?_,
      Or.inl ⟨s, List.mem_cons_self, carries s List.mem_cons_self⟩⟩
    obtain ⟨other, _, rfl⟩ := List.mem_map.mp member
    exact ⟨id, fun _ => trivial⟩

namespace Sound

theorem create (prf : List UInt8 → Nat) (first : Option PeerAddr) :
    Sound prf first { peer := first } :=
  ⟨lawful_nil _, fun impossible => Bool.noConfusion impossible, Nat.two_pow_pos 64,
    fun _ hpeer => Or.inl hpeer⟩

section

variable (sound : a.Sound prf first)
include sound

/-- Happenings that bind nothing and draw nothing. -/
theorem note (plain : ∀ h ∈ more, ¬ h.Settles ∧ ∀ log, Binds prf log h) :
    (a.note more).Sound prf first where
  lawful := sound.lawful.append fun h member => (plain h member).2
  tracks := sound.tracks.append fun h member => (plain h member).1
  word := sound.word
  peer := by
    intro p hpeer
    rcases sound.peer p hpeer with hfirst | hjoined | ⟨challenge, hmoved⟩
    · exact Or.inl hfirst
    · exact Or.inr (Or.inl (List.mem_append_left _ hjoined))
    · exact Or.inr (Or.inr ⟨challenge, List.mem_append_left _ hmoved⟩)

theorem hear (src : PeerAddr) (dg : List UInt8) : (a.hear src dg).Sound prf first := by
  refine sound.note fun h member => ?_
  rw [List.mem_singleton.mp member]
  exact ⟨id, fun _ => trivial⟩

theorem send (dst : PeerAddr) (sents : List Sent) : (a.send dst sents).Sound prf first := by
  refine sound.note fun h member => ?_
  obtain ⟨s, _, rfl⟩ := List.mem_map.mp member
  exact ⟨id, fun _ => trivial⟩

theorem sendPeer (sents : List Sent) : (a.sendPeer sents).Sound prf first := by
  refine sound.note fun h member => ?_
  obtain ⟨dst, _, hsent⟩ := List.mem_flatMap.mp member
  obtain ⟨s, _, rfl⟩ := List.mem_map.mp hsent
  exact ⟨id, fun _ => trivial⟩

theorem join (echoed : TokenEchoed prf a.log src) :
    (a.join src).Sound prf first where
  lawful := sound.lawful.snoc echoed
  tracks := sound.tracks.append fun h member => by
    rw [List.mem_singleton.mp member]
    exact id
  word := sound.word
  peer := by
    intro p hpeer
    obtain rfl : src = p := Option.some.inj hpeer
    exact Or.inr (Or.inl (List.mem_append_right _ List.mem_cons_self))

/-- Every challenge that is sent is a machine word. -/
theorem challenge_lt {nowNs drawn challenge : Nat}
    (due : (a.path.wantProbe src nowNs drawn).2 = some challenge) : challenge < 2 ^ 64 := by
  have hconsidered : (a.path.consider src drawn).challenge < 2 ^ 64 := by
    unfold PathValidator.consider
    split
    · exact sound.word
    · exact u64_lt drawn
  unfold PathValidator.wantProbe at due
  dsimp only at due
  split at due
  · cases due
  · obtain rfl := Option.some.inj due
    exact hconsidered

/-- A response from the source of the latest datagram. -/
theorem respond {dg : List UInt8} {pp : PathProbe}
    (decoded : decodePathProbe .pathResponse dg = some pp) :
    ((a.hear src dg).respond src pp.challenge).Sound prf first := by
  have hheard := sound.hear src dg
  unfold Anchor.respond
  split
  · rename_i hvalid
    change (a.path.validated src pp.challenge).2 = true at hvalid
    unfold PathValidator.validated at hvalid
    split at hvalid
    · cases hvalid
    rename_i hmatches
    rw [not_or, not_or, Bool.not_eq_false, not_not, not_not] at hmatches
    obtain ⟨hactive, hcandidate, hvalue⟩ := hmatches
    obtain ⟨c, spell, hcand, hsince, hchallenged⟩ := sound.tracks hactive
    obtain rfl : src = c := Option.some.inj (hcandidate.symm.trans hcand)
    rw [← hvalue] at hsince hchallenged
    have hechoed : ChallengeEchoed (a.hear src dg).log src pp.challenge :=
      ⟨a.log, dg, pp, spell, rfl, decoded, rfl, hsince, hchallenged⟩
    have hvalidated : (a.hear src dg).path.validated src pp.challenge =
        ({ a.path with active := false }, true) := by
      refine if_neg ?_
      rw [not_or, not_or, Bool.not_eq_false, not_not, not_not]
      exact ⟨hactive, hcandidate, hvalue⟩
    rw [hvalidated]
    refine ⟨hheard.lawful.snoc hechoed, fun impossible => Bool.noConfusion impossible, sound.word, ?_⟩
    intro p hpeer
    obtain rfl : src = p := Option.some.inj hpeer
    exact Or.inr (Or.inr ⟨pp.challenge, List.mem_append_right _ List.mem_cons_self⟩)
  · exact hheard

/-- A challenge is signed and sent, or it cannot be signed. -/
theorem issue (dst : PeerAddr) (challenge : Nat) (sents : List Sent) :
    (a.issue dst challenge sents).Sound prf first := by
  unfold Anchor.issue
  split
  · refine sound.note fun h member => ?_
    rw [List.mem_singleton.mp member]
    exact ⟨id, fun _ => trivial⟩
  · exact sound.send dst sents

/-- A source that is the candidate already. -/
theorem probe_again (nowNs drawn : Nat) (sents : List Sent)
    (same : a.path.active = true ∧ a.path.candidate = some src) :
    (a.probe src nowNs drawn sents).Sound prf first := by
  obtain ⟨sentNs, hpath⟩ := PathValidator.wantProbe_again same nowNs drawn
  have hconsider : a.consider src nowNs drawn = { a with path := { a.path with sentNs := sentNs } } := by
    rw [Anchor.consider, hpath, if_pos same, Anchor.note, List.append_nil]
  have hsound : (a.consider src nowNs drawn).Sound prf first := by
    rw [hconsider]
    exact ⟨sound.lawful, sound.tracks, sound.word, sound.peer⟩
  unfold Anchor.probe
  split
  · exact hsound
  · exact hsound.issue src _ sents

/-- A new candidate gets a challenge of its own, which is sent at once. -/
theorem probe_new (nowNs drawn : Nat)
    (other : ¬ (a.path.active = true ∧ a.path.candidate = some src))
    (carries : ∀ s ∈ sents, s.Challenges (u64 drawn)) :
    (a.probe src nowNs drawn sents).Sound prf first := by
  have hwant := PathValidator.wantProbe_new other nowNs drawn
  obtain ⟨more, hmore, hplain, hchallenged⟩ := issued_note src (u64 drawn) carries
  have hprobe : a.probe src nowNs drawn sents =
      { a with
        path := ⟨some src, u64 drawn, nowNs, true⟩
        log := a.log ++ [.drew src (u64 drawn)] ++ more } := by
    rw [Anchor.probe, hwant]
    dsimp only
    rw [hmore, Anchor.consider, hwant, if_neg other]
    rfl
  have hdrew : Binds prf a.log (.drew src (u64 drawn)) := trivial
  rw [hprobe]
  refine ⟨(sound.lawful.snoc hdrew).append fun h member => (hplain h member).2, ?_, u64_lt _, ?_⟩
  · intro _
    exact ⟨src, more, rfl, (Since.start trivial).append fun h member => (hplain h member).1,
      hchallenged⟩
  · intro p hpeer
    rcases sound.peer p hpeer with hfirst | hjoined | ⟨challenge, hmoved⟩
    · exact Or.inl hfirst
    · exact Or.inr (Or.inl (List.mem_append_left _ (List.mem_append_left _ hjoined)))
    · exact Or.inr (Or.inr ⟨challenge, List.mem_append_left _ (List.mem_append_left _ hmoved)⟩)

/-- A source other than the peer is considered, and challenged if a challenge is due. -/
theorem probe (src : PeerAddr) (nowNs drawn : Nat)
    (carries : ∀ challenge, (a.path.wantProbe src nowNs drawn).2 = some challenge →
      ∀ s ∈ sents, s.Challenges challenge) :
    (a.probe src nowNs drawn sents).Sound prf first := by
  by_cases hsame : a.path.active = true ∧ a.path.candidate = some src
  · exact sound.probe_again nowNs drawn sents hsame
  · refine sound.probe_new nowNs drawn hsame (carries _ ?_)
    rw [PathValidator.wantProbe_new hsame]

/-- The peer is the first one, or has echoed its token or a challenge. -/
theorem bound {p : PeerAddr} (peer : a.peer = some p) :
    first = some p ∨ JoinedBy prf a.log p ∨ MovedTo a.log p := by
  rcases sound.peer p peer with hfirst | hjoined | ⟨challenge, hmoved⟩
  · exact Or.inl hfirst
  · obtain ⟨before, after, hlog⟩ := List.append_of_mem hjoined
    exact Or.inr (Or.inl ⟨before, after, hlog, sound.lawful _ _ _ hlog⟩)
  · obtain ⟨before, after, hlog⟩ := List.append_of_mem hmoved
    exact Or.inr (Or.inr ⟨challenge, before, after, hlog, sound.lawful _ _ _ hlog⟩)

theorem spentOnce : SpentOnce a.log := by
  intro before spell after p q challenge value log latest
  have hsplit : a.log = (before ++ .drew p challenge :: spell) ++ .moved q value :: after := by
    rw [log, List.append_assoc, List.cons_append]
  obtain ⟨front, dg, pp, since, hheard, _, _, hsince, _⟩ := sound.lawful _ _ _ hsplit
  rcases List.eq_nil_or_concat spell with rfl | ⟨earlier, last, hspell⟩
  · obtain ⟨_, hlast⟩ := List.append_inj' hheard rfl
    cases hlast
  · rw [List.concat_eq_append] at hspell
    subst hspell
    rw [← List.cons_append, ← List.append_assoc] at hheard
    obtain ⟨hfront, hlast⟩ := List.append_inj' hheard rfl
    obtain ⟨hdraw, hsame⟩ := hsince.of_split hfront.symm trivial fun member =>
      latest q value (List.mem_append_left _ member)
    obtain ⟨rfl, rfl⟩ := Happening.drew.inj hdraw
    refine ⟨rfl, rfl, fun r other member => ?_⟩
    rcases List.mem_append.mp member with hearlier | hthere
    · rw [hsame] at hearlier
      exact hsince.2.1 _ hearlier trivial
    · rw [hlast] at hthere
      cases List.mem_singleton.mp hthere

end

end Sound

end Anchor

end FuseTransport.Transfer
