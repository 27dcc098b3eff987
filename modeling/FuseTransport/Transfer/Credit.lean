import Mathlib.Algebra.BigOperators.Group.List.Basic
import FuseTransport.Proto.Reencode
import FuseTransport.Transfer.Addresses
import FuseTransport.Transfer.Traffic

/-!
# What an address may be sent

Every datagram of our version is worth its length to its source.  An address that has not
echoed what a lane issued to it is sent messages of few types, and no more bytes than it has
credit for.
-/

namespace FuseTransport.Transfer

open Proto Foundation.Chronicle

def worth (dg : List UInt8) : Nat := if (peekMsgType dg).isSome then dg.length else 0

variable {type : MsgType}

theorem worth_of_peek {dg : List UInt8} (peeked : peekMsgType dg = some type) :
    worth dg = dg.length := by
  rw [worth, peeked]
  rfl

def totalBytes (sents : List Sent) : Nat := (sents.map fun s => s.bytes.length).sum

def Happening.received (a : PeerAddr) : Happening → Nat
  | .heard src dg => if src = a then worth dg else 0
  | _ => 0

def Happening.delivered (a : PeerAddr) : Happening → Nat
  | .sent dst s => if dst = a then s.bytes.length else 0
  | _ => 0

def bytesFrom (log : List Happening) (a : PeerAddr) : Nat := (log.map (Happening.received a)).sum

def bytesTo (log : List Happening) (a : PeerAddr) : Nat := (log.map (Happening.delivered a)).sum

@[simp]
theorem bytesFrom_append (log more : List Happening) (a : PeerAddr) :
    bytesFrom (log ++ more) a = bytesFrom log a + bytesFrom more a := by
  simp [bytesFrom]

@[simp]
theorem bytesTo_append (log more : List Happening) (a : PeerAddr) :
    bytesTo (log ++ more) a = bytesTo log a + bytesTo more a := by
  simp [bytesTo]

theorem bytesTo_sents (dst a : PeerAddr) (sents : List Sent) :
    bytesTo (sents.map (.sent dst)) a = if a = dst then totalBytes sents else 0 := by
  induction sents with
  | nil => simp [bytesTo, totalBytes]
  | cons s rest ih =>
    have hcons : bytesTo ((s :: rest).map (.sent dst)) a =
        (if dst = a then s.bytes.length else 0) + bytesTo (rest.map (.sent dst)) a := rfl
    have htotal : totalBytes (s :: rest) = s.bytes.length + totalBytes rest := rfl
    rw [hcons, ih, htotal]
    by_cases hsame : a = dst
    · rw [if_pos hsame, if_pos hsame, if_pos hsame.symm]
    · rw [if_neg hsame, if_neg hsame, if_neg (Ne.symm hsame)]

/-- A datagram from the address that carries its token, or a challenge issued to it. -/
def Echoes (prf : List UInt8 → Nat) (before : List Happening) (a : PeerAddr) (dg : List UInt8) : Prop :=
  (∃ ss, decodeStreamStart dg = some ss ∧ ss.token = addressToken prf a ss.nonce) ∨
    ∃ pp, decodePathProbe .pathResponse dg = some pp ∧ Challenged before a pp.challenge

/-- The address has echoed what was issued to it. -/
def Echoed (prf : List UInt8 → Nat) (log : List Happening) (a : PeerAddr) : Prop :=
  ∃ before dg after, log = before ++ .heard a dg :: after ∧ Echoes prf before a dg

variable {anchor : Anchor}

section Echoing

variable {prf : List UInt8 → Nat} {log : List Happening} {a : PeerAddr}

theorem Echoed.append (echoed : Echoed prf log a) (more : List Happening) :
    Echoed prf (log ++ more) a := by
  obtain ⟨before, dg, after, rfl, hechoes⟩ := echoed
  exact ⟨before, dg, after ++ more, by rw [List.append_assoc, List.cons_append], hechoes⟩

theorem JoinedBy.echoed (joined : JoinedBy prf log a) : Echoed prf log a := by
  obtain ⟨_, after, rfl, before, dg, ss, rfl, hdecoded, htoken⟩ := joined
  exact ⟨before, dg, .joined a :: after, by rw [List.append_assoc]; rfl, Or.inl ⟨ss, hdecoded, htoken⟩⟩

theorem MovedTo.echoed (moved : MovedTo log a) : Echoed prf log a := by
  obtain ⟨challenge, _, after, rfl, before, dg, pp, spell, rfl, hdecoded, rfl, hsince, hchallenged⟩ :=
    moved
  obtain ⟨_, _, front, rfl⟩ := hsince
  refine ⟨_, dg, .moved a pp.challenge :: after, by rw [List.append_assoc]; rfl,
    Or.inr ⟨pp, hdecoded, hchallenged.mono ?_⟩⟩
  exact fun h member => List.mem_append_right _ (List.mem_cons_of_mem _ member)

theorem Anchor.Sound.echoed (sound : anchor.Sound prf none) (peer : anchor.peer = some a) :
    Echoed prf anchor.log a := by
  rcases sound.bound peer with impossible | hjoined | hmoved
  · cases impossible
  · exact hjoined.echoed
  · exact hmoved.echoed

end Echoing

/-- A challenge only adds to what has happened. -/
theorem Anchor.log_probe (anchor : Anchor) (src : PeerAddr) (nowNs drawn : Nat) (sents : List Sent) :
    anchor.log <+: (anchor.probe src nowNs drawn sents).log := by
  have hconsidered : anchor.log <+: (anchor.consider src nowNs drawn).log := List.prefix_append _ _
  unfold Anchor.probe
  split
  · exact hconsidered
  · unfold Anchor.issue
    split <;> exact hconsidered.trans (List.prefix_append _ _)

/-- A message that may go to an address that has echoed nothing. -/
def Sent.Brief (s : Sent) : Prop :=
  ∃ type ∈ [MsgType.retry, .pathChallenge, .pathResponse, .fileDigest], peekMsgType s.bytes = some type

def gain (credit : PeerAddr → Nat) (a : PeerAddr) (n : Nat) : PeerAddr → Nat :=
  fun b => credit b + if b = a then n else 0

/-- What an address that has echoed nothing was sent, with its credit, is no more than what
came from it. -/
structure Frugal (prf : List UInt8 → Nat) (credit : PeerAddr → Nat) (log : List Happening) : Prop where
  bytes : ∀ a, ¬ Echoed prf log a → bytesTo log a + credit a ≤ bytesFrom log a
  kinds : ∀ a s, ¬ Echoed prf log a → .sent a s ∈ log → s.Brief

namespace Frugal

variable {prf : List UInt8 → Nat} {credit other : PeerAddr → Nat} {log more : List Happening}
  {src dst : PeerAddr} {sents : List Sent} {n : Nat}

theorem nil (prf : List UInt8 → Nat) : Frugal prf (fun _ => 0) [] :=
  ⟨fun _ _ => Nat.le_refl 0, fun _ _ _ member => absurd member List.not_mem_nil⟩

section

variable (frugal : Frugal prf credit log)
include frugal

theorem less (below : ∀ a, other a ≤ credit a) : Frugal prf other log :=
  ⟨fun a silent => Nat.le_trans (Nat.add_le_add_left (below a) _) (frugal.bytes a silent), frugal.kinds⟩

/-- What happens next is paid for by the credit and by what is heard. -/
theorem append
    (pays : ∀ a, ¬ Echoed prf log a → bytesTo more a + other a ≤ credit a + bytesFrom more a)
    (brief : ∀ a s, ¬ Echoed prf log a → .sent a s ∈ more → s.Brief) :
    Frugal prf other (log ++ more) := by
  constructor
  case bytes =>
    intro a hsilent
    have hbefore : ¬ Echoed prf log a := fun echoed => hsilent (echoed.append more)
    have hlog := frugal.bytes a hbefore
    have hmore := pays a hbefore
    rw [bytesTo_append, bytesFrom_append]
    omega
  case kinds =>
    intro a s hsilent member
    have hbefore : ¬ Echoed prf log a := fun echoed => hsilent (echoed.append more)
    rcases List.mem_append.mp member with hold | hnew
    · exact frugal.kinds a s hbefore hold
    · exact brief a s hbefore hnew

theorem quiet (aside : ∀ h ∈ more, ∀ a s dg,
    h ≠ .heard a dg ∧ h ≠ .sent a s) : Frugal prf credit (log ++ more) := by
  have hto : ∀ a, bytesTo more a = 0 := by
    intro a
    refine List.sum_eq_zero fun n member => ?_
    obtain ⟨h, hmem, rfl⟩ := List.mem_map.mp member
    cases h with
    | sent d s => exact absurd rfl (aside _ hmem d s []).2
    | heard | drew | unsigned | joined | moved => rfl
  refine frugal.append (fun a _ => ?_) fun a s _ member => absurd rfl (aside _ member a s []).2
  rw [hto a, Nat.zero_add]
  exact Nat.le_add_right _ _

theorem hear (src : PeerAddr) (dg : List UInt8) :
    Frugal prf (gain credit src (worth dg)) (log ++ [.heard src dg]) := by
  refine frugal.append (fun a _ => ?_) fun a s _ member => ?_
  · have hto : bytesTo [.heard src dg] a = 0 := rfl
    have hfrom : bytesFrom [.heard src dg] a = if a = src then worth dg else 0 := by
      exact if_congr eq_comm rfl rfl
    rw [hto, hfrom, Nat.zero_add]
    exact Nat.le_refl _
  · cases List.mem_singleton.mp member

end

/-- Datagrams leave for an address that has echoed, or that has the credit. -/
theorem send (frugal : Frugal prf (gain credit dst n) log)
    (pays : Echoed prf log dst ∨ totalBytes sents ≤ n ∧ ∀ s ∈ sents, s.Brief) :
    Frugal prf credit (log ++ sents.map (.sent dst)) := by
  refine frugal.append (fun a silent => ?_) fun a s silent member => ?_
  · rw [bytesTo_sents, gain]
    split
    · rename_i hsame
      subst hsame
      have hsize := (pays.resolve_left silent).1
      omega
    · omega
  · obtain ⟨sent, hsent, hsame⟩ := List.mem_map.mp member
    obtain ⟨rfl, rfl⟩ := Happening.sent.inj hsame
    exact (pays.resolve_left silent).2 _ hsent

theorem gain_zero (frugal : Frugal prf credit log) : Frugal prf (gain credit dst 0) log :=
  frugal.less fun a => by
    unfold gain
    split <;> exact Nat.le_refl _

/-- The credit of an address that has echoed does not matter. -/
theorem gain_echoed (frugal : Frugal prf credit log) (echoed : Echoed prf log dst) (n : Nat) :
    Frugal prf (gain credit dst n) log := by
  refine ⟨fun a silent => ?_, frugal.kinds⟩
  have hother : a ≠ dst := by
    rintro rfl
    exact silent echoed
  rw [gain, if_neg hother]
  exact frugal.bytes a silent

section

variable (frugal : Frugal prf credit anchor.log)
include frugal

theorem sendPeer (sound : anchor.Sound prf none) (sents : List Sent) :
    Frugal prf credit (anchor.sendPeer sents).log := by
  unfold Anchor.sendPeer Anchor.note
  cases hpeer : anchor.peer with
  | none =>
    simp only [Option.toList_none, List.flatMap_nil, List.append_nil]
    exact frugal
  | some peer =>
    simp only [Option.toList_some, List.flatMap_cons, List.flatMap_nil, List.append_nil]
    exact frugal.gain_zero.send (Or.inl (sound.echoed hpeer))

theorem respond (src : PeerAddr) (value : Nat) :
    Frugal prf credit (anchor.respond src value).log := by
  unfold Anchor.respond
  split
  · refine frugal.quiet fun h member a s dg => ?_
    rw [List.mem_singleton.mp member]
    exact ⟨nofun, nofun⟩
  · exact frugal

theorem join (src : PeerAddr) : Frugal prf credit (anchor.join src).log := by
  refine frugal.quiet fun h member a s dg => ?_
  rw [List.mem_singleton.mp member]
  exact ⟨nofun, nofun⟩

theorem consider (src : PeerAddr) (nowNs drawn : Nat) :
    Frugal prf credit (anchor.consider src nowNs drawn).log := by
  refine frugal.quiet fun h member a s dg => ?_
  split at member
  · cases member
  · rw [List.mem_singleton.mp member]
    exact ⟨nofun, nofun⟩

end

/-- A source is challenged: the challenge is paid for, or the source has echoed. -/
theorem probe (frugal : Frugal prf (gain credit src n) anchor.log) (nowNs drawn : Nat)
    (pays : Echoed prf anchor.log src ∨ totalBytes sents ≤ n ∧ ∀ s ∈ sents, s.Brief) :
    Frugal prf credit (anchor.probe src nowNs drawn sents).log := by
  have hconsidered := frugal.consider src nowNs drawn
  have hpays : Echoed prf (anchor.consider src nowNs drawn).log src ∨
      totalBytes sents ≤ n ∧ ∀ s ∈ sents, s.Brief := pays.imp_left fun echoed => echoed.append _
  unfold Anchor.probe
  split
  · exact hconsidered.less fun a => Nat.le_add_right _ _
  · unfold Anchor.issue
    split
    · refine (hconsidered.less fun a => Nat.le_add_right _ _).quiet fun h member a s dg => ?_
      rw [List.mem_singleton.mp member]
      exact ⟨nofun, nofun⟩
    · exact hconsidered.send hpays

end Frugal

/-! ## The size of replies -/

def trailerLen (signer : Option Signer) : Nat := if signer.isSome then kControlTrailerLen else 0

variable {n : Nat}

theorem totalBytes_toList {s : Option Sent} (bound : ∀ t ∈ s, t.bytes.length ≤ n) :
    totalBytes s.toList ≤ n := by
  cases s with
  | none => exact Nat.zero_le _
  | some t => exact bound t rfl

variable {cap : Nat}

theorem sealCtl_size (signer : Option Signer) (works : Bool) {dg : Option (List UInt8)}
    (size : ∀ body, dg = some body → body.length = n) :
    totalBytes (sealCtl signer works dg cap).1.toList ≤ n + trailerLen signer := by
  refine totalBytes_toList fun s member => ?_
  unfold sealCtl at member
  split at member
  · cases member
  · rename_i body
    cases member
    exact Nat.le_of_eq (size body rfl)
  · rename_i body g
    obtain ⟨bytes, hbytes, rfl⟩ := Option.map_eq_some_iff.mp member
    unfold ControlAuth.sealControl at hbytes
    split at hbytes
    · cases hbytes
    · cases works with
      | false => cases hbytes
      | true =>
        cases hbytes
        rw [ControlAuth.length_trailed, size body rfl]
        exact Nat.le_refl _

variable {works : Bool}

/-- What is sealed is of the type of its body. -/
theorem sealCtl_brief {signer : Option Signer} {dg : Option (List UInt8)}
    (kind : type ∈ [MsgType.retry, .pathChallenge, .pathResponse, .fileDigest])
    (outer : ∀ body, dg = some body → ∀ rest, checkOuter type (body ++ rest) = true) :
    ∀ s ∈ (sealCtl signer works dg cap).1.toList, s.Brief := by
  intro s member
  obtain ⟨bodies, hemits, hbodies, _⟩ := sealCtl_emits signer works dg cap
  obtain ⟨body, hbody, rest, hbytes⟩ := hemits.bytes member
  refine ⟨type, kind, ?_⟩
  rw [hbytes]
  exact peekMsgType_of_checkOuter (outer body (hbodies body hbody) rest)

theorem encodePathProbe_bytes {pp : PathProbe} {body : List UInt8}
    (encoded : encodePathProbe type pp cap = some body) : body = pathProbeBytes type pp := by
  unfold encodePathProbe at encoded
  split at encoded
  · cases encoded
  · exact emit_eq_some encoded

theorem sendPathProbe_paid (signer : Option Signer) (works : Bool)
    (kind : type = .pathChallenge ∨ type = .pathResponse) (lane nonce challenge : Nat) :
    totalBytes (sendPathProbe signer works type lane nonce challenge).1 ≤ 20 + trailerLen signer ∧
      ∀ s ∈ (sendPathProbe signer works type lane nonce challenge).1, s.Brief := by
  constructor
  · refine sealCtl_size signer works fun body encoded => ?_
    rw [encodePathProbe_bytes encoded, length_pathProbeBytes]
  · have houter : ∀ body,
        encodePathProbe type ⟨lane, nonce, challenge⟩ 64 = some body → ∀ rest,
          checkOuter type (body ++ rest) = true := by
      intro body encoded rest
      rw [encodePathProbe_bytes encoded]
      rcases kind with rfl | rfl <;> exact checkOuter_putOuter _ rfl _
    refine sealCtl_brief ?_ houter
    rcases kind with rfl | rfl <;> decide

namespace RecvLane

def fullSize (dg : List UInt8) : Nat :=
  match peekMsgType dg with
  | some .pathChallenge => 20 + kControlTrailerLen
  | some .fileDigest => 44 + kControlTrailerLen
  | _ => 0

/-- Under a key, an authentic message is as long as its fields and its signature. -/
def Whole (L : RecvLane) (dg : List UInt8) : Prop :=
  L.signer.isSome = true → ctlAuthentic L.signer dg = true → fullSize dg ≤ dg.length

variable {cfg : RxConfig} {lane : Nat} {sh : Shared} {L : RecvLane} {inp : Inputs} {dg : List UInt8}

/-- A message of `n` bytes, answered by one as long. -/
theorem answer_le (whole : L.Whole dg) (authentic : ctlAuthentic L.signer dg = true)
    (fields : n ≤ dg.length) (full : fullSize dg = n + kControlTrailerLen) :
    n + trailerLen L.signer ≤ dg.length := by
  unfold trailerLen
  split
  · rename_i hsigned
    rw [← full]
    exact whole hsigned authentic
  · exact fields

theorem onPathProbe_paid {pp : PathProbe} (whole : L.Whole dg)
    (decoded : decodePathProbe type dg = some pp) :
    totalBytes (onPathProbe lane works L dg type pp).2 ≤ dg.length ∧
      ∀ s ∈ (onPathProbe lane works L dg type pp).2, s.Brief := by
  obtain ⟨hpeek, _, hbytes⟩ := decodePathProbe_some decoded
  have hlong : 20 ≤ dg.length := by
    have hlength := congrArg List.length hbytes
    rw [length_pathProbeBytes, List.length_take] at hlength
    omega
  unfold onPathProbe
  split
  · exact ⟨Nat.zero_le _, nofun⟩
  · rename_i hpasses
    rw [not_or, not_or, Bool.not_eq_false, Bool.not_eq_false] at hpasses
    split
    · rename_i hkind
      subst hkind
      obtain ⟨hsize, hbrief⟩ :=
        sendPathProbe_paid L.signer works (Or.inr rfl) lane L.peerNonce pp.challenge
      refine ⟨Nat.le_trans hsize (answer_le whole hpasses.2.2 hlong ?_), hbrief⟩
      rw [fullSize, hpeek]
    · exact ⟨Nat.zero_le _, nofun⟩

theorem onFileDigest_paid {dm : DigestMessage} (whole : L.Whole dg)
    (decoded : decodeDigest dg = some dm) :
    totalBytes (onFileDigest lane works sh L dg dm).2.2 ≤ dg.length ∧
      ∀ s ∈ (onFileDigest lane works sh L dg dm).2.2, s.Brief := by
  obtain ⟨hpeek, ⟨_, _, hdigest⟩, hbytes⟩ := decodeDigest_some decoded
  have hlong : 44 ≤ dg.length := by
    have hlength := congrArg List.length hbytes
    rw [length_digestBytes dm hdigest, List.length_take] at hlength
    omega
  unfold onFileDigest
  split
  · exact ⟨Nat.zero_le _, nofun⟩
  · rename_i hpasses
    rw [not_or, not_or, not_or, Bool.not_eq_false, Bool.not_eq_false] at hpasses
    have hencoded : ∀ body, encodeDigest dm (kMaxAuxDatagramSize + 64) = some body →
        body = digestBytes dm := fun _ => emit_eq_some
    constructor
    · refine Nat.le_trans (sealCtl_size L.signer works fun body encoded => ?_)
        (answer_le whole hpasses.2.2.2 hlong ?_)
      · rw [hencoded body encoded, length_digestBytes dm hdigest]
      · rw [fullSize, hpeek]
    · have houter : ∀ body, encodeDigest dm (kMaxAuxDatagramSize + 64) = some body → ∀ rest,
          checkOuter .fileDigest (body ++ rest) = true := by
        intro body encoded rest
        rw [hencoded body encoded]
        exact checkOuter_digest dm rest
      exact sealCtl_brief (by decide) houter

/-- An opening message with the wrong token gets a shorter reply. -/
theorem onStreamStart_paid {ss : StreamStart} (decoded : decodeStreamStart dg = some ss)
    (wrong : ss.token ≠ inp.wantToken) :
    totalBytes (onStreamStart cfg lane inp sh L dg ss).2.2 ≤ dg.length ∧
      ∀ s ∈ (onStreamStart cfg lane inp sh L dg ss).2.2, s.Brief := by
  obtain ⟨_, hfits, hbytes⟩ := decodeStreamStart_some decoded
  have hlong : 80 ≤ dg.length := by
    have hlength := congrArg List.length hbytes
    rw [length_streamStartBytes ss hfits, List.length_take] at hlength
    omega
  rw [onStreamStart, if_pos wrong]
  dsimp only
  constructor
  · refine totalBytes_toList fun s member => ?_
    obtain ⟨body, hencoded, rfl⟩ := Option.map_eq_some_iff.mp member
    rw [emit_eq_some hencoded, length_retryBytes]
    omega
  · intro s member
    obtain ⟨body, hencoded, rfl⟩ := Option.map_eq_some_iff.mp (Option.mem_toList.mp member)
    refine ⟨.retry, by decide, ?_⟩
    have houter := checkOuter_retry ⟨lane, ss.nonce, inp.wantToken⟩ []
    rw [emit_eq_some hencoded]
    exact peekMsgType_of_checkOuter houter

/-- A datagram without the token of its source is answered briefly, if at all. -/
theorem onDatagram_paid {out : Shared × RecvLane × List Sent} (whole : L.Whole dg)
    (wrong : ∀ ss, decodeStreamStart dg = some ss → ss.token ≠ inp.wantToken)
    (done : onDatagram cfg lane inp sh L dg = some out) :
    totalBytes out.2.2 ≤ worth dg ∧ ∀ s ∈ out.2.2, s.Brief := by
  cases onDatagram_handled cfg lane sh L done with
  | ignored => exact ⟨Nat.zero_le _, nofun⟩
  | streamStart ss peeked decoded =>
    rw [worth_of_peek peeked]
    exact onStreamStart_paid decoded (wrong ss decoded)
  | streamClose => exact ⟨Nat.zero_le _, nofun⟩
  | pathProbe type pp peeked _ decoded =>
    rw [worth_of_peek peeked]
    exact onPathProbe_paid whole decoded
  | fileDigest dm peeked decoded =>
    rw [worth_of_peek peeked]
    exact onFileDigest_paid whole decoded
  | block => exact ⟨Nat.zero_le _, nofun⟩

end RecvLane

end FuseTransport.Transfer
