import FuseTransport.Proto.Wire

/-!
# Session keys, lane ciphers and control authentication

The cryptographic backend is a parameter: an AEAD whose tag is appended to the
ciphertext, and a key derivation.  A backend call may also be refused, which is
an input of each operation below.  Data nonces end in two zero bytes and control
nonces in a one, so the two kinds never meet.
-/

namespace FuseTransport.Proto

open Foundation Foundation.BigEndian

def kAeadTagLen : Nat := 16
def kControlTrailerLen : Nat := 8 + kAeadTagLen
def kKeyEpochShift : Nat := 22

/-- What is asked of the backend: opening what was sealed under the same key,
nonce and associated data gives the plaintext back. -/
structure CryptoBackend where
  encrypt : (key nonce aad plain : List UInt8) → List UInt8
  decrypt : (key nonce aad sealed : List UInt8) → Option (List UInt8)
  expandLabel : (secret : List UInt8) → (label : String) → (context : List UInt8) → List UInt8
  length_encrypt : ∀ key nonce aad plain,
    (encrypt key nonce aad plain).length = plain.length + kAeadTagLen
  decrypt_encrypt : ∀ key nonce aad plain,
    decrypt key nonce aad (encrypt key nonce aad plain) = some plain

def tagBackend : CryptoBackend where
  encrypt := fun _ _ _ plain => plain ++ List.replicate kAeadTagLen 1
  decrypt := fun _ _ _ sealed =>
    if sealed.drop (sealed.length - kAeadTagLen) = List.replicate kAeadTagLen 1 then
      some (sealed.take (sealed.length - kAeadTagLen))
    else none
  expandLabel := fun secret _ _ => secret
  length_encrypt := by simp
  decrypt_encrypt := by simp

def buildNonce (lane seqNo : Nat) : List UInt8 :=
  put 2 lane ++ put 8 seqNo ++ [0, 0]

def controlNonce (lane ctr : Nat) (dir : UInt8) : List UInt8 :=
  put 2 lane ++ put 8 ctr ++ [dir, 1]

theorem buildNonce_ne_controlNonce (lane seqNo other ctr : Nat) (dir : UInt8) :
    buildNonce lane seqNo ≠ controlNonce other ctr dir := by
  intro same
  have htails := (List.append_inj same (by simp)).2
  cases htails

/-- Two nonces of one shape agree only on the same lane, number and ending. -/
theorem nonce_fields {lane other number another : Nat} {ending tail : List UInt8}
    (same : put 2 lane ++ put 8 number ++ ending = put 2 other ++ put 8 another ++ tail)
    (hlane : lane < 2 ^ 16) (hother : other < 2 ^ 16) (hnumber : number < 2 ^ 64)
    (hanother : another < 2 ^ 64) : lane = other ∧ number = another ∧ ending = tail := by
  obtain ⟨hfront, hback⟩ := List.append_inj same (by simp)
  obtain ⟨hlanes, hnumbers⟩ := List.append_inj hfront (by simp)
  have hread := congrArg get hlanes
  have hreadNumber := congrArg get hnumbers
  rw [get_put_of_lt hlane, get_put_of_lt hother] at hread
  rw [get_put_of_lt hnumber, get_put_of_lt hanother] at hreadNumber
  exact ⟨hread, hreadNumber, hback⟩

structure LaneCipher where
  key : List UInt8
  deriving DecidableEq, Repr

namespace LaneCipher

variable (backend : CryptoBackend)

variable (cipher : LaneCipher)

/-- Seal one block: ciphertext with its tag behind it, when the backend works. -/
def sealData (works : Bool) (lane seqNo : Nat) (aad plain : List UInt8) : Option (List UInt8) :=
  if works then some (backend.encrypt cipher.key (buildNonce lane seqNo) aad plain) else none

def openData (lane seqNo : Nat) (aad sealed : List UInt8) : Option (List UInt8) :=
  if sealed.length < kAeadTagLen then none
  else backend.decrypt cipher.key (buildNonce lane seqNo) aad sealed

theorem openData_encrypt (lane seqNo : Nat) (aad plain : List UInt8) :
    cipher.openData backend lane seqNo aad
      (backend.encrypt cipher.key (buildNonce lane seqNo) aad plain) = some plain := by
  have hlong : ¬ (backend.encrypt cipher.key (buildNonce lane seqNo) aad plain).length <
      kAeadTagLen := by
    rw [backend.length_encrypt]
    exact Nat.not_lt.mpr (Nat.le_add_left _ _)
  rw [openData, if_neg hlong, backend.decrypt_encrypt]

theorem sealData_eq_some {cipher : LaneCipher} {works : Bool} {lane seqNo : Nat}
    {aad plain sealed : List UInt8}
    (done : cipher.sealData backend works lane seqNo aad plain = some sealed) :
    sealed = backend.encrypt cipher.key (buildNonce lane seqNo) aad plain := by
  unfold sealData at done
  split at done
  · exact (Option.some.inj done).symm
  · cases done

end LaneCipher

section Schedule

variable (backend : CryptoBackend)

def deriveLaneEpochKey (sessionKey : List UInt8) (lane epoch : Nat) : List UInt8 :=
  backend.expandLabel sessionKey "lane key" (put 2 lane ++ put 8 epoch)

def laneKeyFor (sessionKey : List UInt8) (lane seqNo : Nat) : List UInt8 :=
  deriveLaneEpochKey backend sessionKey lane (seqNo >>> kKeyEpochShift)

structure EpochCipher (sessionKey : List UInt8) (lane : Nat) where
  epoch : Nat
  cipher : LaneCipher
  derived : cipher.key = deriveLaneEpochKey backend sessionKey lane epoch

/-- The ciphers of one lane; the two most recently derived are kept. -/
structure LaneKeySchedule (sessionKey : List UInt8) (lane : Nat) where
  slots : Fin 2 → Option (EpochCipher backend sessionKey lane) := fun _ => none
  next : Fin 2 := 0

end Schedule

namespace LaneKeySchedule

variable {backend : CryptoBackend} {sessionKey : List UInt8} {lane : Nat}

/-- No cipher has been derived yet. -/
def empty : LaneKeySchedule backend sessionKey lane := {}

variable (schedule : LaneKeySchedule backend sessionKey lane)

def held (epoch : Nat) : Option (EpochCipher backend sessionKey lane) :=
  ((List.finRange 2).filterMap schedule.slots).find? fun slot => slot.epoch == epoch

def cipherFor (derives : Bool) (seqNo : Nat) :
    Option LaneCipher × LaneKeySchedule backend sessionKey lane :=
  let epoch := seqNo >>> kKeyEpochShift
  match schedule.held epoch with
  | some slot => (some slot.cipher, schedule)
  | none =>
    if derives then
      let slot : EpochCipher backend sessionKey lane :=
        ⟨epoch, ⟨deriveLaneEpochKey backend sessionKey lane epoch⟩, rfl⟩
      (some slot.cipher,
        { slots := Function.update schedule.slots schedule.next (some slot)
          next := schedule.next + 1 })
    else (none, schedule)

/-- Whatever is remembered, a block's cipher has the key of its own epoch. -/
theorem cipherFor_key {schedule : LaneKeySchedule backend sessionKey lane} {derives : Bool}
    {seqNo : Nat} {cipher : LaneCipher}
    (found : (schedule.cipherFor derives seqNo).1 = some cipher) :
    cipher.key = laneKeyFor backend sessionKey lane seqNo := by
  unfold cipherFor at found
  cases remembered : schedule.held (seqNo >>> kKeyEpochShift) with
  | some slot =>
    simp only [remembered, Option.some.injEq] at found
    have hepoch := List.find?_some remembered
    rw [beq_iff_eq] at hepoch
    rw [← found, slot.derived, hepoch]
    rfl
  | none =>
    simp only [remembered] at found
    split at found
    · rw [← Option.some.inj found]
      rfl
    · cases found

end LaneKeySchedule

/-! ## Control authentication -/

/-- One end's control authenticator; `dir` tells the two ends apart. -/
structure ControlAuth where
  key : List UInt8
  lane : Nat
  dir : UInt8
  nextCtr : Nat := 1
  deriving DecidableEq, Repr

namespace ControlAuth

variable (backend : CryptoBackend)

def controlKey (sessionKey : List UInt8) : List UInt8 :=
  backend.expandLabel sessionKey "control key" []

def init (sessionKey : List UInt8) (lane : Nat) (localDir : UInt8) : ControlAuth where
  key := controlKey backend sessionKey
  lane := lane
  dir := localDir

def trailed (key dg : List UInt8) (lane ctr : Nat) (dir : UInt8) : List UInt8 :=
  dg ++ put 8 ctr ++ backend.encrypt key (controlNonce lane ctr dir) (dg ++ put 8 ctr) []

/-- Append the trailer.  The counter is spent even when the backend refuses. -/
def sealControl (auth : ControlAuth) (works : Bool) (dg : List UInt8) (cap : Nat) :
    Option (List UInt8) × ControlAuth :=
  if cap < dg.length + kControlTrailerLen then (none, auth)
  else
    (if works then some (trailed backend auth.key dg auth.lane auth.nextCtr auth.dir) else none,
      { auth with nextCtr := u64 (auth.nextCtr + 1) })

/-- The length of the body when the trailer verifies as the other end's. -/
def openControl (auth : ControlAuth) (dg : List UInt8) : Option Nat :=
  if dg.length < kControlTrailerLen then none
  else
    let body := dg.length - kControlTrailerLen
    (backend.decrypt auth.key (controlNonce auth.lane (getAt 8 body dg) (auth.dir ^^^ 1))
      (dg.take (body + 8)) (dg.drop (body + 8))).map fun _ => body

@[simp]
theorem length_trailed (key dg : List UInt8) (lane ctr : Nat) (dir : UInt8) :
    (trailed backend key dg lane ctr dir).length = dg.length + kControlTrailerLen := by
  simp [trailed, backend.length_encrypt, kControlTrailerLen]

/-- What one end seals the other end, which has the same key and lane, opens. -/
theorem openControl_trailed {auth : ControlAuth} {dg : List UInt8} {ctr : Nat} {dir : UInt8}
    (counted : ctr < 2 ^ 64) (other : auth.dir ^^^ 1 = dir) :
    auth.openControl backend (trailed backend auth.key dg auth.lane ctr dir) = some dg.length := by
  have hbody : (trailed backend auth.key dg auth.lane ctr dir).length - kControlTrailerLen =
      dg.length := by
    rw [length_trailed, Nat.add_sub_cancel]
  have hfront : (dg ++ put 8 ctr).length = dg.length + 8 := by simp
  have hctr : getAt 8 dg.length (trailed backend auth.key dg auth.lane ctr dir) = ctr := by
    rw [trailed, List.append_assoc, getAt_append _ _ (Nat.le_refl _), Nat.sub_self]
    exact getAt_put _ counted
  unfold openControl
  rw [if_neg (by rw [length_trailed]; exact Nat.not_lt.mpr (Nat.le_add_left _ _))]
  simp only [hbody, hctr, other]
  unfold trailed
  rw [← hfront, List.take_left', List.drop_left', backend.decrypt_encrypt]
  · rfl
  · rfl
  · rfl

end ControlAuth

end FuseTransport.Proto
