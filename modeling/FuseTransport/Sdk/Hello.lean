import FuseTransport.Foundation.Recents
import FuseTransport.Proto.SessionCrypto

/-!
# Opening an SDK connection

A client repeats its HELLO, a salt and a challenge, until a HelloAck arrives or its
time is over.  A listener answers with a salt of its own and, when it has a
pre-shared key, with the challenge sealed under the key of both salts.  It remembers
the last sixteen it has seen, so that a retry does not open a second connection.
-/

namespace FuseTransport.Sdk

open Foundation Foundation.Recents Proto

def kSessionSaltLen : Nat := 16
def kChallengeLen : Nat := 8
def kProofLen : Nat := kChallengeLen + kAeadTagLen

/-- The lane a proof is sealed under, with number 0. -/
def kProofLane : Nat := 0xFFFF

/-- The size of the listener's `recent`. -/
def kRecent : Nat := 16

structure Hello where
  salt : List UInt8
  challenge : List UInt8
  deriving DecidableEq, Repr

structure HelloAck where
  serverSalt : List UInt8
  proof : List UInt8
  deriving DecidableEq, Repr

/-- A message of two fields and nothing else. -/
def decodeFields (type : MsgType) (first second : Nat) (dg : List UInt8) :
    Option (List UInt8 × List UInt8) :=
  if dg.length ≠ kOuterHeaderSize + first + second then none
  else if checkOuter type dg = false then none
  else some ((dg.drop kOuterHeaderSize).take first,
    (dg.drop (kOuterHeaderSize + first)).take second)

def encodeHello (hello : Hello) : List UInt8 :=
  putOuter .hello ++ hello.salt ++ hello.challenge

def decodeHello (dg : List UInt8) : Option Hello :=
  (decodeFields .hello kSessionSaltLen kChallengeLen dg).map fun fields => ⟨fields.1, fields.2⟩

def encodeHelloAck (ack : HelloAck) : List UInt8 :=
  putOuter .helloAck ++ ack.serverSalt ++ ack.proof

def decodeHelloAck (dg : List UInt8) : Option HelloAck :=
  (decodeFields .helloAck kSessionSaltLen kProofLen dg).map fun fields => ⟨fields.1, fields.2⟩

theorem decodeFields_first {type : MsgType} {first second : Nat} {dg : List UInt8}
    {fields : List UInt8 × List UInt8} (decoded : decodeFields type first second dg = some fields) :
    fields.1.length = first := by
  unfold decodeFields at decoded
  split at decoded
  · cases decoded
  · split at decoded
    · cases decoded
    · cases decoded
      rw [List.length_take, List.length_drop]
      omega

theorem decodeHello_salt {dg : List UInt8} {hello : Hello} (decoded : decodeHello dg = some hello) :
    hello.salt.length = kSessionSaltLen := by
  obtain ⟨fields, hfields, rfl⟩ := Option.map_eq_some_iff.mp decoded
  exact decodeFields_first hfields

theorem decodeHelloAck_salt {dg : List UInt8} {ack : HelloAck}
    (decoded : decodeHelloAck dg = some ack) : ack.serverSalt.length = kSessionSaltLen := by
  obtain ⟨fields, hfields, rfl⟩ := Option.map_eq_some_iff.mp decoded
  exact decodeFields_first hfields

/-! ## The listener -/

inductive HandshakeError where
  | socket
  | internal
  | unsupported
  | auth
  deriving DecidableEq, Repr

structure HandshakeCrypto where
  backend : CryptoBackend
  deriveSessionKey : (psk salt : List UInt8) → List UInt8

structure Answer where
  key : Option (List UInt8)
  reply : List UInt8
  deriving DecidableEq, Repr

/-- What the system has for a connection: a socket, random bytes, and a backend that works. -/
structure Supplies where
  opens : Bool := true
  random : Option { bytes : List UInt8 // bytes.length = kSessionSaltLen } := none
  derives : Bool := true
  works : Bool := true

/-- The connection a listener makes for a HELLO that is not a repetition. -/
def answer (crypto : HandshakeCrypto) (psk : List UInt8) (hello : Hello) (has : Supplies) :
    Except HandshakeError Answer :=
  if has.opens = false then .error .socket
  else if psk = [] then
    .ok ⟨none, encodeHelloAck ⟨List.replicate kSessionSaltLen 0, List.replicate kProofLen 0⟩⟩
  else
    match has.random with
    | none => .error .internal
    | some ⟨serverSalt, _⟩ =>
      if has.derives = false then .error .unsupported
      else
        let key := crypto.deriveSessionKey psk (hello.salt ++ serverSalt)
        let cipher : LaneCipher := ⟨key⟩
        match cipher.sealData crypto.backend has.works kProofLane 0 [] hello.challenge with
        | none => .error .internal
        | some proof => .ok ⟨some key, encodeHelloAck ⟨serverSalt, proof⟩⟩

section Listener

variable {Addr : Type} [DecidableEq Addr]

structure Seen (Addr : Type) where
  addr : Addr
  challenge : List UInt8
  deriving DecidableEq

/-- A HELLO that was not a repetition, and what came of it. -/
structure Handshake (Addr : Type) where
  addr : Addr
  hello : Hello
  outcome : Except HandshakeError Answer

def Handshake.seen (h : Handshake Addr) : Seen Addr := ⟨h.addr, h.hello.challenge⟩

/-- The listener's ring, and all its handshakes, which the code does not keep. -/
structure Listener (Addr : Type) where
  recent : Nat → Option (Seen Addr) := fun _ => none
  recentAt : Nat := 0
  handshakes : List (Handshake Addr) := []

structure Arrival (Addr : Type) where
  addr : Addr
  dg : List UInt8
  has : Supplies := {}

namespace Listener

def isDuplicate (l : Listener Addr) (seen : Seen Addr) : Bool :=
  (List.range kRecent).any fun i => l.recent i = some seen

/-- One datagram in `fuse_accept`.  A HELLO is remembered before its connection is made. -/
def accept (crypto : HandshakeCrypto) (psk : List UInt8) (l : Listener Addr) (a : Arrival Addr) :
    Listener Addr :=
  match decodeHello a.dg with
  | none => l
  | some hello =>
    if l.isDuplicate ⟨a.addr, hello.challenge⟩ then l
    else
      { recent := Function.update l.recent l.recentAt (some ⟨a.addr, hello.challenge⟩)
        recentAt := (l.recentAt + 1) % kRecent
        handshakes := l.handshakes ++ [⟨a.addr, hello, answer crypto psk hello a.has⟩] }

/-- A listener that has seen these datagrams, whoever sent them. -/
def listen (crypto : HandshakeCrypto) (psk : List UInt8) (run : List (Arrival Addr)) :
    Listener Addr :=
  run.foldl (accept crypto psk) {}

structure Inv (crypto : HandshakeCrypto) (psk : List UInt8) (l : Listener Addr) : Prop where
  recalls : Recalls kRecent l.recentAt l.recent (l.handshakes.map Handshake.seen)
  spaced : Spaced kRecent (l.handshakes.map Handshake.seen)
  salts : ∀ h ∈ l.handshakes, h.hello.salt.length = kSessionSaltLen
  answered : ∀ h ∈ l.handshakes, ∃ has, h.outcome = answer crypto psk h.hello has

variable {crypto : HandshakeCrypto} {psk : List UInt8} {l : Listener Addr}

theorem Inv.isDuplicate_iff (inv : l.Inv crypto psk) (seen : Seen Addr) :
    l.isDuplicate seen = true ↔ Recent kRecent (l.handshakes.map Handshake.seen) seen := by
  rw [← inv.recalls.holds_iff, isDuplicate, List.any_eq_true]
  simp only [List.mem_range, decide_eq_true_eq]

theorem Inv.accept (inv : l.Inv crypto psk) (a : Arrival Addr) :
    (l.accept crypto psk a).Inv crypto psk := by
  unfold Listener.accept
  split
  · exact inv
  · rename_i hello hdecoded
    split
    · exact inv
    · rename_i hfresh
      rw [inv.isDuplicate_iff] at hfresh
      refine ⟨?_, ?_, List.forall_mem_append.mpr ⟨inv.salts, ?_⟩,
        List.forall_mem_append.mpr ⟨inv.answered, ?_⟩⟩
      · rw [List.map_append]
        exact inv.recalls.push
      · rw [List.map_append]
        exact inv.spaced.push hfresh
      · exact List.forall_mem_singleton.mpr (decodeHello_salt hdecoded)
      · exact List.forall_mem_singleton.mpr ⟨a.has, rfl⟩

theorem listen_inv (crypto : HandshakeCrypto) (psk : List UInt8) (run : List (Arrival Addr)) :
    (listen crypto psk run).Inv crypto psk :=
  List.foldlRecOn run (Listener.accept crypto psk)
    ⟨Recalls.empty kRecent, nofun, nofun, nofun⟩ fun _ inv a _ => inv.accept a

/-- A HELLO is taken for a repetition exactly when its address and challenge are among
the last sixteen, so between two answers to one connect there are sixteen others. -/
theorem hello_answered_once (crypto : HandshakeCrypto) (psk : List UInt8)
    (run : List (Arrival Addr)) :
    (∀ seen, (listen crypto psk run).isDuplicate seen = true ↔
      Recent kRecent ((listen crypto psk run).handshakes.map Handshake.seen) seen) ∧
    Spaced kRecent ((listen crypto psk run).handshakes.map Handshake.seen) :=
  ⟨(listen_inv crypto psk run).isDuplicate_iff, (listen_inv crypto psk run).spaced⟩

theorem answer_key {hello : Hello} {has : Supplies} {given : Answer} {key : List UInt8}
    (answered : answer crypto psk hello has = .ok given) (keyed : given.key = some key) :
    ∃ serverSalt, serverSalt.length = kSessionSaltLen ∧
      key = crypto.deriveSessionKey psk (hello.salt ++ serverSalt) := by
  grind [answer]

end Listener

/-! ## The client -/

structure Client where
  psk : List UInt8
  salt : List UInt8
  challenge : List UInt8

/-- Where a `fuse_connect` stands. -/
inductive Connect (Addr : Type) where
  | waiting
  | failed (error : HandshakeError)
  | connected (peer : Addr) (key : Option (List UInt8))
  deriving DecidableEq

namespace Client

variable (crypto : HandshakeCrypto) (client : Client)

/-- The key the client derives when a reply brings this salt. -/
def keyWith (serverSalt : List UInt8) : List UInt8 :=
  crypto.deriveSessionKey client.psk (client.salt ++ serverSalt)

def opened (ack : HelloAck) : Option (List UInt8) :=
  let cipher : LaneCipher := ⟨client.keyWith crypto ack.serverSalt⟩
  cipher.openData crypto.backend kProofLane 0 [] ack.proof

def onReply (a : Arrival Addr) : Connect Addr :=
  match decodeHelloAck a.dg with
  | none => .waiting
  | some ack =>
    if client.psk = [] then .connected a.addr none
    else if a.has.derives = false then .failed .unsupported
    else if client.opened crypto ack = some client.challenge then
      .connected a.addr (some (client.keyWith crypto ack.serverSalt))
    else .failed .auth

/-- The replies of one call; the first HelloAck settles it. -/
def connect : List (Arrival Addr) → Connect Addr
  | [] => .waiting
  | a :: rest =>
    match client.onReply crypto a with
    | .waiting => connect rest
    | settled => settled

/-- A reply whose proof, if it opens, is one the listener has made under that key. -/
def Genuine (l : Listener Addr) (a : Arrival Addr) : Prop :=
  ∀ ack ∈ decodeHelloAck a.dg, ∀ plain ∈ client.opened crypto ack,
    ∃ h ∈ l.handshakes, h.hello.challenge = plain ∧ ∃ given, h.outcome = .ok given ∧
      given.key = some (client.keyWith crypto ack.serverSalt)

variable {crypto client} {replies : List (Arrival Addr)} {peer : Addr} {key : Option (List UInt8)}

omit [DecidableEq Addr] in
theorem connect_eq_connected (connected : client.connect crypto replies = .connected peer key) :
    ∃ a ∈ replies, client.onReply crypto a = .connected peer key := by
  induction replies with
  | nil => cases connected
  | cons a rest ih =>
    unfold connect at connected
    split at connected
    · obtain ⟨found, member, hfound⟩ := ih connected
      exact ⟨found, List.mem_cons_of_mem _ member, hfound⟩
    · exact ⟨a, List.mem_cons_self, connected⟩

end Client

end Listener

namespace Client

def saltCrypto : HandshakeCrypto := ⟨tagBackend, fun _ salt => salt⟩

def oneClient : Client := ⟨[1], List.replicate 16 2, List.replicate 8 3⟩

def oneHello : Arrival Nat :=
  ⟨7, encodeHello ⟨oneClient.salt, oneClient.challenge⟩,
    { random := some ⟨List.replicate 16 4, rfl⟩ }⟩

/-- The answer comes from the port the connection has got. -/
def oneReply : Arrival Nat :=
  { addr := 8
    dg := encodeHelloAck ⟨List.replicate 16 4, List.replicate 8 3 ++ List.replicate 16 1⟩ }

end Client

end FuseTransport.Sdk
