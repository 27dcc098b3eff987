import FuseTransport.Foundation.Runs
import FuseTransport.Proto.Handshake

/-!
# Peers of other versions

A datagram of another protocol version is answered with three bytes that say which version we
speak.  Their layout is the same in all versions, and they are not answered themselves.  The
two ends of an exchange are builds of the same code with different versions, so the version is
a parameter here.
-/

namespace FuseTransport.Proto

open Foundation.Runs

def kVersionMismatchMarker : UInt8 := 0xFF
def kVersionMismatchSize : Nat := 3

def peekMsgTypeAs (ours : UInt8) : List UInt8 → Option MsgType
  | version :: code :: _ => if version = ours then some (MsgType.ofCode code) else none
  | _ => none

theorem peekMsgTypeAs_ours (dg : List UInt8) :
    peekMsgTypeAs kProtocolVersion dg = peekMsgType dg := by
  match dg with
  | [] => rfl
  | [_] => rfl
  | _ :: _ :: _ => rfl

def isForeignVersion (ours : UInt8) : List UInt8 → Bool
  | version :: marker :: _ => version != ours && marker != kVersionMismatchMarker
  | _ => false

def encodeVersionMismatch (ours : UInt8) (outCap : Nat) : Option (List UInt8) :=
  if outCap < kVersionMismatchSize then none else some [ours, kVersionMismatchMarker, ours]

def decodeVersionMismatch (ours : UInt8) : List UInt8 → Option UInt8
  | version :: marker :: again :: _ =>
    if marker ≠ kVersionMismatchMarker ∨ version ≠ again ∨ version = ours then none
    else some version
  | _ => none

structure VersionPeer where
  version : UInt8
  lastVersionReplyNs : Nat := 0
  deriving DecidableEq, Repr

/-- The two receivers that answer: a lane's reader and the multiplexed receiver's handshake. -/
inductive VersionLoop where
  | recvLane
  | runSetupHandshake
  deriving DecidableEq, Repr

/-- The room for the reply. -/
def VersionLoop.outCap : VersionLoop → Nat
  | .recvLane => kMaxAuxDatagramSize + 64
  | .runSetupHandshake => kMaxSetupDatagramSize

namespace VersionPeer

/-- Tell a peer our version, at most every 100 ms. -/
def reply (peer : VersionPeer) (outCap nowNs : Nat) : VersionPeer × Option (List UInt8) :=
  if u64Sub nowNs peer.lastVersionReplyNs > 100000000 then
    ({ peer with lastVersionReplyNs := nowNs }, encodeVersionMismatch peer.version outCap)
  else (peer, none)

/-- What a received datagram has to do with versions.  A lane's reader looks at the version
only when it cannot read the type. -/
def onDatagram (peer : VersionPeer) (loop : VersionLoop) (dg : List UInt8) (nowNs : Nat) :
    VersionPeer × Option (List UInt8) :=
  match loop with
  | .recvLane =>
    if peekMsgTypeAs peer.version dg = none ∧ isForeignVersion peer.version dg then
      peer.reply loop.outCap nowNs
    else (peer, none)
  | .runSetupHandshake =>
    if isForeignVersion peer.version dg then peer.reply loop.outCap nowNs else (peer, none)

end VersionPeer

theorem isForeignVersion_iff (ours : UInt8) (dg : List UInt8) :
    isForeignVersion ours dg = true ↔ ∃ version marker rest, dg = version :: marker :: rest ∧
      version ≠ ours ∧ marker ≠ kVersionMismatchMarker := by
  match dg with
  | [] => simp [isForeignVersion]
  | [_] => simp [isForeignVersion]
  | version :: marker :: rest => simp [isForeignVersion]

variable {dg : List UInt8}

/-- A datagram of another version has no type for us. -/
theorem peekMsgTypeAs_foreign {ours : UInt8} (foreign : isForeignVersion ours dg = true) :
    peekMsgTypeAs ours dg = none := by
  obtain ⟨version, marker, rest, rfl, hversion, _⟩ := (isForeignVersion_iff ours dg).mp foreign
  exact if_neg hversion

/-- A datagram of our own version is not foreign. -/
theorem isForeignVersion_own (ours : UInt8) (rest : List UInt8) :
    isForeignVersion ours (ours :: rest) = false := by
  cases rest with
  | nil => rfl
  | cons marker rest => simp [isForeignVersion]

/-- No build takes a reply for a datagram that is to be answered. -/
theorem isForeignVersion_reply (theirs version : UInt8) :
    isForeignVersion theirs [version, kVersionMismatchMarker, version] = false := by
  simp [isForeignVersion]

/-- Every other build reads our version from the reply. -/
theorem decodeVersionMismatch_reply {ours theirs : UInt8} (other : theirs ≠ ours) :
    decodeVersionMismatch theirs [ours, kVersionMismatchMarker, ours] = some ours := by
  simp [decodeVersionMismatch, other.symm]

variable {nowNs : Nat}

namespace VersionPeer

variable (peer : VersionPeer) (loop : VersionLoop)

theorem onDatagram_eq (dg : List UInt8) (nowNs : Nat) : peer.onDatagram loop dg nowNs =
      if isForeignVersion peer.version dg then peer.reply loop.outCap nowNs else (peer, none) := by
  cases loop with
  | runSetupHandshake => rfl
  | recvLane =>
    cases hforeign : isForeignVersion peer.version dg with
    | false => simp [onDatagram, hforeign]
    | true => simp [onDatagram, hforeign, peekMsgTypeAs_foreign hforeign]

theorem reply_some {peer : VersionPeer} {outCap : Nat} {out : List UInt8}
    (sent : (peer.reply outCap nowNs).2 = some out) :
    out = [peer.version, kVersionMismatchMarker, peer.version] := by
  unfold reply encodeVersionMismatch at sent
  split at sent
  · split at sent
    · cases sent
    · exact (Option.some.inj sent).symm
  · cases sent

/-- A reply answers a foreign datagram and says our version. -/
theorem onDatagram_some {peer : VersionPeer} {loop : VersionLoop} {out : List UInt8}
    (sent : (peer.onDatagram loop dg nowNs).2 = some out) :
    isForeignVersion peer.version dg = true ∧
      out = [peer.version, kVersionMismatchMarker, peer.version] := by
  rw [onDatagram_eq] at sent
  split at sent
  · rename_i hforeign
    exact ⟨hforeign, reply_some sent⟩
  · cases sent

/-- A peer that has not answered for 100 ms answers every foreign datagram. -/
theorem onDatagram_foreign (foreign : isForeignVersion peer.version dg = true)
    (rested : u64Sub nowNs peer.lastVersionReplyNs > 100000000) :
    (peer.onDatagram loop dg nowNs).2 =
      some [peer.version, kVersionMismatchMarker, peer.version] := by
  have hroom : ¬ loop.outCap < kVersionMismatchSize := by
    cases loop <;> decide
  rw [onDatagram_eq, if_pos foreign, reply, if_pos rested]
  exact if_neg hroom

/-- Nobody answers a reply. -/
theorem onDatagram_reply (version : UInt8) (nowNs : Nat) :
    (peer.onDatagram loop [version, kVersionMismatchMarker, version] nowNs).2 = none := by
  rw [onDatagram_eq, isForeignVersion_reply]
  rfl

end VersionPeer

/-! ## Two peers -/

inductive VersionEnd where
  | first
  | second
  deriving DecidableEq, Repr

def VersionEnd.other : VersionEnd → VersionEnd
  | .first => .second
  | .second => .first

/-- A datagram on its way.  Which datagram it goes back to, and whether it is a reply, is known
only here. -/
structure VersionPacket where
  towards : VersionEnd
  bytes : List UInt8
  original : Nat
  isReply : Bool
  deriving DecidableEq, Repr

/-- Two receivers that hear each other.  `sent` datagrams were sent that are no replies, and
`replies` names the one that each reply goes back to. -/
structure VersionExchange where
  peers : VersionEnd → VersionPeer
  inFlight : List VersionPacket := []
  sent : Nat := 0
  replies : List Nat := []

/-- Either end sends any bytes; a datagram arrives, in any order, or is lost. -/
inductive VersionEvent where
  | send (towards : VersionEnd) (bytes : List UInt8)
  | arrives (k : Nat) (loop : VersionLoop) (nowNs : Nat)
  | lost (k : Nat)
  deriving DecidableEq, Repr

variable {k : Nat} {packet : VersionPacket}

namespace VersionExchange

def start (ours theirs : UInt8) : VersionExchange where
  peers := fun side => match side with
    | .first => { version := ours }
    | .second => { version := theirs }

variable (st : VersionExchange)

/-- A datagram has been taken off the wire and handled. -/
def handled (k : Nat) (packet : VersionPacket)
    (answer : VersionPeer × Option (List UInt8)) : VersionExchange :=
  let heard : VersionExchange :=
    { st with
      peers := Function.update st.peers packet.towards answer.1
      inFlight := st.inFlight.eraseIdx k }
  match answer.2 with
  | none => heard
  | some out =>
    { heard with
      inFlight := heard.inFlight ++ [⟨packet.towards.other, out, packet.original, true⟩]
      replies := st.replies ++ [packet.original] }

def step : VersionEvent → Option VersionExchange
  | .send towards bytes =>
    some { st with
      inFlight := st.inFlight ++ [⟨towards, bytes, st.sent, false⟩]
      sent := st.sent + 1 }
  | .arrives k loop nowNs =>
    st.inFlight[k]?.map fun packet =>
      st.handled k packet ((st.peers packet.towards).onDatagram loop packet.bytes nowNs)
  | .lost k => if k < st.inFlight.length then some { st with inFlight := st.inFlight.eraseIdx k } else none

def uses (original : Nat) : Nat :=
  st.inFlight.countP (fun packet => packet.original = original ∧ packet.isReply = false) +
    st.replies.count original

/-- Replies look like replies, and a datagram is on its way or answered at most once. -/
structure Inv (st : VersionExchange) : Prop where
  replies : ∀ packet ∈ st.inFlight, packet.isReply = true →
    ∃ version, packet.bytes = [version, kVersionMismatchMarker, version]
  once : ∀ original, st.uses original ≤ 1
  fresh : ∀ original, st.sent ≤ original → st.uses original = 0

theorem start_inv (ours theirs : UInt8) : (start ours theirs).Inv where
  replies := fun _ member => absurd member List.not_mem_nil
  once := fun _ => Nat.zero_le _
  fresh := fun _ _ => rfl

namespace Inv

variable {st : VersionExchange}

theorem send (inv : st.Inv) (towards : VersionEnd) (bytes : List UInt8) :
    Inv { st with
      inFlight := st.inFlight ++ [⟨towards, bytes, st.sent, false⟩]
      sent := st.sent + 1 } := by
  have huses : ∀ original, uses { st with
        inFlight := st.inFlight ++ [⟨towards, bytes, st.sent, false⟩]
        sent := st.sent + 1 } original =
      st.uses original + if st.sent = original then 1 else 0 := by
    intro original
    simp only [uses, List.countP_append, List.countP_singleton, decide_eq_true_eq, and_true]
    exact Nat.add_right_comm _ _ _
  constructor
  case replies =>
    intro packet member hreply
    rcases List.mem_append.mp member with hold | hnew
    · exact inv.replies packet hold hreply
    · rw [List.mem_singleton.mp hnew] at hreply
      cases hreply
  case once =>
    intro original
    rw [huses]
    split
    · rename_i hsame
      rw [inv.fresh original (Nat.le_of_eq hsame)]
    · exact inv.once original
  case fresh =>
    intro original hbeyond
    have hlater : st.sent < original := hbeyond
    rw [huses, inv.fresh original (Nat.le_of_lt hlater), if_neg (Nat.ne_of_lt hlater)]

theorem uses_eraseIdx (here : st.inFlight[k]? = some packet) (original : Nat) :
    st.uses original = uses { st with inFlight := st.inFlight.eraseIdx k } original +
      if packet.original = original ∧ packet.isReply = false then 1 else 0 := by
  obtain ⟨hlt, rfl⟩ := List.getElem?_eq_some_iff.mp here
  have hperm := (List.getElem_cons_eraseIdx_perm hlt).countP_eq
    (fun packet : VersionPacket => packet.original = original ∧ packet.isReply = false)
  rw [List.countP_cons] at hperm
  unfold uses
  rw [← hperm]
  simp only [decide_eq_true_eq]
  exact Nat.add_right_comm _ _ _

theorem erase (inv : st.Inv) (here : st.inFlight[k]? = some packet) :
    Inv { st with inFlight := st.inFlight.eraseIdx k } where
  replies := fun other member => inv.replies other (List.mem_of_mem_eraseIdx member)
  once := by
    intro original
    have hbefore := inv.once original
    rw [uses_eraseIdx here] at hbefore
    omega
  fresh := by
    intro original hbeyond
    have hbefore := inv.fresh original hbeyond
    rw [uses_eraseIdx here] at hbefore
    omega

/-- A datagram that is answered is no reply, so its use moves from the wire to the replies. -/
theorem handled (inv : st.Inv) (here : st.inFlight[k]? = some packet) (loop : VersionLoop)
    (nowNs : Nat) :
    (st.handled k packet
      ((st.peers packet.towards).onDatagram loop packet.bytes nowNs)).Inv := by
  have hheard : ∀ peers, Inv { st with peers := peers, inFlight := st.inFlight.eraseIdx k } :=
    fun _ => ⟨(inv.erase here).replies, (inv.erase here).once, (inv.erase here).fresh⟩
  unfold VersionExchange.handled
  cases hanswer : ((st.peers packet.towards).onDatagram loop packet.bytes nowNs).2 with
  | none => exact hheard _
  | some out =>
    have hout := (VersionPeer.onDatagram_some hanswer).2
    have horiginal : packet.isReply = false := by
      rw [← Bool.not_eq_true]
      intro hreply
      obtain ⟨version, hbytes⟩ := inv.replies packet (List.mem_of_getElem? here) hreply
      rw [hbytes, VersionPeer.onDatagram_reply] at hanswer
      cases hanswer
    have huses : ∀ original peers, uses { st with
          peers := peers
          inFlight := st.inFlight.eraseIdx k ++ [⟨packet.towards.other, out, packet.original, true⟩]
          replies := st.replies ++ [packet.original] } original = st.uses original := by
      intro original peers
      rw [uses_eraseIdx here original]
      simp only [uses, List.countP_append, List.countP_singleton, List.count_append,
        List.count_singleton, horiginal, and_true, beq_iff_eq, Bool.true_eq_false, and_false]
      exact (Nat.add_assoc _ _ _).symm
    constructor
    case replies =>
      intro other member hreply
      rcases List.mem_append.mp member with hold | hnew
      · exact (inv.erase here).replies other hold hreply
      · rw [List.mem_singleton.mp hnew]
        exact ⟨_, hout⟩
    case once =>
      intro original
      exact (huses original _).trans_le (inv.once original)
    case fresh =>
      intro original hbeyond
      exact (huses original _).trans (inv.fresh original hbeyond)

theorem step (inv : st.Inv) {event : VersionEvent} {next : VersionExchange}
    (stepped : st.step event = some next) : next.Inv := by
  cases event with
  | send towards bytes =>
    cases stepped
    exact inv.send towards bytes
  | arrives k loop nowNs =>
    obtain ⟨packet, here, rfl⟩ := Option.map_eq_some_iff.mp stepped
    exact inv.handled here loop nowNs
  | lost k =>
    rw [VersionExchange.step] at stepped
    split at stepped
    · rename_i hlt
      cases stepped
      exact inv.erase (List.getElem?_eq_getElem hlt)
    · cases stepped

end Inv

/-- Whatever the versions, the datagrams and their order, each datagram that is no reply is
answered at most once. -/
theorem answered_once {ours theirs : UInt8} {events : List VersionEvent} {last : VersionExchange}
    (run : replay step (start ours theirs) events = some last) (original : Nat) :
    last.replies.count original ≤ 1 := by
  have hinv : last.Inv :=
    replay_preserves (fun _ _ _ inv stepped => inv.step stepped) run (start_inv ours theirs)
  exact Nat.le_trans (Nat.le_add_left _ _) (hinv.once original)

end VersionExchange

/-- What negotiation promises for a datagram that reaches a receiver of version `ours`: its
reply, if there is one, is no longer than the datagram, tells every other version ours and is
never answered, and our own version gets none.  Each datagram of an exchange is answered at
most once. -/
structure Negotiates (ours : UInt8) (dg : List UInt8) : Prop where
  bounded : ∀ lastVersionReplyNs loop nowNs out,
    (VersionPeer.onDatagram ⟨ours, lastVersionReplyNs⟩ loop dg nowNs).2 = some out →
      out.length ≤ dg.length
  understood : ∀ lastVersionReplyNs loop nowNs out,
    (VersionPeer.onDatagram ⟨ours, lastVersionReplyNs⟩ loop dg nowNs).2 = some out →
      ∀ theirs, theirs ≠ ours → decodeVersionMismatch theirs out = some ours
  unanswered : ∀ lastVersionReplyNs loop nowNs out,
    (VersionPeer.onDatagram ⟨ours, lastVersionReplyNs⟩ loop dg nowNs).2 = some out →
      ∀ (peer : VersionPeer) loop nowNs, isForeignVersion peer.version out = false ∧
        (peer.onDatagram loop out nowNs).2 = none
  own : dg.head? = some ours → isForeignVersion ours dg = false
  once : ∀ theirs events last,
    replay VersionExchange.step (VersionExchange.start ours theirs) events = some last →
      ∀ original, last.replies.count original ≤ 1

/-- Negotiation keeps its promises for every datagram except a bare outer header of another
version: the reply to that is one byte longer. -/
theorem negotiates_iff (ours : UInt8) (dg : List UInt8) :
    Negotiates ours dg ↔ ¬ ∃ version type, dg = [version, type] ∧ version ≠ ours ∧
      type ≠ kVersionMismatchMarker := by
  constructor
  · rintro negotiates ⟨version, type, rfl, hversion, htype⟩
    have hforeign : isForeignVersion ours [version, type] = true :=
      (isForeignVersion_iff _ _).mpr ⟨version, type, [], rfl, hversion, htype⟩
    have hrested : u64Sub 200000000 0 > 100000000 := by decide
    have hsent := VersionPeer.onDatagram_foreign ⟨ours, 0⟩ .recvLane hforeign hrested
    have hlength := negotiates.bounded 0 .recvLane 200000000 _ hsent
    exact absurd hlength (Nat.not_succ_le_self 2)
  · intro longer
    constructor
    case bounded =>
      intro lastVersionReplyNs loop nowNs out sent
      obtain ⟨hforeign, rfl⟩ := VersionPeer.onDatagram_some sent
      obtain ⟨version, marker, rest, rfl, hversion, hmarker⟩ :=
        (isForeignVersion_iff _ _).mp hforeign
      cases rest with
      | nil => exact absurd ⟨version, marker, rfl, hversion, hmarker⟩ longer
      | cons third rest => simp
    case understood =>
      intro lastVersionReplyNs loop nowNs out sent theirs other
      obtain ⟨_, rfl⟩ := VersionPeer.onDatagram_some sent
      exact decodeVersionMismatch_reply other
    case unanswered =>
      intro lastVersionReplyNs loop nowNs out sent peer loop' nowNs'
      obtain ⟨_, rfl⟩ := VersionPeer.onDatagram_some sent
      exact ⟨isForeignVersion_reply _ _, peer.onDatagram_reply loop' ours nowNs'⟩
    case own =>
      intro hhead
      obtain ⟨rest, rfl⟩ := List.head?_eq_some_iff.mp hhead
      exact isForeignVersion_own ours rest
    case once => exact fun _ _ _ run => VersionExchange.answered_once run

/-- The outer header alone, of version 9, is answered with three bytes. -/
theorem bare_header_outgrown : ¬ Negotiates kProtocolVersion [9, 1] := by
  intro negotiates
  have hlength := negotiates.bounded 0 .recvLane 200000000 [8, 0xFF, 8] (by decide)
  exact absurd hlength (by decide)

end FuseTransport.Proto
