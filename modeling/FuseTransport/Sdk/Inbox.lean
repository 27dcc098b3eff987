import FuseTransport.Sdk.Connection

/-!
# What a peer can make the receiving end hold

Whoever sends whatever, and however slowly the application reads, the message under
reassembly and the bytes of the queue stay within their limits.
-/

namespace FuseTransport.Sdk.Receiver

open Foundation.Splice Proto

inductive Input where
  | datagram (dg : List UInt8) (nowNs : Nat)
  | fuseRecv (cap : Nat)

/-- The receiving end with an arbitrary peer. -/
def react (dir : Direction) (c : Receiver) : Input → Receiver
  | .datagram dg nowNs => c.handleDataLocked dir dg nowNs
  | .fuseRecv cap => (c.fuseRecv cap).2

structure Bounded (c : Receiver) : Prop where
  counted : c.inboxBytes = (c.inbox.map List.length).sum
  capped : c.inboxBytes < kMaxInboxBytes + kMaxMessage
  buffered : c.asmBuf.length ≤ kMaxMessage
  total : c.asmTotal ≤ kMaxMessage

namespace Bounded

variable {c : Receiver}

theorem assemble (bounded : c.Bounded) (hdr : BlockHeader) (body : List UInt8) :
    (c.assemble hdr body).Bounded ∧ (c.assemble hdr body).inboxBytes = c.inboxBytes := by
  unfold Receiver.assemble
  split
  · have hend : hdr.offset + body.length ≤ kMaxMessage := by omega
    have hwritten : (splice 0 c.asmBuf hdr.offset body).length ≤ kMaxMessage := by
      rw [length_splice]
      exact Nat.max_le.mpr ⟨bounded.buffered, hend⟩
    split
    · exact ⟨⟨bounded.counted, bounded.capped, hwritten, hend⟩, rfl⟩
    · exact ⟨⟨bounded.counted, bounded.capped, hwritten, bounded.total⟩, rfl⟩
  · exact ⟨bounded, rfl⟩

theorem complete (bounded : c.Bounded) (room : c.inboxBytes < kMaxInboxBytes) :
    c.complete.Bounded := by
  unfold Receiver.complete
  split
  · refine ⟨?_, ?_, Nat.zero_le _, Nat.zero_le _⟩
    · simp only [List.map_append, List.map_cons, List.map_nil, List.sum_append, length_resize,
        List.sum_cons, List.sum_nil, Nat.add_zero, bounded.counted]
    · exact Nat.add_lt_add_of_lt_of_le room bounded.total
  · exact bounded

theorem receiveBlock (bounded : c.Bounded) (hdr : BlockHeader) (body : List UInt8)
    (sendTimeNs nowNs : Nat) : (c.receiveBlock hdr body sendTimeNs nowNs).Bounded := by
  unfold Receiver.receiveBlock
  split
  · exact bounded
  · rename_i room
    have hnoted : ({ c with rx := (c.rx.onReceive hdr.seqNo sendTimeNs nowNs).1 } :
        Receiver).Bounded := { bounded with }
    obtain ⟨hassembled, hbytes⟩ := hnoted.assemble hdr body
    dsimp only
    split
    · exact hassembled.complete (hbytes.trans_lt (Nat.lt_of_not_le room))
    · exact hnoted.complete (Nat.lt_of_not_le room)

theorem fuseRecv (bounded : c.Bounded) (cap : Nat) : (c.fuseRecv cap).2.Bounded := by
  unfold Receiver.fuseRecv
  split
  · exact bounded
  · rename_i front rest hinbox
    have hcounted := bounded.counted
    rw [hinbox] at hcounted
    split
    · exact bounded
    · exact { bounded with
        counted := Nat.sub_eq_of_eq_add' hcounted
        capped := (Nat.sub_le _ _).trans_lt bounded.capped }

theorem react (bounded : c.Bounded) (dir : Direction) (input : Input) :
    (c.react dir input).Bounded := by
  cases input with
  | datagram dg nowNs =>
    unfold Receiver.react handleDataLocked
    dsimp only
    split
    · exact bounded
    · split
      · exact bounded
      · split
        · exact bounded
        · exact bounded.receiveBlock _ _ _ _
  | fuseRecv cap => exact bounded.fuseRecv cap

end Bounded

/-- Whatever arrives and however slowly the application reads, the queue holds
less than one message more than its limit, and no message outgrows the largest
there is. -/
theorem memory_bounded (dir : Direction) (inputs : List Input) :
    (inputs.foldl (react dir) (create dir)).Bounded :=
  List.foldlRecOn inputs (react dir)
    ⟨rfl, Nat.add_pos_left (by decide) _, Nat.zero_le _, Nat.zero_le _⟩
    fun _ bounded input _ => bounded.react dir input

end FuseTransport.Sdk.Receiver
