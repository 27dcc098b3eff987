import FuseTransport.Sdk.Delivery

/-!
# The nonces of a connection

Both directions of an encrypted connection seal under one key.  Their lanes keep
the nonces apart and a number keeps its block, so no nonce ever covers two
plaintexts.  But a retransmission seals its block a second time under the same
nonce, and the associated data say that it is one.
-/

namespace FuseTransport.Sdk

open Foundation Foundation.BigEndian Foundation.Runs Proto

/-- Flags that agree outside a mark. -/
theorem flags_eq_iff {flags other mark : UInt8} (rest : flags &&& ~~~mark = other &&& ~~~mark) :
    flags = other ↔ flags &&& mark = other &&& mark := by
  have hsplit : ∀ all : UInt8, all &&& ~~~mark ||| all &&& mark = all := by
    intro all
    apply UInt8.toBitVec_inj.mp
    ext i
    cases hmark : mark.toBitVec[i] <;> simp [hmark]
  constructor
  · intro same
    rw [same]
  · intro same
    rw [← hsplit flags, ← hsplit other, rest, same]

theorem buildAad_eq_iff (lane seqNo offset : Nat) (flags other : UInt8) :
    buildAad lane seqNo offset flags = buildAad lane seqNo offset other ↔ flags = other := by
  constructor
  · intro same
    have hflags := congrArg get (List.append_cancel_left same)
    rw [get_put_of_lt flags.toNat_lt, get_put_of_lt other.toNat_lt] at hflags
    exact UInt8.toNat_inj.mp hflags
  · intro same
    rw [same]

section Run

variable {dir : Direction} {st : State}

theorem run_inv {run : List Event} (replayed : replay (step dir) (initial dir) run = some st)
    (short : run.length ≤ 2 ^ 64 - 2) : Inv dir st :=
  replay_preserves_counted (fun state : State => state.tx.txNextSeq) (nextSeq_grows dir)
    (fun _ _ _ inv _ room stepped => inv.step room stepped) replayed
    ((along_iff replayed).mpr fun _ _ _ _ _ _ => trivial) ((Nat.zero_add _).le.trans short)
    (inv_initial dir)

/-- A datagram of a run carries the block its number names. -/
theorem Inv.conveyed (inv : Inv dir st) {dg : List UInt8} (sent : dg ∈ st.forward)
    {data : DataDatagram} (decoded : decodeDataDatagram dg = some data) :
    data.hdr.seqNo < 2 ^ 64 ∧ ∃ o, st.log.blocks[data.hdr.seqNo]? = some o ∧
      Conveys dir.cipher dir.lane.val data.hdr.seqNo o.block data := by
  obtain ⟨seqNo, o, found, hfound, ho, conveys, _⟩ := inv.onData_eq sent 0
  obtain rfl := Option.some.inj (decoded.symm.trans hfound)
  obtain rfl := conveys.seqNo
  exact ⟨Nat.lt_trans (inv.block_sent ho) inv.window.bounded, o, ho, conveys⟩

end Run

/-- The only block of a message of one byte, as either direction seals it. -/
def sealedByte (lane : Fin 2) (flags : UInt8) : List UInt8 :=
  dataPrefix ⟨lane, 0, flags, 17, 0⟩ 0 ++ 1 :: List.replicate kAeadTagLen 1

def resentRun : List Event :=
  [.fuseSend [1], .sendBlock 4 true 0, .retransmissionTimeout true 0]

end FuseTransport.Sdk
