import FuseTransport.Transfer.Signing

/-!
# The receive pipeline

A reader hands each new block to a consumer through a bounded ring.  The consumer
authenticates the blocks of a batch, writes runs of contiguous ones with one call
each and reports every block's outcome on a second ring.
-/

namespace FuseTransport.Transfer

open Proto

def kWindow : Nat := kMaxWindow
def kWriteBatch : Nat := 64
def kRouteRun : Nat := kWriteBatch

/-- The largest machine word, which stands for "no sequence number" and for "no
size yet". -/
def kNone : Nat := 2 ^ 64 - 1

/-- One data block on its way from a reader to a consumer. -/
structure PacketSlot where
  laneBase : Nat
  laneTotal : Nat
  dg : List UInt8
  fits : dg.length ≤ kMaxDatagramSize

inductive WriteResult where
  | written
  | authFailed
  | ioFailed
  deriving DecidableEq, Repr

structure Completion where
  seq : Nat := 0
  sendTime : Nat := 0
  bytes : Nat := 0
  flags : UInt8 := 0
  result : WriteResult := .written
  deriving DecidableEq, Repr

/-- A block as a consumer is about to write it.  `body` is empty when there is
nothing to write; only an authentic block has one, and all of it is counted. -/
structure Item where
  completion : Completion
  off : Nat := 0
  body : List UInt8 := []
  authentic : body ≠ [] → completion.result = .written
  counted : completion.bytes = body.length

def Item.nothing (c : Completion) (none_counted : c.bytes = 0) : Item where
  completion := c
  authentic := fun something => absurd rfl something
  counted := none_counted

/-- Authenticate one block.  An out-of-range block is reported as received, it just
is not written. -/
def examine (opens : DataDatagram → Option (List UInt8)) (s : PacketSlot) : Item :=
  match decodeDataDatagram s.dg with
  | none => Item.nothing { result := .authFailed } rfl
  | some d =>
    let c : Completion :=
      { seq := d.hdr.seqNo, sendTime := d.sendTimeNs, flags := d.hdr.flags }
    match opens d with
    | none => Item.nothing { c with result := .authFailed } rfl
    | some body =>
      if 0 < body.length ∧ d.hdr.offset ≤ s.laneTotal ∧
          body.length ≤ s.laneTotal - d.hdr.offset then
        { completion := { c with bytes := body.length }
          off := s.laneBase + d.hdr.offset
          body := body
          authentic := fun _ => rfl
          counted := rfl }
      else Item.nothing c rfl

def continues (first second : Item) : Bool :=
  first.body ≠ [] && second.body ≠ [] && second.off = first.off + first.body.length

def runs (items : List Item) : List (List Item) := items.splitBy continues

/-- One block as it reached the sink.  The code does not keep this. -/
structure Write where
  lane : Nat
  seq : Nat
  off : Nat
  body : List UInt8
  deriving DecidableEq, Repr

structure Batch where
  sink : Sink
  ioFailed : Bool
  completions : List Completion := []
  writes : List Write := []

/-- Write one run.  A failed write may have placed some of its bytes; its blocks
are reported as failed. -/
def writeRun (lane : Nat) (failsAfter : Option Nat) (batch : Batch) (run : List Item) : Batch :=
  let body := run.flatMap fun item => item.body
  let off := (run.head?.map fun item => item.off).getD 0
  if body = [] then { batch with completions := batch.completions ++ run.map fun i => i.completion }
  else match failsAfter with
    | none =>
      { batch with
        sink := batch.sink.write off body
        completions := batch.completions ++ run.map fun i => i.completion
        writes := batch.writes ++ run.map fun i => ⟨lane, i.completion.seq, i.off, i.body⟩ }
    | some placed =>
      { batch with
        sink := batch.sink.place off (body.take placed)
        ioFailed := true
        completions := batch.completions ++
          run.map fun i => { i.completion with result := .ioFailed, bytes := 0 } }

/-- The runs of a batch in order; `failsAfter i` is the outcome of the write of
run `i`. -/
def writeRuns (lane : Nat) (failsAfter : Nat → Option Nat) :
    Nat → Batch → List (List Item) → Batch
  | _, batch, [] => batch
  | i, batch, run :: rest =>
    writeRuns lane failsAfter (i + 1) (writeRun lane (failsAfter i) batch run) rest

end FuseTransport.Transfer
