import FuseTransport.Foundation.Runs
import FuseTransport.Foundation.Spans
import FuseTransport.Transfer.PartFile

/-!
# Writing to the part file

Several threads write blocks to a prepared file sink while others take checkpoints of it
and ask it what is missing.  A write first places its bytes, in one or more calls of
`pwritev`, and then counts them against their chunks, one chunk at a time; a checkpoint
reads the counters one after the other.  Between any two of these steps another thread
may take one of its own.
-/

namespace FuseTransport.Transfer

open Proto Foundation Foundation.Runs Foundation.Spans Foundation.Splice

def skipWritten : Nat → List (List UInt8) → List (List UInt8)
  | _, [] => []
  | left, first :: rest =>
    if left ≥ first.length then skipWritten (left - first.length) rest
    else first.drop left :: rest

/-- A call of `write`: `offset`, `iov` and `bytes` say what is still to be placed, `off` is
how far the bytes have been counted. -/
structure Writing where
  start : Nat
  len : Nat
  offset : Nat
  iov : List (List UInt8)
  bytes : Nat
  off : Nat
  failed : Bool := false
  deriving DecidableEq, Repr

namespace Writing

def call (offset : Nat) (iov : List (List UInt8)) : Writing :=
  { start := offset
    len := iov.flatten.length
    offset := offset
    iov := iov
    bytes := iov.flatten.length
    off := offset }

def stop (w : Writing) : Nat := w.start + w.len

def span (w : Writing) : Span := ⟨w.start, w.stop⟩

def wrote (w : Writing) (n : Nat) : Writing :=
  { w with offset := w.offset + n, bytes := w.bytes - n, iov := skipWritten n w.iov }

end Writing

/-- One update of a counter: which call made it, and for which of its bytes. -/
structure Update where
  call : Nat
  chunk : Nat
  span : Span
  deriving DecidableEq, Repr

/-- A checkpoint that has looked at the counters of the chunks before `next`.  What it has
`seen` in them, and the updates made when it began and before each of its reads, the code
does not keep. -/
structure Snapshot where
  next : Nat := 0
  bitmap : List UInt8
  saved : Bool := false
  seen : Nat → Nat := fun _ => 0
  begun : List Update
  before : Nat → List Update := fun _ => []

/-- A prepared file sink in use; `updates` are the updates of its counters so far, which the
code does not keep. -/
structure SinkUse where
  sink : FileSink
  writes : List Writing := []
  checks : List Snapshot := []
  answers : List (List ResumeRange) := []
  updates : List Update := []

inductive SinkEvent where
  | write (offset : Nat) (iov : List (List UInt8))
  | pwritev (k n : Nat)
  | fails (k : Nat)
  | count (k : Nat)
  | checkpoint
  | look (j : Nat)
  | save (j : Nat) (placed : Option Nat)
  | missing (first last : Nat)
  deriving DecidableEq, Repr

/-- The sink as the lanes know it, when this session has written `bytes`. -/
def FileSink.view (s : FileSink) (bytes : Nat → Option UInt8) : Sink :=
  { kind := .file
    prior := s.prior.map fun t => ⟨t.fileId, t.total, t.chunk, t.nchunks, Bitmap.marked t.bitmap⟩
    resumed := s.resumed
    total := s.total
    chunk := s.chunk
    nchunks := s.nchunks
    counters := s.counters
    adopted := s.adopted
    bytes := bytes }

namespace SinkUse

def start (sink : FileSink) : SinkUse := { sink := sink }

variable (st : SinkUse)

/-- A call may write these bytes: no other call has, or their chunk was taken over as
complete. -/
def MayWrite (span : Span) : Prop :=
  span.last ≤ st.sink.total ∧ ∀ p, p < span.last → span.first ≤ p →
    st.sink.adopted (p / st.sink.chunk) = true ∨ ∀ w ∈ st.writes, ¬ w.span.Has p

instance  (span : Span) : Decidable (st.MayWrite span) :=
  inferInstanceAs (Decidable (_ ∧ _))

def beginWrite (w : Writing) : Option SinkUse :=
  if st.MayWrite w.span then some { st with writes := st.writes ++ [w] } else none

def placed (k n : Nat) (w : Writing) : SinkUse :=
  { st with
    sink := { st.sink with part := splice 0 st.sink.part w.offset (w.iov.flatten.take n) }
    writes := st.writes.set k (w.wrote n) }

def place (k n : Nat) : Option SinkUse :=
  st.writes[k]?.bind fun w =>
    if w.failed = false ∧ 0 < n ∧ n ≤ w.bytes then some (st.placed k n w) else none

def failWrite (k : Nat) : Option SinkUse :=
  st.writes[k]?.bind fun w =>
    if w.failed = false ∧ 0 < w.bytes then
      some { st with writes := st.writes.set k { w with failed := true } }
    else none

def reach (w : Writing) : Nat :=
  min w.stop (u64 ((w.off / st.sink.chunk + 1) * st.sink.chunk))

def counted (k : Nat) (w : Writing) : SinkUse :=
  let c := w.off / st.sink.chunk
  let moved := st.writes.set k { w with off := st.reach w }
  if c < st.sink.nchunks then
    { st with
      sink := { st.sink with
        counters := Function.update st.sink.counters c
          (u64 (st.sink.counters c + (st.reach w - w.off))) }
      writes := moved
      updates := st.updates ++ [⟨k, c, w.off, st.reach w⟩] }
  else { st with writes := moved }

def count (k : Nat) : Option SinkUse :=
  st.writes[k]?.bind fun w =>
    if w.failed = false ∧ w.bytes = 0 ∧ w.off < w.stop then some (st.counted k w) else none

def beginCheckpoint : SinkUse :=
  if st.sink.prepared = false ∨ st.sink.fileId = 0 then st
  else { st with
    checks := st.checks ++
      [{ bitmap := List.replicate (bitmapLen st.sink.nchunks) 0, begun := st.updates }] }

def looked (snap : Snapshot) : Snapshot :=
  { snap with
    next := snap.next + 1
    bitmap := st.sink.look snap.bitmap snap.next (st.sink.counters snap.next)
    seen := Function.update snap.seen snap.next (st.sink.counters snap.next)
    before := Function.update snap.before snap.next st.updates }

def look (j : Nat) : Option SinkUse :=
  st.checks[j]?.bind fun snap =>
    if snap.next < st.sink.nchunks then
      some { st with checks := st.checks.set j (st.looked snap) }
    else none

/-- The checkpoint writes its trailer; `placed` is how much of it when it fails. -/
def save (j : Nat) (placed : Option Nat) : Option SinkUse :=
  st.checks[j]?.bind fun snap =>
    if snap.saved = false ∧ snap.next = st.sink.nchunks then
      some { st with
        sink := st.sink.saveTrailer snap.bitmap placed
        checks := st.checks.set j { snap with saved := true } }
    else none

def step : SinkEvent → Option SinkUse
  | .write offset iov => st.beginWrite (.call offset iov)
  | .pwritev k n => st.place k n
  | .fails k => st.failWrite k
  | .count k => st.count k
  | .checkpoint => some st.beginCheckpoint
  | .look j => st.look j
  | .save j placed => st.save j placed
  | .missing first last =>
    some { st with
      answers := st.answers ++ [(st.sink.view fun _ => none).missing first last] }

end SinkUse

end FuseTransport.Transfer
