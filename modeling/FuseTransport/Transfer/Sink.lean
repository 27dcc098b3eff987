import Mathlib.Order.Interval.Finset.Nat
import FuseTransport.Proto.Control

/-!
# Where received bytes end up

A sink is told the size of the output once, then takes the blocks of all lanes at
their own offsets, in any order.  The file sink also counts the bytes written to
each chunk, takes over the chunks an earlier session completed, and can say which
parts of a range are still missing.
-/

namespace FuseTransport.Transfer

open Proto

/-- The largest size an output may have (a signed file offset). -/
def kMaxSize : Nat := 2 ^ 63 - 1

/-- What the trailer of an earlier session's partial copy records. -/
structure Prior where
  fileId : Nat
  total : Nat
  chunk : Nat
  nchunks : Nat
  bitmap : Nat → Bool

inductive SinkKind where
  | memory
  | file
  deriving DecidableEq, Repr

/-- `bytes` is what this session has written; `adopted` marks the chunks taken
over from an earlier one. -/
structure Sink where
  kind : SinkKind
  prior : Option Prior := none
  resumed : Bool := false
  total : Nat := 0
  chunk : Nat := 1
  nchunks : Nat := 0
  counters : Nat → Nat := fun _ => 0
  adopted : Nat → Bool := fun _ => false
  bytes : Nat → Option UInt8 := fun _ => none

def chunkLen (i chunk total : Nat) : Nat := min chunk (total - i * chunk)

def growChunk : Nat → Nat → Nat → Nat
  | 0, _, chunk => chunk
  | fuel + 1, totalBytes, chunk =>
    if totalBytes / chunk > 8 * 2 ^ 20 then growChunk fuel totalBytes (chunk * 2) else chunk

/-- The chunk size of a file; its size has fewer than sixty-four bits. -/
def chunkFor (totalBytes : Nat) : Nat := growChunk 64 totalBytes (64 * 1024)

def Prior.sameFile (prior : Prior) (fileId totalBytes chunk nchunks : Nat) : Bool :=
  fileId ≠ 0 && prior.fileId = fileId && prior.total = totalBytes && prior.chunk = chunk &&
    prior.nchunks = nchunks

namespace Sink

variable (s : Sink)

/-- Size the output.  `works` is the outcome of the allocation and of setting the
file's size. -/
def prepare (works : Bool) (totalBytes fileId : Nat) : Option Sink :=
  if totalBytes > kMaxSize ∨ works = false then none
  else match s.kind with
    | .memory => some { s with total := totalBytes }
    | .file =>
      let chunk := chunkFor totalBytes
      let nchunks := (totalBytes + chunk - 1) / chunk
      let fresh : Sink :=
        { s with
          total := totalBytes
          chunk := chunk
          nchunks := nchunks
          counters := fun _ => 0
          prior := s.prior.map fun prior => { prior with bitmap := fun _ => false } }
      match s.prior with
      | none => some fresh
      | some prior =>
        if prior.sameFile fileId totalBytes chunk nchunks then
          let kept := fun i => decide (i < nchunks) && prior.bitmap i
          some { fresh with
            resumed := true
            adopted := kept
            counters := fun i => if kept i then chunkLen i chunk totalBytes else 0 }
        else some fresh

/-- Whether every byte of a chunk has been counted. -/
def chunkComplete (c : Nat) : Bool := decide (chunkLen c s.chunk s.total ≤ s.counters c)

/-- One chunk of a range, joined to the part before it when the two touch. -/
def addMissing (first last : Nat) (out : List ResumeRange) (c : Nat) : List ResumeRange :=
  if s.chunkComplete c then out
  else
    let a := max first (c * s.chunk)
    let b := min last (min s.total ((c + 1) * s.chunk))
    match out.getLast? with
    | some back =>
      if back.offset + back.length = a then
        out.dropLast ++ [{ back with length := back.length + (b - a) }]
      else out ++ [⟨a, b - a⟩]
    | none => [⟨a, b - a⟩]

/-- The parts of `first … last - 1` still needed. -/
def missing (first last : Nat) : List ResumeRange :=
  if s.resumed = false ∨ last ≤ first then
    if last > first then [⟨first, last - first⟩] else []
  else
    (List.range' (first / s.chunk)
      (min ((last - 1) / s.chunk + 1) s.nchunks - first / s.chunk)).foldl (s.addMissing first last) []

def place (offset : Nat) (body : List UInt8) : Sink :=
  { s with
    bytes := fun p =>
      if offset ≤ p ∧ p < offset + body.length then body[p - offset]? else s.bytes p }

def chunkShare (first last c : Nat) : Nat :=
  min last ((c + 1) * s.chunk) - max first (c * s.chunk)

/-- A write that succeeds: the bytes are placed, then counted against their chunks. -/
def write (offset : Nat) (body : List UInt8) : Sink :=
  { s.place offset body with
    counters := fun c =>
      if c < s.nchunks then u64 (s.counters c + s.chunkShare offset (offset + body.length) c)
      else s.counters c }

end Sink

end FuseTransport.Transfer
