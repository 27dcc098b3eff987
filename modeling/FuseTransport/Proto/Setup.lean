import FuseTransport.Proto.Wire

/-!
# SETUP payloads

The configuration of a session: for each stream its id, its flags, its block
size and its window.
-/

namespace FuseTransport.Proto

def kStreamFlagLossless : UInt8 := 0x01
def kStreamFlagOrdered : UInt8 := 0x02
def kMaxStreams : Nat := 64

structure StreamConfig where
  streamId : Nat := 0
  workerId : Nat := 0
  streamFlags : UInt8 := 0
  blockSize : Nat := 0
  windowSize : Nat := 0
  deriving DecidableEq, Repr

structure SetupPayload where
  protocolVersion : UInt8 := kProtocolVersion
  numWorkers : Nat := 0
  streams : List StreamConfig := []
  ext : List UInt8 := []
  deriving DecidableEq, Repr

def streamConfigValid (s : StreamConfig) : Bool :=
  !(s.blockSize == 0 || decide (s.blockSize > kMaxPayloadSize) || s.windowSize == 0 ||
    decide (s.windowSize > kMaxWindow))

def streamsValid : List Nat → List StreamConfig → Bool
  | _, [] => true
  | seen, s :: rest =>
    streamConfigValid s && !seen.contains s.streamId && streamsValid (s.streamId :: seen) rest

def setupPayloadValid (p : SetupPayload) : Bool :=
  if p.protocolVersion ≠ kProtocolVersion ∨ p.streams.length > kMaxStreams then false
  else streamsValid [] p.streams

theorem streamConfigValid_iff (s : StreamConfig) :
    streamConfigValid s = true ↔
      (1 ≤ s.blockSize ∧ s.blockSize ≤ kMaxPayloadSize) ∧
        (1 ≤ s.windowSize ∧ s.windowSize ≤ kMaxWindow) := by
  simp only [streamConfigValid, Bool.not_eq_true', Bool.or_eq_false_iff, beq_eq_false_iff_ne,
    decide_eq_false_iff_not]
  omega

theorem streamsValid_mem {seen : List Nat} {streams : List StreamConfig}
    (valid : streamsValid seen streams = true) {s : StreamConfig} (member : s ∈ streams) :
    streamConfigValid s = true := by
  induction streams generalizing seen with
  | nil => cases member
  | cons first rest ih =>
    rw [streamsValid, Bool.and_eq_true, Bool.and_eq_true] at valid
    rcases List.mem_cons.mp member with rfl | hrest
    · exact valid.1.1
    · exact ih valid.2 hrest

/-- Every stream of a valid payload has sizes the protocol supports. -/
theorem setupPayloadValid_mem {p : SetupPayload} (valid : setupPayloadValid p = true)
    {s : StreamConfig} (member : s ∈ p.streams) : streamConfigValid s = true := by
  unfold setupPayloadValid at valid
  split at valid
  · cases valid
  · exact streamsValid_mem valid member

end FuseTransport.Proto
