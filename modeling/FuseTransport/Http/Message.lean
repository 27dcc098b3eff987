import Mathlib.Algebra.Group.Int.Defs
import Mathlib.Algebra.Group.Nat.Defs
import Mathlib.Data.Int.Order.Basic
import Mathlib.Data.List.TakeWhile
import FuseTransport.Foundation.Search

/-!
# Messages of the HTTP mapping

One request and one response are each sent as one message: a first line, header lines and a
blank line, all ended by CR LF, and a body of any bytes.
-/

namespace FuseTransport.Http

open Foundation.Search

/-- The bytes of a literal of the source. -/
def ascii (literal : String) : List UInt8 := literal.toList.map fun c => UInt8.ofNat c.toNat

def cr : UInt8 := 13
def lf : UInt8 := 10
def space : UInt8 := 32
def crlf : List UInt8 := [cr, lf]

/-- A string of C: its bytes before the terminator. -/
structure CStr where
  bytes : List UInt8
  terminated : 0 ∉ bytes
  deriving DecidableEq

namespace CStr

def empty : CStr := ⟨[], List.not_mem_nil⟩

/-- What is read from a buffer as a string: the bytes up to the first zero. -/
def ofBuffer (buffer : List UInt8) : CStr :=
  ⟨buffer.takeWhile (· != 0), fun member => by simpa using List.mem_takeWhile_imp member⟩

variable (text : CStr)

def take (count : Nat) : CStr :=
  ⟨text.bytes.take count, fun member => text.terminated (List.mem_of_mem_take member)⟩

def drop (count : Nat) : CStr :=
  ⟨text.bytes.drop count, fun member => text.terminated (List.mem_of_mem_drop member)⟩

def skipSpaces : CStr :=
  ⟨text.bytes.dropWhile (· == space), fun member =>
    text.terminated ((List.dropWhile_suffix _).subset member)⟩

@[simp]
theorem take_bytes (count : Nat) : (text.take count).bytes = text.bytes.take count := rfl

@[simp]
theorem drop_bytes (count : Nat) : (text.drop count).bytes = text.bytes.drop count := rfl

@[simp]
theorem skipSpaces_bytes : text.skipSpaces.bytes = text.bytes.dropWhile (· == space) := rfl

@[ext]
theorem ext {first second : CStr} (same : first.bytes = second.bytes) : first = second := by
  cases first
  cases second
  cases same
  rfl

/-- A buffer without a zero is read whole. -/
theorem ofBuffer_bytes {buffer : List UInt8} (nonzero : 0 ∉ buffer) :
    (ofBuffer buffer).bytes = buffer := by
  apply List.takeWhile_eq_self_iff.mpr
  intro byte member
  simp only [bne_iff_ne]
  rintro rfl
  exact nonzero member

@[simp]
theorem ofBuffer_self : ofBuffer text.bytes = text :=
  ext (ofBuffer_bytes text.terminated)

end CStr

structure ParsedMessage where
  firstLine : List UInt8
  headers : List UInt8
  body : List UInt8
  deriving DecidableEq, Repr

def parseMessage (data : List UInt8) : Option ParsedMessage :=
  match search (crlf ++ crlf) data with
  | none => none
  | some blank =>
    match search [lf] (data.take (blank + 2)) with
    | none => none
    | some lineEnd =>
      if lineEnd = 0 ∨ data[lineEnd - 1]? ≠ some cr then none
      else some
        { firstLine := data.take (lineEnd - 1)
          headers := (data.take (blank + 2)).drop (lineEnd + 1)
          body := data.drop (blank + 4) }

def appendHeadersAndBody (out : List UInt8) (headersBlock : Option CStr)
    (body : Option (List UInt8)) : List UInt8 :=
  out ++ (headersBlock.getD CStr.empty).bytes ++ crlf ++ body.getD []

/-- A request as the client gives it and as the server's handler is given it. -/
structure Request where
  method : CStr
  path : CStr
  headers : Option CStr := none
  body : Option (List UInt8) := none
  deriving DecidableEq

/-- The message `fuse_http_fetch` sends. -/
def requestWire (req : Request) : List UInt8 :=
  appendHeadersAndBody (req.method.bytes ++ [space] ++ req.path.bytes ++ ascii " HTTP/1.1" ++ crlf)
    req.headers req.body

def readRequestLine (line : CStr) : CStr × CStr :=
  match search [space] line.bytes with
  | none => (line, CStr.empty)
  | some sp =>
    let target := line.drop (sp + 1)
    (line.take sp,
      match search (ascii " HTTP/") target.bytes with
      | none => target
      | some versionMarker => target.take versionMarker)

/-- The request that `ServeOneConnection` hands to the handler. -/
def serveRequest (raw : List UInt8) : Option Request :=
  (parseMessage raw).map fun message =>
    let line := readRequestLine (CStr.ofBuffer message.firstLine)
    { method := line.1
      path := line.2
      headers := some (CStr.ofBuffer message.headers)
      body := if message.body = [] then none else some message.body }

/-! ## Responses -/

structure Response where
  status : Int := 0
  reason : Option CStr := none
  headers : Option CStr := none
  body : Option (List UInt8) := none
  deriving DecidableEq

def defaultReason (status : Int) : CStr :=
  CStr.ofBuffer <| ascii <|
    if status = 200 then "OK"
    else if status = 201 then "Created"
    else if status = 204 then "No Content"
    else if status = 301 then "Moved Permanently"
    else if status = 302 then "Found"
    else if status = 304 then "Not Modified"
    else if status = 400 then "Bad Request"
    else if status = 401 then "Unauthorized"
    else if status = 403 then "Forbidden"
    else if status = 404 then "Not Found"
    else if status = 405 then "Method Not Allowed"
    else if status = 500 then "Internal Server Error"
    else if status = 501 then "Not Implemented"
    else if status = 503 then "Service Unavailable"
    else "Unknown"

/-- The reason phrase that is sent. -/
def Response.phrase (resp : Response) : CStr := resp.reason.getD (defaultReason resp.status)

def digit (value : Nat) : UInt8 := UInt8.ofNat (48 + value % 10)

def digits : Nat → Nat → List UInt8
  | 0, _ => []
  | fuel + 1, n => if n < 10 then [digit n] else digits fuel (n / 10) ++ [digit n]

def formatInt (value : Int) : List UInt8 :=
  if value < 0 then ascii "-" ++ digits (value.natAbs + 1) value.natAbs
  else digits (value.natAbs + 1) value.natAbs

def kStatusLineSize : Nat := 64

/-- The status line as `snprintf` leaves it in its buffer: cut to the buffer's size less the
terminator. -/
def statusLine (resp : Response) : List UInt8 :=
  (ascii "HTTP/1.1 " ++ formatInt resp.status ++ [space] ++ resp.phrase.bytes ++ crlf).take
    (kStatusLineSize - 1)

/-- The message `ServeOneConnection` sends for the handler's response. -/
def responseWire (resp : Response) : List UInt8 :=
  appendHeadersAndBody (statusLine resp) resp.headers resp.body

def isDigit (byte : UInt8) : Bool := decide (48 ≤ byte) && decide (byte ≤ 57)

def isSpace (byte : UInt8) : Bool := byte == space || (decide (9 ≤ byte) && decide (byte ≤ 13))

def leadingValue (text : List UInt8) : Nat :=
  (text.takeWhile isDigit).foldl (fun value byte => value * 10 + (byte.toNat - 48)) 0

def signedValue (text : List UInt8) : Int :=
  match text.dropWhile isSpace with
  | 45 :: rest => -leadingValue rest
  | 43 :: rest => leadingValue rest
  | rest => leadingValue rest

/-- The value is held within a `long` and then cut to an `int`. -/
def atoi (text : List UInt8) : Int :=
  (max (-2 ^ 63) (min (signedValue text) (2 ^ 63 - 1))).bmod (2 ^ 32)

def readStatusLine (line : CStr) : Int × CStr :=
  match search [space] line.bytes with
  | none => (0, CStr.empty)
  | some sp =>
    let code := line.drop (sp + 1)
    (atoi code.bytes,
      match search [space] code.bytes with
      | none => CStr.empty
      | some reason => (code.drop reason).skipSpaces)

/-- The response that `fuse_http_fetch` returns, or `none` for an error. -/
def fetchResponse (raw : List UInt8) : Option Response :=
  (parseMessage raw).map fun message =>
    let line := readStatusLine (CStr.ofBuffer message.firstLine)
    { status := line.1
      reason := some line.2
      headers := some (CStr.ofBuffer message.headers)
      body := some message.body }

/-- A line without its end: not empty, and without a CR LF of its own. -/
def IsLine (line : List UInt8) : Prop := line ≠ [] ∧ ¬ crlf <:+: line

/-- The lines, each ended by CR LF. -/
def block (lines : List (List UInt8)) : List UInt8 := lines.flatMap (· ++ crlf)

/-- A header block: empty, or lines that are not empty and end in CR LF. -/
def HeaderBlock (bytes : List UInt8) : Prop := ∃ lines, (∀ line ∈ lines, IsLine line) ∧ bytes = block lines

end FuseTransport.Http
