import FuseTransport.Http.Message

/-!
# Round trips of requests and responses

A message made of a first line, a header block and a body is split where it was put
together.  Requests always are such messages; responses are as long as the status line fits
its buffer.
-/

namespace FuseTransport.Http

open Foundation.Search

variable {first last : List UInt8} {lines : List (List UInt8)}

theorem isLine_of_flat (nonempty : first ≠ []) (flat : lf ∉ first) : IsLine first := by
  refine ⟨nonempty, ?_⟩
  intro inside
  exact flat (inside.subset (List.mem_cons_of_mem _ List.mem_cons_self))

/-- No CR LF starts in a line that is followed by one. -/
theorem IsLine.crlf_nowhere (line : IsLine first) (rest : List UInt8) :
    StartsNowhere crlf first (crlf ++ rest) :=
  startsNowhere_of_first (by decide) line.2 _

theorem IsLine.blank_nowhere (line : IsLine first) (rest : List UInt8) :
    StartsNowhere (crlf ++ crlf) first (crlf ++ rest) := by
  intro before after split nonempty starts
  exact line.crlf_nowhere rest before after split nonempty ((List.prefix_append crlf crlf).trans starts)

/-- The end of a line does not start the blank line when another line follows. -/
theorem lineEnd_nowhere {rest : List UInt8} (follows : ¬ crlf <+: rest) :
    StartsNowhere (crlf ++ crlf) crlf rest := by
  intro before after split nonempty starts
  match before, after, split with
  | [], _, rfl => exact follows ((List.prefix_append_right_inj crlf).mp starts)
  | [_], [_], rfl => exact absurd (List.cons_prefix_cons.mp starts).1 (by decide)
  | [_, _], [], rfl => exact nonempty rfl

/-- Before the end of the last line there is no blank line. -/
theorem block_nowhere (good : ∀ line ∈ lines, IsLine line) (lastGood : IsLine last)
    (rest : List UInt8) :
    StartsNowhere (crlf ++ crlf) (block lines ++ last) (crlf ++ rest) := by
  induction lines with
  | nil => exact lastGood.blank_nowhere rest
  | cons line lines ih =>
    have hline := good line List.mem_cons_self
    have hrest := ih fun other member => good other (List.mem_cons_of_mem _ member)
    have hfollows : ¬ crlf <+: (block lines ++ last) ++ (crlf ++ rest) := by
      cases lines with
      | nil =>
        intro starts
        exact lastGood.crlf_nowhere rest [] last rfl lastGood.1 starts
      | cons next lines =>
        have hnext := good next (List.mem_cons_of_mem _ List.mem_cons_self)
        intro starts
        refine hnext.crlf_nowhere (block lines ++ last ++ (crlf ++ rest)) [] next rfl hnext.1 ?_
        simpa [block] using starts
    have hsplit : block (line :: lines) ++ last = line ++ (crlf ++ (block lines ++ last)) := by
      simp [block]
    rw [hsplit]
    refine StartsNowhere.append ?_ ((lineEnd_nowhere hfollows).append hrest)
    exact hline.blank_nowhere _

/-- A message is split at its blank line and at the end of its first line. -/
theorem parseMessage_of_blank {headers body : List UInt8} {blank : Nat} (flat : lf ∉ first)
    (found : search (crlf ++ crlf) (first ++ crlf ++ headers ++ (crlf ++ body)) = some blank)
    (position : blank + 2 = (first ++ crlf ++ headers).length) :
    parseMessage (first ++ crlf ++ headers ++ (crlf ++ body)) =
      some { firstLine := first, headers := headers, body := body } := by
  have habsent : lf ∉ first ++ [cr] := by
    intro member
    rcases List.mem_append.mp member with hfirst | hcr
    · exact flat hfirst
    · exact absurd (List.mem_singleton.mp hcr) (by decide)
  have hfront : first ++ crlf ++ headers = first ++ [cr] ++ lf :: headers := by simp [crlf]
  have hlineEnd : search [lf] (first ++ crlf ++ headers) = some (first.length + 1) := by
    rw [hfront, search_symbol habsent, List.length_append, List.length_singleton]
  have hbody : (first ++ crlf ++ headers ++ (crlf ++ body)).drop (blank + 4) = body := by
    rw [show blank + 4 = (first ++ crlf ++ headers).length + 2 by omega, List.drop_append]
    simp [crlf]
  have hheaders : (first ++ crlf ++ headers).drop (first.length + 1 + 1) = headers := by
    rw [hfront, List.drop_append]
    simp
  have hcr : (first ++ crlf ++ headers ++ (crlf ++ body))[first.length + 1 - 1]? = some cr := by
    simp [crlf]
  have hfirst : (first ++ crlf ++ headers ++ (crlf ++ body)).take (first.length + 1 - 1) =
      first := by
    simp
  simp only [parseMessage, found, position, List.take_left, hlineEnd]
  rw [if_neg (not_or.mpr ⟨Nat.succ_ne_zero _, not_not_intro hcr⟩), hfirst, hheaders, hbody]

/-- A first line, a header block and a body are found again. -/
theorem parseMessage_append (nonempty : first ≠ []) (flat : lf ∉ first)
    (good : ∀ line ∈ lines, IsLine line) (body : List UInt8) :
    parseMessage (first ++ crlf ++ block lines ++ (crlf ++ body)) =
      some { firstLine := first, headers := block lines, body := body } := by
  have hall : ∀ line ∈ first :: lines, IsLine line := by
    intro line member
    rcases List.mem_cons.mp member with rfl | hrest
    · exact isLine_of_flat nonempty flat
    · exact good line hrest
  obtain ⟨front, last, hconcat⟩ : ∃ front last, first :: lines = front ++ [last] :=
    ⟨_, _, (List.dropLast_concat_getLast (List.cons_ne_nil first lines)).symm⟩
  rw [hconcat] at hall
  have hblock : first ++ crlf ++ block lines = block front ++ last ++ crlf := by
    have hsame : block (first :: lines) = block (front ++ [last]) := by rw [hconcat]
    simpa [block] using hsame
  have hblank : search (crlf ++ crlf) (block front ++ last ++ (crlf ++ (crlf ++ body))) =
      some (block front ++ last).length :=
    search_append
      (block_nowhere (fun line member => hall line (List.mem_append_left _ member))
        (hall last (List.mem_append_right _ List.mem_cons_self)) (crlf ++ body))
      ⟨body, by simp⟩
  have hfound : search (crlf ++ crlf) (first ++ crlf ++ block lines ++ (crlf ++ body)) =
      some (block front ++ last).length := by
    rw [hblock, ← hblank, List.append_assoc (block front ++ last)]
  refine parseMessage_of_blank flat hfound ?_
  rw [hblock]
  change (block front ++ last).length + crlf.length = _
  exact List.length_append.symm

/-- Method and path are found again in a request line. -/
theorem readRequestLine_append {method path : CStr} (unspaced : space ∉ method.bytes)
    (unmarked : ¬ ascii " HTTP/" <:+: path.bytes) {line : CStr}
    (written : line.bytes = method.bytes ++ [space] ++ path.bytes ++ ascii " HTTP/1.1") :
    readRequestLine line = (method, path) := by
  have hsplit : line.bytes = method.bytes ++ space :: (path.bytes ++ ascii " HTTP/1.1") := by
    rw [written]
    simp
  have hspace : search [space] line.bytes = some method.bytes.length := by
    rw [hsplit]
    exact search_symbol unspaced _
  have htarget : (line.drop (method.bytes.length + 1)).bytes = path.bytes ++ ascii " HTTP/1.1" := by
    rw [CStr.drop_bytes, hsplit]
    simp
  have hmarker : search (ascii " HTTP/") (path.bytes ++ ascii " HTTP/1.1") =
      some path.bytes.length := by
    refine search_append (startsNowhere_of_first (by decide) unmarked _) ?_
    exact ⟨ascii "1.1", by decide⟩
  simp only [readRequestLine, hspace, htarget, hmarker]
  refine Prod.ext (CStr.ext ?_) (CStr.ext ?_)
  · rw [CStr.take_bytes, hsplit, List.take_left]
  · rw [CStr.take_bytes, htarget, List.take_left]

/-- A request arrives at the handler as it was made: its method and path, its header block
and its body, whatever bytes the body has. -/
theorem request_round_trip (req : Request)
    (method : space ∉ req.method.bytes ∧ cr ∉ req.method.bytes ∧ lf ∉ req.method.bytes)
    (path : cr ∉ req.path.bytes ∧ lf ∉ req.path.bytes ∧ ¬ ascii " HTTP/" <:+: req.path.bytes)
    (headers : HeaderBlock (req.headers.getD CStr.empty).bytes) :
    ∃ received, serveRequest (requestWire req) = some received ∧
      received.method = req.method ∧ received.path = req.path ∧
      received.headers.getD CStr.empty = req.headers.getD CStr.empty ∧
      received.body.getD [] = req.body.getD [] := by
  obtain ⟨lines, hgood, hheaders⟩ := headers
  have hflat : lf ∉ req.method.bytes ++ [space] ++ req.path.bytes ++ ascii " HTTP/1.1" := by
    have hversion : lf ∉ [space] ∧ lf ∉ ascii " HTTP/1.1" := by decide
    simp only [List.mem_append, not_or]
    exact ⟨⟨⟨method.2.2, hversion.1⟩, path.2.1⟩, hversion.2⟩
  have hnonzero : 0 ∉ req.method.bytes ++ [space] ++ req.path.bytes ++ ascii " HTTP/1.1" := by
    have hversion : 0 ∉ [space] ∧ 0 ∉ ascii " HTTP/1.1" := by decide
    simp only [List.mem_append, not_or]
    exact ⟨⟨⟨req.method.terminated, hversion.1⟩, req.path.terminated⟩, hversion.2⟩
  have hparsed := parseMessage_append (by simp) hflat hgood (req.body.getD [])
  have hwire : requestWire req = req.method.bytes ++ [space] ++ req.path.bytes ++
      ascii " HTTP/1.1" ++ crlf ++ block lines ++ (crlf ++ req.body.getD []) := by
    rw [requestWire, appendHeadersAndBody, hheaders, List.append_assoc]
  have hline := readRequestLine_append method.1 path.2.2 (CStr.ofBuffer_bytes hnonzero)
  refine ⟨_, by rw [serveRequest, hwire, hparsed]; rfl, ?_, ?_, ?_, ?_⟩
  · exact congrArg Prod.fst hline
  · exact congrArg Prod.snd hline
  · rw [← hheaders]
    exact CStr.ofBuffer_self _
  · by_cases hempty : req.body.getD [] = [] <;> simp [hempty]

/-- A string of the source. -/
def literal (text : String) : CStr := CStr.ofBuffer (ascii text)

/-- A path with a space, one header, and a body that looks like the end of a header block. -/
def upload : Request where
  method := literal "POST"
  path := literal "/a b"
  headers := some (literal "A: b\r\n")
  body := some (crlf ++ crlf ++ [0, 255])

theorem headerBlock_single : HeaderBlock (literal "A: b\r\n").bytes := by
  refine ⟨[ascii "A: b"], ?_, by decide⟩
  intro line member
  rw [List.mem_singleton.mp member]
  exact isLine_of_flat (by decide) (by decide)

theorem request_round_trip_upload :
    ∃ received, serveRequest (requestWire upload) = some received ∧
      received.method = upload.method ∧ received.path = upload.path ∧
      received.headers.getD CStr.empty = literal "A: b\r\n" ∧
      received.body.getD [] = crlf ++ crlf ++ [0, 255] :=
  request_round_trip upload (by decide) (by decide) headerBlock_single

/-! ## Numbers in a status line -/

theorem digit_toNat (value : Nat) : (digit value).toNat = 48 + value % 10 := by
  rw [digit, UInt8.toNat_ofNat']
  omega

theorem isDigit_digit (value : Nat) : isDigit (digit value) = true := by
  have hvalue := digit_toNat value
  simp only [isDigit, Bool.and_eq_true, decide_eq_true_eq, UInt8.le_iff_toNat_le]
  constructor
  · change 48 ≤ _
    omega
  · change _ ≤ 57
    omega

theorem isDigit_digits (fuel value : Nat) : ∀ byte ∈ digits fuel value, isDigit byte = true := by
  induction fuel generalizing value with
  | zero => exact fun _ impossible => absurd impossible List.not_mem_nil
  | succ fuel ih =>
    rw [digits]
    split
    · intro byte member
      rw [List.mem_singleton.mp member]
      exact isDigit_digit value
    · intro byte member
      rcases List.mem_append.mp member with hhigh | hlow
      · exact ih _ byte hhigh
      · rw [List.mem_singleton.mp hlow]
        exact isDigit_digit value

/-- Reading the digits of a number gives the number. -/
theorem foldl_digits {fuel value : Nat} (enough : value < fuel) :
    (digits fuel value).foldl (fun total byte => total * 10 + (byte.toNat - 48)) 0 = value := by
  induction fuel generalizing value with
  | zero => exact absurd enough (Nat.not_lt_zero _)
  | succ fuel ih =>
    have hlast := digit_toNat value
    rw [digits]
    split
    · change 0 * 10 + ((digit value).toNat - 48) = value
      omega
    · rw [List.foldl_append, ih (by omega)]
      change value / 10 * 10 + ((digit value).toNat - 48) = value
      omega

theorem digits_cons {fuel value : Nat} (enough : value < fuel) :
    ∃ high rest, digits fuel value = high :: rest ∧ isDigit high = true := by
  cases hdigits : digits fuel value with
  | nil =>
    cases fuel with
    | zero => exact absurd enough (Nat.not_lt_zero _)
    | succ fuel =>
      rw [digits] at hdigits
      split at hdigits
      · cases hdigits
      · exact absurd hdigits (by simp)
  | cons high rest =>
    exact ⟨high, rest, rfl, isDigit_digits fuel value high (hdigits ▸ List.mem_cons_self)⟩

variable {byte : UInt8}

theorem isSpace_of_isDigit (isHigh : isDigit byte = true) : isSpace byte = false := by
  simp only [isDigit, Bool.and_eq_true, decide_eq_true_eq] at isHigh
  have hlow : 48 ≤ byte.toNat := isHigh.1
  simp only [isSpace, Bool.or_eq_false_iff, Bool.and_eq_false_iff, beq_eq_false_iff_ne,
    decide_eq_false_iff_not]
  constructor
  · rintro rfl
    exact absurd hlow (by decide)
  · right
    change ¬ byte.toNat ≤ 13
    omega

/-- A text that starts with a digit is read from that digit on. -/
theorem atoi_of_digit {high : UInt8} (isHigh : isDigit high = true) {rest : List UInt8}
    (fits : leadingValue (high :: rest) < 2 ^ 31) :
    atoi (high :: rest) = leadingValue (high :: rest) := by
  have hspace := isSpace_of_isDigit isHigh
  have hminus : high ≠ 45 := fun same => by
    rw [same] at isHigh
    exact absurd isHigh (by decide)
  have hplus : high ≠ 43 := fun same => by
    rw [same] at isHigh
    exact absurd isHigh (by decide)
  have hvalue : signedValue (high :: rest) = leadingValue (high :: rest) := by
    rw [signedValue, List.dropWhile_cons_of_neg (by rw [hspace]; exact Bool.false_ne_true)]
    split
    · rename_i hmatch
      exact absurd (List.cons.inj hmatch).1 hminus
    · rename_i hmatch
      exact absurd (List.cons.inj hmatch).1 hplus
    · rfl
  rw [atoi, hvalue, Int.bmod_eq_of_le] <;> omega

variable {value : Int}

/-- Reading back a number that is followed by a space. -/
theorem atoi_formatInt (natural : 0 ≤ value) (fits : value < 2 ^ 31) (rest : List UInt8) :
    atoi (formatInt value ++ space :: rest) = value := by
  obtain ⟨number, rfl⟩ := Int.eq_ofNat_of_zero_le natural
  have hformat : formatInt (number : Int) = digits (number + 1) number := by
    rw [formatInt, if_neg (Int.not_lt.mpr natural), Int.natAbs_natCast]
  obtain ⟨high, low, hdigits, hhigh⟩ := digits_cons (Nat.lt_succ_self number)
  have hread : (digits (number + 1) number ++ space :: rest).takeWhile isDigit =
      digits (number + 1) number := by
    rw [List.takeWhile_append_of_pos (isDigit_digits _ _),
      List.takeWhile_cons_of_neg (by decide), List.append_nil]
  have hvalue : leadingValue (high :: (low ++ space :: rest)) = number := by
    rw [← List.cons_append, ← hdigits, leadingValue, hread, foldl_digits (Nat.lt_succ_self number)]
  rw [hformat, hdigits, List.cons_append, atoi_of_digit hhigh (by rw [hvalue]; omega), hvalue]

/-- The codes from 100 to 999 have three digits. -/
theorem length_formatInt (low : 100 ≤ value) (high : value ≤ 999) :
    (formatInt value).length = 3 := by
  obtain ⟨number, rfl⟩ := Int.eq_ofNat_of_zero_le (by omega : 0 ≤ value)
  obtain ⟨fuel, rfl⟩ : ∃ fuel, number = fuel + 2 := ⟨number - 2, by omega⟩
  rw [formatInt, if_neg (by omega), Int.natAbs_natCast]
  rw [digits, if_neg (by omega), digits, if_neg (by omega), digits, if_pos (by omega)]
  rfl

theorem formatInt_absent (natural : 0 ≤ value) (other : isDigit byte = false) :
    byte ∉ formatInt value := by
  rw [formatInt, if_neg (Int.not_lt.mpr natural)]
  intro member
  exact Bool.false_ne_true (other.symm.trans (isDigit_digits _ _ byte member))

/-! ## Responses -/

def statusPart (status : Int) : List UInt8 := ascii "HTTP/1.1 " ++ formatInt status ++ [space]

/-- Status and reason are found again in a status line. -/
theorem readStatusLine_append (natural : 0 ≤ value) (fits : value < 2 ^ 31) {line : CStr} {rest : List UInt8}
    (written : line.bytes = statusPart value ++ rest) :
    (readStatusLine line).1 = value ∧
      (readStatusLine line).2.bytes = rest.dropWhile (· == space) := by
  have hsplit : line.bytes = ascii "HTTP/1.1" ++ space :: (formatInt value ++ space :: rest) := by
    rw [written, statusPart, show ascii "HTTP/1.1 " = ascii "HTTP/1.1" ++ [space] by decide]
    simp
  have hfirst : search [space] line.bytes = some (ascii "HTTP/1.1").length := by
    rw [hsplit]
    exact search_symbol (by decide) _
  have hcode : (line.drop ((ascii "HTTP/1.1").length + 1)).bytes =
      formatInt value ++ space :: rest := by
    rw [CStr.drop_bytes, hsplit]
    simp
  have hsecond : search [space] (formatInt value ++ space :: rest) =
      some (formatInt value).length :=
    search_symbol (formatInt_absent natural (by decide)) _
  simp only [readStatusLine, hfirst, hcode, hsecond, atoi_formatInt natural fits, CStr.skipSpaces_bytes,
    CStr.drop_bytes, List.drop_left, true_and]
  rw [List.dropWhile_cons_of_pos (by decide)]

theorem readStatusLine_length (line : CStr) :
    (readStatusLine line).2.bytes.length ≤ line.bytes.length := by
  rw [readStatusLine]
  split
  · exact Nat.zero_le _
  · dsimp only
    split
    · exact Nat.zero_le _
    · rw [CStr.skipSpaces_bytes, CStr.drop_bytes, CStr.drop_bytes]
      refine Nat.le_trans (List.dropWhile_suffix _).length_le ?_
      rw [List.length_drop, List.length_drop]
      omega

theorem length_statusPart {status : Int} (low : 100 ≤ status) (high : status ≤ 999) :
    (statusPart status).length = 13 := by
  rw [statusPart, List.length_append, List.length_append, length_formatInt low high]
  rfl

theorem statusPart_absent {status : Int} (natural : 0 ≤ status) (other : isDigit byte = false)
    (literal : byte ∉ ascii "HTTP/1.1 ") :
    byte ∉ statusPart status := by
  have hspace : byte ∉ [space] := by
    intro member
    rw [List.mem_singleton.mp member] at literal
    exact literal (by decide)
  simp only [statusPart, List.mem_append, not_or]
  exact ⟨⟨literal, formatInt_absent natural other⟩, hspace⟩

theorem statusLine_eq (resp : Response) :
    statusLine resp = (statusPart resp.status ++ resp.phrase.bytes ++ crlf).take 63 := rfl

/-- What a message was split into, and where. -/
theorem parseMessage_spans {data : List UInt8} {message : ParsedMessage}
    (parsed : parseMessage data = some message) :
    ∃ lineEnd, message.firstLine = data.take (lineEnd - 1) ∧ lineEnd ≠ 0 ∧
      lineEnd + message.headers.length + message.body.length + 3 = data.length := by
  rw [parseMessage] at parsed
  split at parsed
  · cases parsed
  · rename_i blank hblank
    split at parsed
    · cases parsed
    · rename_i lineEnd hlineEnd
      split at parsed
      · cases parsed
      · rename_i hgood
        cases parsed
        have hfour := (starts_of_search hblank).length_le
        have hone := (starts_of_search hlineEnd).length_le
        have hsize : (crlf ++ crlf).length = 4 := rfl
        have hsingle : [lf].length = 1 := rfl
        rw [List.length_drop] at hfour hone
        rw [List.length_take] at hone
        refine ⟨lineEnd, rfl, fun hzero => hgood (Or.inl hzero), ?_⟩
        rw [List.length_drop, List.length_drop, List.length_take]
        omega

/-- The response as the client should get it. -/
def delivered (resp : Response) : Response where
  status := resp.status
  reason := some resp.phrase
  headers := some (resp.headers.getD CStr.empty)
  body := some (resp.body.getD [])

/-- A response whose status line fits is delivered. -/
theorem fetchResponse_of_short {resp : Response} (low : 100 ≤ resp.status)
    (high : resp.status ≤ 999) (flat : lf ∉ resp.phrase.bytes)
    (unpadded : resp.phrase.bytes.head? ≠ some space)
    (headers : HeaderBlock (resp.headers.getD CStr.empty).bytes)
    (short : resp.phrase.bytes.length ≤ 48) :
    fetchResponse (responseWire resp) = some (delivered resp) := by
  obtain ⟨lines, hgood, hheaders⟩ := headers
  have hnatural : 0 ≤ resp.status := by omega
  have hlength := length_statusPart low high
  have hline : statusLine resp = statusPart resp.status ++ resp.phrase.bytes ++ crlf := by
    rw [statusLine_eq, List.take_of_length_le]
    rw [List.length_append, List.length_append, hlength]
    change 13 + _ + 2 ≤ 63
    omega
  have hflat : lf ∉ statusPart resp.status ++ resp.phrase.bytes := by
    simp only [List.mem_append, not_or]
    exact ⟨statusPart_absent hnatural (by decide) (by decide), flat⟩
  have hnonzero : 0 ∉ statusPart resp.status ++ resp.phrase.bytes := by
    simp only [List.mem_append, not_or]
    exact ⟨statusPart_absent hnatural (by decide) (by decide), resp.phrase.terminated⟩
  have hnonempty : statusPart resp.status ++ resp.phrase.bytes ≠ [] := by
    intro hnil
    have hzero := congrArg List.length hnil
    rw [List.length_append] at hzero
    exact absurd hzero (by rw [List.length_nil]; omega)
  have hwire : responseWire resp = statusPart resp.status ++ resp.phrase.bytes ++ crlf ++
      block lines ++ (crlf ++ resp.body.getD []) := by
    rw [responseWire, appendHeadersAndBody, hline, hheaders, List.append_assoc]
  obtain ⟨hstatus, hreason⟩ := readStatusLine_append hnatural (by omega) (CStr.ofBuffer_bytes hnonzero)
  have hphrase : resp.phrase.bytes.dropWhile (· == space) = resp.phrase.bytes := by
    cases hbytes : resp.phrase.bytes with
    | nil => rfl
    | cons first rest =>
      rw [hbytes] at unpadded
      refine List.dropWhile_cons_of_neg ?_
      intro hspace
      exact unpadded (congrArg some (beq_iff_eq.mp hspace))
  rw [fetchResponse, hwire, parseMessage_append hnonempty hflat hgood]
  simp only [Option.map_some, delivered, hstatus, CStr.ext (hreason.trans hphrase), ← hheaders,
    CStr.ofBuffer_self]

/-- A response whose status line was cut is not delivered. -/
theorem fetchResponse_of_long {resp : Response} (low : 100 ≤ resp.status)
    (high : resp.status ≤ 999) (long : 48 < resp.phrase.bytes.length) :
    fetchResponse (responseWire resp) ≠ some (delivered resp) := by
  intro hfetched
  have hnatural : 0 ≤ resp.status := by omega
  have hlength := length_statusPart low high
  obtain ⟨message, hparsed, hmessage⟩ := Option.map_eq_some_iff.mp hfetched
  have hbody : message.body = resp.body.getD [] :=
    Option.some.inj (congrArg Response.body hmessage)
  have hheaders : CStr.ofBuffer message.headers = resp.headers.getD CStr.empty :=
    Option.some.inj (congrArg Response.headers hmessage)
  have hreason : (readStatusLine (CStr.ofBuffer message.firstLine)).2 = resp.phrase :=
    Option.some.inj (congrArg Response.reason hmessage)
  obtain ⟨lineEnd, hfirst, hpositive, hspans⟩ := parseMessage_spans hparsed
  -- the two later parts have their lengths, so the first line is shorter than the cut line
  have hcut : (statusLine resp).length = 63 := by
    rw [statusLine_eq, List.length_take, List.length_append, List.length_append, hlength]
    change min 63 (13 + _ + 2) = 63
    omega
  have hshown : (resp.headers.getD CStr.empty).bytes.length ≤ message.headers.length := by
    rw [← hheaders]
    exact (List.takeWhile_prefix _).length_le
  have hline : lineEnd ≤ 62 := by
    rw [responseWire, appendHeadersAndBody, List.length_append, List.length_append,
      List.length_append, hcut, hbody] at hspans
    change _ = 63 + _ + 2 + _ at hspans
    omega
  have hstart : message.firstLine =
      (statusPart resp.status ++ resp.phrase.bytes).take (lineEnd - 1) := by
    rw [hfirst, responseWire, appendHeadersAndBody, List.append_assoc, List.append_assoc,
      List.take_append_of_le_length (by omega), statusLine_eq, List.take_take,
      Nat.min_eq_left (by omega), List.take_append_of_le_length]
    rw [List.length_append]
    omega
  have hnonzero : 0 ∉ message.firstLine := by
    rw [hstart]
    intro member
    rcases List.mem_append.mp (List.mem_of_mem_take member) with hpart | hphrase
    · exact statusPart_absent hnatural (by decide) (by decide) hpart
    · exact resp.phrase.terminated hphrase
  have hread : (CStr.ofBuffer message.firstLine).bytes = message.firstLine :=
    CStr.ofBuffer_bytes hnonzero
  have hsize : (readStatusLine (CStr.ofBuffer message.firstLine)).2.bytes.length ≤ 48 := by
    rcases Nat.lt_or_ge (lineEnd - 1) 13 with hbrief | hreaches
    · refine Nat.le_trans (readStatusLine_length _) ?_
      rw [hread, hstart, List.length_take]
      omega
    · have hwritten : (CStr.ofBuffer message.firstLine).bytes =
          statusPart resp.status ++ resp.phrase.bytes.take (lineEnd - 1 - 13) := by
        rw [hread, hstart, List.take_append, hlength, List.take_of_length_le (by omega)]
      rw [(readStatusLine_append hnatural (by omega) hwritten).2]
      refine Nat.le_trans (List.dropWhile_suffix _).length_le ?_
      rw [List.length_take]
      omega
  rw [hreason] at hsize
  omega

/-- A response is delivered as it was made exactly when its reason phrase has at most 48
bytes. -/
theorem response_round_trip_iff (resp : Response) (low : 100 ≤ resp.status)
    (high : resp.status ≤ 999) (flat : cr ∉ resp.phrase.bytes ∧ lf ∉ resp.phrase.bytes)
    (unpadded : resp.phrase.bytes.head? ≠ some space)
    (headers : HeaderBlock (resp.headers.getD CStr.empty).bytes) :
    fetchResponse (responseWire resp) = some (delivered resp) ↔
      resp.phrase.bytes.length ≤ 48 := by
  constructor
  · intro hdelivered
    apply Nat.le_of_not_lt
    intro hlong
    exact fetchResponse_of_long low high hlong hdelivered
  · exact fetchResponse_of_short low high flat.2 unpadded headers

/-- A response with a default reason and one header. -/
def notFound : Response := { status := 404, headers := some (literal "A: b\r\n") }

theorem response_round_trip_notFound :
    fetchResponse (responseWire notFound) = some (delivered notFound) ∧
      (delivered notFound).reason = some (literal "Not Found") :=
  ⟨(response_round_trip_iff notFound (by decide) (by decide) (by decide) (by decide)
    headerBlock_single).mpr (by decide), by decide⟩

def spelled (length : Nat) : CStr := CStr.ofBuffer (List.replicate length 97)

/-- A reason of 49 bytes leaves no room for the line's end: the client finds no blank line.
With 60 bytes and a header, the header becomes part of the reason. -/
theorem long_reason_lost :
    fetchResponse (responseWire { status := 200, reason := some (spelled 49) }) = none ∧
      fetchResponse (responseWire
        { status := 200, reason := some (spelled 60), headers := some (literal "A: b\r\n") }) =
        some { status := 200, reason := some (CStr.ofBuffer ((spelled 50).bytes ++ ascii "A: b"))
               headers := some CStr.empty, body := some [] } := by
  decide +kernel

end FuseTransport.Http
