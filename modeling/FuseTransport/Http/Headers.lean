import FuseTransport.Http.Message

/-!
# Looking up a header

The lookup walks over the lines of a header block and takes each line to stop one byte before
its line feed.  It is compared here with the lines of the block and their texts, without
assuming that every line feed follows a carriage return.
-/

namespace FuseTransport.Http

open Foundation.Search

def colon : UInt8 := 58

def lower (byte : UInt8) : UInt8 :=
  if 65 ≤ byte ∧ byte ≤ 90 then byte - 65 + 97 else byte

def equalsIgnoreCase (first second : List UInt8) : Bool :=
  decide (first.length = second.length) && first.map lower == second.map lower

/-- What `memchr` does on a string: it reads one byte after the other and stops at the byte
it looks for, after `count` bytes, or by reading past the end of the string. -/
inductive Scan where
  | hit (position : Nat)
  | miss
  | past
  deriving DecidableEq, Repr

def Scan.further : Scan → Scan
  | .hit position => .hit (position + 1)
  | other => other

/-- Scan a string from here on; behind its bytes only the terminator may be read. -/
def memchr (byte : UInt8) : List UInt8 → Nat → Scan
  | _, 0 => .miss
  | [], count + 1 => if count = 0 then .miss else .past
  | first :: rest, count + 1 => if first = byte then .hit 0 else (memchr byte rest count).further

/-- The answer of the lookup: a value as a position and a length, or a read outside of the
string. -/
inductive Lookup where
  | absent
  | found (start len : Nat)
  | outside
  deriving DecidableEq, Repr

/-- Where the text of the first line stops, counted from its start: one before the line feed,
so that it may lie before the line. -/
def lineStop (rest : List UInt8) : Int :=
  match search [lf] rest with
  | some lineEnd => (lineEnd : Int) - 1
  | none => rest.length

/-- One round of the lookup, on the first line of what is left of the string; it ends the
lookup or not. -/
def lookupLine (name : List UInt8) (pos : Nat) (rest : List UInt8) : Option Lookup :=
  -- the count of `memchr` is unsigned
  match memchr colon rest (lineStop rest % 2 ^ 64).toNat with
  | .past => some .outside
  | .miss => none
  | .hit keyLen =>
    if equalsIgnoreCase (rest.take keyLen) name then
      let spaces := ((rest.take (lineStop rest).toNat).drop (keyLen + 1)).takeWhile (· == space)
      let val := keyLen + 1 + spaces.length
      some (.found (pos + val) ((lineStop rest - val) % 2 ^ 64).toNat)
    else none

def lookupFrom (name : List UInt8) : Nat → Nat → List UInt8 → Lookup
  | 0, _, _ => .absent
  | fuel + 1, pos, rest =>
    if rest = [] then .absent
    else
      match lookupLine name pos rest with
      | some answer => answer
      | none =>
        match search [lf] rest with
        | some lineEnd => lookupFrom name fuel (pos + lineEnd + 1) (rest.drop (lineEnd + 1))
        | none => .absent

def getHeader (headers name : CStr) : Lookup :=
  lookupFrom name.bytes headers.bytes.length 0 headers.bytes

structure HeaderLine where
  content : List UInt8
  ended : Bool
  deriving DecidableEq, Repr

namespace HeaderLine

variable (line : HeaderLine)

def bytes : List UInt8 :=
  if line.ended then line.content ++ [lf] else line.content

def text : List UInt8 :=
  if line.ended ∧ line.content.getLast? = some cr then line.content.dropLast else line.content

def shown : List UInt8 :=
  if line.ended then line.content.dropLast else line.content

end HeaderLine

def linesOf : List UInt8 → List HeaderLine
  | [] => []
  | first :: rest =>
    if first = lf then { content := [], ended := true } :: linesOf rest
    else
      match linesOf rest with
      | [] => [{ content := [first], ended := false }]
      | line :: lines => { line with content := first :: line.content } :: lines

def render (lines : List HeaderLine) : List UInt8 := lines.flatMap HeaderLine.bytes

theorem render_linesOf (bytes : List UInt8) : render (linesOf bytes) = bytes := by
  induction bytes with
  | nil => rfl
  | cons first rest ih =>
    rw [linesOf]
    split
    · rename_i hfeed
      simp [render, HeaderLine.bytes, hfeed] at ih ⊢
      exact ih
    · split
      · rename_i hnone
        rw [hnone] at ih
        simp [render, HeaderLine.bytes] at ih ⊢
        exact ih
      · rename_i line lines hsome
        rw [hsome] at ih
        rw [← ih]
        cases hended : line.ended <;> simp [render, HeaderLine.bytes, hended]

/-- The value of a text that is a field of that name: what follows the first colon, without
leading spaces. -/
def fieldValue (name text : List UInt8) : Option (List UInt8) :=
  match search [colon] text with
  | none => none
  | some keyLen =>
    if equalsIgnoreCase (text.take keyLen) name then
      some ((text.drop (keyLen + 1)).dropWhile (· == space))
    else none

/-! ## One line -/

theorem linesOf_append {content : List UInt8} (flat : lf ∉ content) (rest : List UInt8) :
    linesOf (content ++ lf :: rest) = { content := content, ended := true } :: linesOf rest := by
  induction content with
  | nil => simp [linesOf]
  | cons first content ih =>
    have hfirst : first ≠ lf := fun same => flat (same ▸ List.mem_cons_self)
    rw [List.cons_append, linesOf, if_neg hfirst, ih fun member => flat (List.mem_cons_of_mem _ member)]

theorem linesOf_last {content : List UInt8} (flat : lf ∉ content) (nonempty : content ≠ []) :
    linesOf content = [{ content := content, ended := false }] := by
  induction content with
  | nil => exact absurd rfl nonempty
  | cons first content ih =>
    have hfirst : first ≠ lf := fun same => flat (same ▸ List.mem_cons_self)
    rw [linesOf, if_neg hfirst]
    cases content with
    | nil => rfl
    | cons second content =>
      rw [ih (fun member => flat (List.mem_cons_of_mem _ member)) (List.cons_ne_nil _ _)]

variable {rest : List UInt8}

/-- A string that is not empty starts with a line. -/
theorem linesOf_cases (nonempty : rest ≠ []) :
    ∃ line tail, rest = line.bytes ++ tail ∧ linesOf rest = line :: linesOf tail ∧
      lf ∉ line.content ∧ (line.ended = false → tail = [] ∧ line.content ≠ []) := by
  cases hsearch : search [lf] rest with
  | none =>
    have hflat := search_eq_none_iff.mp hsearch
    refine ⟨{ content := rest, ended := false }, [], ?_, linesOf_last hflat nonempty, hflat,
      fun _ => ⟨rfl, nonempty⟩⟩
    simp [HeaderLine.bytes]
  | some position =>
    obtain ⟨content, tail, rfl, hflat, _⟩ := search_split hsearch
    refine ⟨{ content := content, ended := true }, tail, ?_, linesOf_append hflat tail, hflat,
      fun impossible => by cases impossible⟩
    simp [HeaderLine.bytes]

theorem memchr_append (byte : UInt8) (front rest : List UInt8) :
    memchr byte (front ++ rest) front.length =
      match search [byte] front with
      | some position => .hit position
      | none => .miss := by
  induction front with
  | nil =>
    cases rest <;> rfl
  | cons first front ih =>
    rw [List.cons_append, List.length_cons, memchr, search]
    by_cases hfirst : first = byte
    · simp [hfirst]
    · have hnot : ¬ ([byte].isPrefixOf (first :: front) = true) := by
        simp [Ne.symm hfirst]
      rw [if_neg hfirst, if_neg hnot, ih]
      cases search [byte] front <;> rfl

/-- A count beyond the end of the string: the byte is found, or the string is left. -/
theorem memchr_beyond (byte : UInt8) (rest : List UInt8) {count : Nat}
    (beyond : rest.length + 2 ≤ count) :
    memchr byte rest count =
      match search [byte] rest with
      | some position => .hit position
      | none => .past := by
  induction rest generalizing count with
  | nil =>
    obtain ⟨more, rfl⟩ : ∃ more, count = more + 2 := ⟨count - 2, by simp at beyond; omega⟩
    rfl
  | cons first rest ih =>
    rw [List.length_cons] at beyond
    obtain ⟨more, rfl⟩ : ∃ more, count = more + 1 := ⟨count - 1, by omega⟩
    rw [memchr, search]
    by_cases hfirst : first = byte
    · simp [hfirst]
    · have hnot : ¬ ([byte].isPrefixOf (first :: rest) = true) := by
        simp [Ne.symm hfirst]
      rw [if_neg hfirst, if_neg hnot, ih (by omega)]
      cases search [byte] rest <;> rfl

theorem lookupFrom_nil (name : List UInt8) (fuel pos : Nat) :
    lookupFrom name fuel pos [] = .absent := by
  cases fuel with
  | zero | succ fuel => rfl

variable {name : List UInt8} {pos : Nat}

/-- A text that does not stop before its start is searched as a field. -/
theorem lookupLine_shown {shown back : List UInt8} (small : shown.length < 2 ^ 64)
    (stops : lineStop (shown ++ back) = shown.length) :
    lookupLine name pos (shown ++ back) =
      (fieldValue name shown).map fun value =>
        .found (pos + (shown.length - value.length)) value.length := by
  have hcount : ((shown.length : Int) % 2 ^ 64).toNat = shown.length := by omega
  rw [lookupLine, stops, hcount, memchr_append, fieldValue]
  cases hcolon : search [colon] shown with
  | none => rfl
  | some keyLen =>
    obtain ⟨key, rest, hshown, _, rfl⟩ := search_split hcolon
    have hkey : (shown ++ back).take key.length = shown.take key.length := by
      rw [hshown]
      simp
    have hbehind : shown.drop (key.length + 1) = rest := by
      rw [hshown]
      simp
    have hlength : shown.length = key.length + 1 + rest.length := by
      rw [hshown, List.length_append, List.length_cons]
      omega
    have hparts : (rest.takeWhile (· == space)).length + (rest.dropWhile (· == space)).length =
        rest.length := by
      rw [← List.length_append, List.takeWhile_append_dropWhile]
    simp only [hkey, Int.toNat_natCast, List.take_left, hbehind]
    split
    · simp only [Option.map_some, Option.some.injEq, Lookup.found.injEq]
      omega
    · rfl

variable {line : HeaderLine}

namespace HeaderLine

/-- A line of nothing but a line feed. -/
def Bare (line : HeaderLine) : Prop := line.content = [] ∧ line.ended = true

instance (line : HeaderLine) : Decidable line.Bare := inferInstanceAs (Decidable (_ ∧ _))

theorem Bare.bytes_eq (bare : line.Bare) : line.bytes = [lf] := by
  rw [bytes, if_pos bare.2, bare.1, List.nil_append]

theorem Bare.shown_eq (bare : line.Bare) : line.shown = [] := by
  rw [shown, bare.1]
  exact ite_self []

theorem Bare.text_eq (bare : line.Bare) : line.text = [] := by
  rw [text, bare.1]
  exact ite_self []

end HeaderLine

variable {tail : List UInt8}

/-- The round on a line that is not a lone line feed. -/
theorem lookupLine_of_text (flat : lf ∉ line.content) (last : line.ended = false → tail = [])
    (text : ¬ line.Bare) (small : line.content.length < 2 ^ 64) :
    lookupLine name pos (line.bytes ++ tail) =
      (fieldValue name line.shown).map fun value =>
        .found (pos + (line.shown.length - value.length)) value.length := by
  obtain ⟨content, ended⟩ := line
  cases ended with
  | false =>
    obtain rfl := last rfl
    have hend : search [lf] (HeaderLine.bytes ⟨content, false⟩) = none :=
      search_eq_none_iff.mpr flat
    refine lookupLine_shown small ?_
    rw [List.append_nil, lineStop, hend]
  | true =>
    have hfilled : content ≠ [] := fun hnil => text ⟨hnil, rfl⟩
    have hlast : content = content.dropLast ++ [content.getLast hfilled] :=
      (List.dropLast_concat_getLast hfilled).symm
    have hbytes : HeaderLine.bytes ⟨content, true⟩ ++ tail =
        content.dropLast ++ (content.getLast hfilled :: lf :: tail) := by
      change content ++ [lf] ++ tail = _
      conv_lhs => rw [hlast]
      simp
    have hend : search [lf] (HeaderLine.bytes ⟨content, true⟩ ++ tail) = some content.length := by
      change search [lf] (content ++ [lf] ++ tail) = _
      rw [List.append_assoc]
      exact search_symbol flat tail
    have hstop : lineStop (HeaderLine.bytes ⟨content, true⟩ ++ tail) =
        content.dropLast.length := by
      have hpositive := List.length_pos_iff.mpr hfilled
      simp only [lineStop, hend]
      rw [List.length_dropLast]
      omega
    rw [hbytes] at hstop ⊢
    refine lookupLine_shown ?_ hstop
    change content.length < 2 ^ 64 at small
    rw [List.length_dropLast]
    omega

def bareKey (tail : List UInt8) : List UInt8 := lf :: tail.takeWhile (· != colon)

/-- The round on a lone line feed: the count wraps, so the rest of the string is scanned. -/
theorem lookupLine_of_bare (small : tail.length < 2 ^ 63) :
    lookupLine name pos (lf :: tail) =
      if colon ∉ tail then some .outside
      else if equalsIgnoreCase (bareKey tail) name then
        some (.found (pos + (bareKey tail).length + 1) (2 ^ 64 - (bareKey tail).length - 2))
      else none := by
  have hend : search [lf] (lf :: tail) = some 0 := search_of_start (by simp)
  have hstop : lineStop (lf :: tail) = -1 := by simp [lineStop, hend]
  have hcount : ((-1 : Int) % 2 ^ 64).toNat = 2 ^ 64 - 1 := by decide
  have hbeyond : (lf :: tail).length + 2 ≤ 2 ^ 64 - 1 := by
    rw [List.length_cons]
    omega
  rw [lookupLine, hstop, hcount, memchr_beyond colon _ hbeyond]
  by_cases hcolon : colon ∈ tail
  · obtain ⟨front, rest, rfl, habsent⟩ := List.eq_append_cons_of_mem hcolon
    have hfound : search [colon] (lf :: (front ++ colon :: rest)) = some (front.length + 1) := by
      rw [← List.cons_append, search_symbol, List.length_cons]
      intro member
      rcases List.mem_cons.mp member with hsame | hfront
      · exact absurd hsame (by decide)
      · exact habsent hfront
    have hkey : bareKey (front ++ colon :: rest) = lf :: front := by
      rw [bareKey, List.takeWhile_append_of_pos, List.takeWhile_cons_of_neg (by decide),
        List.append_nil]
      intro byte member
      simp only [bne_iff_ne]
      rintro rfl
      exact habsent member
    have hlength : front.length < 2 ^ 63 := by
      rw [List.length_append] at small
      omega
    simp only [hfound, hkey, List.take_succ_cons, List.take_left, List.length_cons]
    split
    · have hbefore : (-1 : Int).toNat = 0 := rfl
      simp only [hbefore, List.take_zero, List.drop_nil, List.takeWhile_nil,
        List.length_nil, Option.some.injEq, Lookup.found.injEq]
      omega
    · rfl
  · have hnone : search [colon] (lf :: tail) = none := by
      refine search_eq_none_iff.mpr ?_
      intro member
      rcases List.mem_cons.mp member with hsame | htail
      · exact absurd hsame (by decide)
      · exact hcolon htail
    simp only [hnone, hcolon, not_false_iff, if_true]

variable {fuel : Nat}

/-- After a round that does not end the lookup it goes on behind the line. -/
theorem lookupFrom_succ (flat : lf ∉ line.content)
    (last : line.ended = false → tail = [] ∧ line.content ≠ []) :
    lookupFrom name (fuel + 1) pos (line.bytes ++ tail) =
      match lookupLine name pos (line.bytes ++ tail) with
      | some answer => answer
      | none => lookupFrom name fuel (pos + line.bytes.length) tail := by
  obtain ⟨content, ended⟩ := line
  cases ended with
  | false =>
    obtain ⟨rfl, hfilled⟩ := last rfl
    have hend : search [lf] (HeaderLine.bytes ⟨content, false⟩ ++ []) = none := by
      rw [List.append_nil]
      exact search_eq_none_iff.mpr flat
    have hnonempty : HeaderLine.bytes ⟨content, false⟩ ++ [] ≠ [] := by
      rw [List.append_nil]
      exact hfilled
    rw [lookupFrom, if_neg hnonempty, hend, lookupFrom_nil]
  | true =>
    have hend : search [lf] (HeaderLine.bytes ⟨content, true⟩ ++ tail) = some content.length := by
      change search [lf] (content ++ [lf] ++ tail) = _
      rw [List.append_assoc]
      exact search_symbol flat tail
    have hlength : (HeaderLine.bytes ⟨content, true⟩).length = content.length + 1 :=
      List.length_append
    rw [lookupFrom, if_neg (by simp [HeaderLine.bytes]), hend]
    cases lookupLine name pos (HeaderLine.bytes ⟨content, true⟩ ++ tail) with
    | some answer => rfl
    | none =>
      change lookupFrom name fuel (pos + (content.length + 1)) (List.drop (content.length + 1) _) = _
      rw [← hlength, List.drop_left]

/-! ## When the lookup is right -/

/-- An answer is right for the lines from a position on: the lookup stayed inside the string,
and a value is that of the first field of the name, inside its line. -/
def Right (name : List UInt8) (pos : Nat) (lines : List HeaderLine) : Lookup → Prop
  | .absent => True
  | .outside => False
  | .found start len =>
    ∃ before line after value, lines = before ++ line :: after ∧
      (∀ other ∈ before, fieldValue name other.text = none) ∧
      fieldValue name line.text = some value ∧
      pos + (render before).length ≤ start ∧
      start + len ≤ pos + (render before).length + line.text.length ∧
      ((render lines).drop (start - pos)).take len = value

/-- The lines do not mislead the lookup.  A lone line feed must have a colon behind it, and
the bytes up to there must not be the name.  A line that is shown as a field of the name must
be one with that value.  A field of the name that is not shown as one must have no line shown
as one behind it. -/
def Harmless (name : List UInt8) : List HeaderLine → Prop
  | [] => True
  | line :: lines =>
    if line.Bare then
      (colon ∈ render lines ∧ equalsIgnoreCase (bareKey (render lines)) name = false) ∧
        Harmless name lines
    else
      match fieldValue name line.shown with
      | some value => fieldValue name line.text = some value
      | none =>
        (fieldValue name line.text ≠ none →
          ∀ other ∈ lines, fieldValue name other.shown = none) ∧ Harmless name lines

theorem fieldValue_nil (name : List UInt8) : fieldValue name [] = none := rfl

theorem render_cons (line : HeaderLine) (lines : List HeaderLine) :
    render (line :: lines) = line.bytes ++ render lines := rfl

theorem HeaderLine.text_length_le (line : HeaderLine) : line.text.length ≤ line.content.length := by
  rw [text]
  split
  · rw [List.length_dropLast]
    omega
  · exact Nat.le_refl _

theorem HeaderLine.shown_length_le (line : HeaderLine) :
    line.shown.length ≤ line.content.length := by
  rw [shown]
  split
  · rw [List.length_dropLast]
    omega
  · exact Nat.le_refl _

theorem HeaderLine.content_length_le (line : HeaderLine) :
    line.content.length ≤ line.bytes.length := by
  rw [bytes]
  split
  · rw [List.length_append]
    omega
  · exact Nat.le_refl _

/-- The value of a field is the end of its text. -/
theorem fieldValue_suffix {text value : List UInt8} (found : fieldValue name text = some value) :
    value <:+ text := by
  rw [fieldValue] at found
  split at found
  · cases found
  · split at found
    · cases found
      exact (List.dropWhile_suffix _).trans (List.drop_suffix _ _)
    · cases found

variable {lines : List HeaderLine}

/-- An answer from behind the first line is right for all lines when the first is no field of
the name. -/
theorem right_cons {answer : Lookup} (other : fieldValue name line.text = none)
    (behind : ∀ start len, answer = .found start len → pos + line.bytes.length ≤ start) :
    Right name pos (line :: lines) answer ↔ Right name (pos + line.bytes.length) lines answer := by
  cases answer with
  | absent | outside => exact Iff.rfl
  | found start len =>
    have hbehind := behind start len rfl
    have hvalue : ((render (line :: lines)).drop (start - pos)).take len =
        ((render lines).drop (start - (pos + line.bytes.length))).take len := by
      rw [render_cons, List.drop_append, List.drop_eq_nil_of_le (by omega), List.nil_append,
        Nat.sub_sub]
    constructor
    · rintro ⟨before, found, after, value, hlines, hbefore, hfound, hstart, hend, htaken⟩
      cases before with
      | nil =>
        rw [List.nil_append, List.cons.injEq] at hlines
        rw [← hlines.1, other] at hfound
        cases hfound
      | cons first before =>
        rw [List.cons_append, List.cons.injEq] at hlines
        obtain ⟨rfl, hlines⟩ := hlines
        rw [render_cons, List.length_append] at hstart hend
        refine ⟨before, found, after, value, hlines, ?_, hfound, by omega, by omega, ?_⟩
        · exact fun line member => hbefore line (List.mem_cons_of_mem _ member)
        · rw [← hvalue]
          exact htaken
    · rintro ⟨before, found, after, value, hlines, hbefore, hfound, hstart, hend, htaken⟩
      refine ⟨line :: before, found, after, value, ?_, ?_, hfound, ?_, ?_, ?_⟩
      · rw [hlines, List.cons_append]
      · intro earlier member
        rcases List.mem_cons.mp member with rfl | hmember
        · exact other
        · exact hbefore earlier hmember
      · rw [render_cons, List.length_append]
        omega
      · rw [render_cons, List.length_append]
        omega
      · rw [hvalue]
        exact htaken

theorem HeaderLine.shown_append (line : HeaderLine) : ∃ back, line.bytes = line.shown ++ back := by
  rw [bytes, shown]
  split
  · refine ⟨line.content.drop (line.content.length - 1) ++ [lf], ?_⟩
    rw [List.dropLast_eq_take, ← List.append_assoc, List.take_append_drop]
  · exact ⟨[], (List.append_nil _).symm⟩

theorem HeaderLine.shown_length_le_text (line : HeaderLine) :
    line.shown.length ≤ line.text.length := by
  rw [shown, text]
  repeat' split
  all_goals try exact Nat.le_refl _
  · rw [List.length_dropLast]
    omega
  · rename_i hopen hboth
    exact absurd hboth.1 hopen

/-- The answer for a line that is shown as a field is right when the field has that value. -/
theorem right_shown {value : List UInt8} (found : fieldValue name line.shown = some value)
    (last : line.ended = false → lines = []) :
    Right name pos (line :: lines) (.found (pos + (line.shown.length - value.length)) value.length) ↔
      fieldValue name line.text = some value := by
  have hsuffix := fieldValue_suffix found
  have hlength := hsuffix.length_le
  have hcontent := line.shown_length_le
  have hread : ((render (line :: lines)).drop
      (pos + (line.shown.length - value.length) - pos)).take value.length = value := by
    obtain ⟨back, hback⟩ := line.shown_append
    obtain ⟨front, hfront⟩ := hsuffix
    have hsize : line.shown.length - value.length = front.length := by
      rw [← hfront, List.length_append]
      omega
    rw [Nat.add_sub_cancel_left, hsize, render_cons, hback, ← hfront, List.append_assoc,
      List.append_assoc, List.drop_left, List.take_left]
  constructor
  · rintro ⟨before, other, after, content, hlines, hbefore, hfound, hstart, hend, htaken⟩
    cases before with
    | nil =>
      rw [List.nil_append, List.cons.injEq] at hlines
      rw [hlines.1, hfound, ← htaken, hread]
    | cons first before =>
      rw [List.cons_append, List.cons.injEq] at hlines
      obtain ⟨rfl, hlines⟩ := hlines
      have hended : line.ended = true := by
        by_contra hopen
        rw [last (eq_false_of_ne_true hopen)] at hlines
        exact absurd hlines (by simp)
      have hbytes : line.bytes.length = line.content.length + 1 := by
        rw [HeaderLine.bytes, if_pos hended, List.length_append, List.length_singleton]
      rw [render_cons, List.length_append] at hstart
      omega
  · intro htext
    have hmore := line.shown_length_le_text
    refine ⟨[], line, lines, value, rfl, ?_, htext, ?_, ?_, hread⟩
    · exact fun _ impossible => absurd impossible List.not_mem_nil
    · change pos + 0 ≤ _
      omega
    · omega

/-- Behind a field of the name no value is right. -/
theorem right_skipped {value : List UInt8} {answer : Lookup}
    (field : fieldValue name line.text = some value) (ended : line.ended = true)
    (behind : ∀ start len, answer = .found start len → pos + line.bytes.length ≤ start) :
    Right name pos (line :: lines) answer ↔ answer = .absent := by
  cases answer with
  | absent => exact ⟨fun _ => rfl, fun _ => trivial⟩
  | outside => exact ⟨fun impossible => impossible.elim, fun impossible => by cases impossible⟩
  | found start len =>
    refine ⟨?_, fun impossible => by cases impossible⟩
    rintro ⟨before, other, after, content, hlines, hbefore, hfound, hstart, hend, htaken⟩
    have hbehind := behind start len rfl
    have hbytes : line.bytes.length = line.content.length + 1 := by
      rw [HeaderLine.bytes, if_pos ended, List.length_append, List.length_singleton]
    have htext := line.text_length_le
    cases before with
    | nil =>
      rw [List.nil_append, List.cons.injEq] at hlines
      rw [← hlines.1] at hend
      change _ ≤ pos + 0 + _ at hend
      omega
    | cons first before =>
      rw [List.cons_append, List.cons.injEq] at hlines
      have hnone := hbefore first List.mem_cons_self
      rw [← hlines.1, field] at hnone
      cases hnone

/-- A value whose length has wrapped is not right. -/
theorem not_right_wrapped {start len : Nat} (wrapped : pos + (render lines).length < start + len) :
    ¬ Right name pos lines (.found start len) := by
  rintro ⟨before, line, after, value, rfl, _, _, _, hend, _⟩
  have htext := line.text_length_le
  have hcontent := line.content_length_le
  have hrender : (render (before ++ line :: after)).length =
      (render before).length + line.bytes.length + (render after).length := by
    simp [render, Nat.add_assoc]
  omega

/-! ## Whole lookups -/

theorem lookupLine_start (flat : lf ∉ line.content) (last : line.ended = false → tail = [])
    (small : (line.bytes ++ tail).length < 2 ^ 63) {start len : Nat}
    (answered : lookupLine name pos (line.bytes ++ tail) = some (.found start len)) :
    pos ≤ start := by
  have hcontent := line.content_length_le
  rw [List.length_append] at small
  by_cases hbare : line.Bare
  · rw [hbare.bytes_eq, List.singleton_append, lookupLine_of_bare (by omega)] at answered
    split at answered
    · cases answered
    · split at answered
      · cases answered
        omega
      · cases answered
  · rw [lookupLine_of_text flat last hbare (by omega)] at answered
    obtain ⟨value, _, hanswer⟩ := Option.map_eq_some_iff.mp answered
    cases hanswer
    omega

theorem lookupFrom_start (small : rest.length < 2 ^ 63) {start len : Nat}
    (answered : lookupFrom name fuel pos rest = .found start len) : pos ≤ start := by
  induction fuel generalizing pos rest with
  | zero => cases answered
  | succ fuel ih =>
    by_cases hempty : rest = []
    · rw [hempty] at answered
      cases answered
    · obtain ⟨line, tail, rfl, _, hflat, hlast⟩ := linesOf_cases hempty
      rw [lookupFrom_succ hflat hlast] at answered
      split at answered
      · rename_i answer hline
        rw [answered] at hline
        exact lookupLine_start hflat (fun hopen => (hlast hopen).1) small hline
      · rw [List.length_append] at small
        have hlater := ih (by omega) answered
        omega

theorem HeaderLine.bytes_pos (filled : line.ended = false → line.content ≠ []) :
    0 < line.bytes.length := by
  rw [bytes]
  split
  · rw [List.length_append, List.length_singleton]
    omega
  · rename_i hopen
    exact List.length_pos_iff.mpr (filled (eq_false_of_ne_true hopen))

/-- The lookup on one line and what is behind it, by what the line is. -/
theorem lookupFrom_line (flat : lf ∉ line.content)
    (last : line.ended = false → tail = [] ∧ line.content ≠ [])
    (small : (line.bytes ++ tail).length < 2 ^ 63) :
    lookupFrom name (fuel + 1) pos (line.bytes ++ tail) =
      if line.Bare then
        if colon ∉ tail then .outside
        else if equalsIgnoreCase (bareKey tail) name then
          .found (pos + (bareKey tail).length + 1) (2 ^ 64 - (bareKey tail).length - 2)
        else lookupFrom name fuel (pos + line.bytes.length) tail
      else
        match fieldValue name line.shown with
        | some value => .found (pos + (line.shown.length - value.length)) value.length
        | none => lookupFrom name fuel (pos + line.bytes.length) tail := by
  have hcontent := line.content_length_le
  rw [List.length_append] at small
  rw [lookupFrom_succ flat last]
  by_cases hbare : line.Bare
  · rw [hbare.bytes_eq, List.singleton_append, lookupLine_of_bare (by omega)]
    split_ifs <;> rfl
  · rw [if_neg hbare, lookupLine_of_text flat (fun hopen => (last hopen).1) hbare (by omega)]
    cases fieldValue name line.shown <;> rfl

/-- The lookup finds nothing when no line is shown as a field of the name and no lone line
feed misleads it. -/
theorem lookupFrom_absent_iff (enough : rest.length ≤ fuel) (small : rest.length < 2 ^ 63) :
    lookupFrom name fuel pos rest = .absent ↔
      (∀ line ∈ linesOf rest, fieldValue name line.shown = none) ∧
        Harmless name (linesOf rest) := by
  induction fuel generalizing pos rest with
  | zero =>
    rw [List.length_eq_zero_iff.mp (Nat.le_zero.mp enough)]
    exact ⟨fun _ => ⟨fun _ impossible => absurd impossible List.not_mem_nil, trivial⟩, fun _ => rfl⟩
  | succ fuel ih =>
    by_cases hempty : rest = []
    · rw [hempty]
      exact ⟨fun _ => ⟨fun _ impossible => absurd impossible List.not_mem_nil, trivial⟩,
        fun _ => rfl⟩
    · obtain ⟨line, tail, rfl, hlines, hflat, hlast⟩ := linesOf_cases hempty
      have hpositive := line.bytes_pos fun hopen => (hlast hopen).2
      rw [lookupFrom_line hflat hlast small, hlines, List.forall_mem_cons, Harmless,
        render_linesOf]
      rw [List.length_append] at enough small
      have honward : lookupFrom name fuel (pos + line.bytes.length) tail = .absent ↔
          (∀ other ∈ linesOf tail, fieldValue name other.shown = none) ∧
            Harmless name (linesOf tail) := ih (by omega) (by omega)
      by_cases hbare : line.Bare
      · have hshown : fieldValue name line.shown = none := by
          rw [hbare.shown_eq, fieldValue_nil]
        rw [if_pos hbare, if_pos hbare]
        by_cases hcolon : colon ∈ tail
        · cases hkey : equalsIgnoreCase (bareKey tail) name with
          | true => simp [hcolon]
          | false => simp [hcolon, hshown, honward]
        · simp [hcolon]
      · rw [if_neg hbare, if_neg hbare]
        cases hshown : fieldValue name line.shown with
        | some value => simp
        | none =>
          rw [honward]
          constructor
          · rintro ⟨hnone, hharmless⟩
            exact ⟨⟨rfl, hnone⟩, fun _ => hnone, hharmless⟩
          · rintro ⟨⟨_, hnone⟩, _, hharmless⟩
            exact ⟨hnone, hharmless⟩

/-- The lookup is right on exactly the lines that do not mislead it. -/
theorem right_lookupFrom_iff (enough : rest.length ≤ fuel) (small : rest.length < 2 ^ 63) :
    Right name pos (linesOf rest) (lookupFrom name fuel pos rest) ↔
      Harmless name (linesOf rest) := by
  induction fuel generalizing pos rest with
  | zero =>
    rw [List.length_eq_zero_iff.mp (Nat.le_zero.mp enough)]
    exact Iff.rfl
  | succ fuel ih =>
    by_cases hempty : rest = []
    · rw [hempty]
      exact Iff.rfl
    · obtain ⟨line, tail, rfl, hlines, hflat, hlast⟩ := linesOf_cases hempty
      have hpositive := line.bytes_pos fun hopen => (hlast hopen).2
      have hrender : (render (line :: linesOf tail)).length = (line.bytes ++ tail).length := by
        rw [render_cons, render_linesOf]
      rw [lookupFrom_line hflat hlast small, hlines, Harmless, render_linesOf]
      rw [List.length_append] at enough
      have htail : tail.length < 2 ^ 63 := by
        rw [List.length_append] at small
        omega
      have honward : Right name (pos + line.bytes.length) (linesOf tail)
          (lookupFrom name fuel (pos + line.bytes.length) tail) ↔
            Harmless name (linesOf tail) := ih (by omega) htail
      have hbehind : ∀ start len, lookupFrom name fuel (pos + line.bytes.length) tail =
          .found start len → pos + line.bytes.length ≤ start := fun start len =>
        lookupFrom_start htail
      by_cases hbare : line.Bare
      · have htext : fieldValue name line.text = none := by
          rw [hbare.text_eq, fieldValue_nil]
        rw [if_pos hbare, if_pos hbare]
        by_cases hcolon : colon ∈ tail
        · rw [if_neg (not_not_intro hcolon)]
          cases hkey : equalsIgnoreCase (bareKey tail) name with
          | true =>
            have hwrapped : ¬ Right name pos (line :: linesOf tail)
                (.found (pos + (bareKey tail).length + 1)
                  (2 ^ 64 - (bareKey tail).length - 2)) := by
              apply not_right_wrapped
              omega
            simpa using hwrapped
          | false =>
            rw [if_neg Bool.false_ne_true, right_cons htext hbehind, honward]
            simp [hcolon]
        · simp [hcolon, Right]
      · rw [if_neg hbare, if_neg hbare]
        cases hshown : fieldValue name line.shown with
        | some value =>
          refine right_shown hshown ?_
          intro hopen
          rw [(hlast hopen).1]
          rfl
        | none =>
          cases htext : fieldValue name line.text with
          | none =>
            rw [right_cons htext hbehind, honward]
            simp
          | some value =>
            have hended : line.ended = true := by
              by_contra hopen
              have hclosed : ¬ (line.ended = true ∧ line.content.getLast? = some cr) :=
                fun hboth => hopen hboth.1
              rw [HeaderLine.text, if_neg hclosed] at htext
              rw [HeaderLine.shown, if_neg hopen, htext] at hshown
              cases hshown
            rw [right_skipped htext hended hbehind, lookupFrom_absent_iff (by omega) htail]
            simp

/-- A block whose line feeds all follow a carriage return is harmless. -/
theorem harmless_of_crlf (name : List UInt8)
    (ended : ∀ line ∈ lines, line.ended = true → line.content.getLast? = some cr) :
    Harmless name lines := by
  induction lines with
  | nil => trivial
  | cons line lines ih =>
    have hrest := ih fun other member => ended other (List.mem_cons_of_mem _ member)
    have hline := ended line List.mem_cons_self
    have hfull : ¬ line.Bare := by
      intro hbare
      have hlast := hline hbare.2
      rw [hbare.1] at hlast
      cases hlast
    have hsame : line.text = line.shown := by
      rw [HeaderLine.text, HeaderLine.shown]
      by_cases hended : line.ended = true
      · rw [if_pos ⟨hended, hline hended⟩, if_pos hended]
      · rw [if_neg fun hboth => hended hboth.1, if_neg hended]
    rw [Harmless, if_neg hfull, hsame]
    cases hshown : fieldValue name line.shown with
    | some value => rfl
    | none => exact ⟨fun impossible => absurd rfl impossible, hrest⟩

/-- Header lookup stays inside the string and finds the first field of the name, with its
whole value, for exactly the blocks that are harmless for the name. -/
theorem getHeader_right_iff (headers name : CStr) (small : headers.bytes.length < 2 ^ 63) :
    Right name.bytes 0 (linesOf headers.bytes) (getHeader headers name) ↔
      Harmless name.bytes (linesOf headers.bytes) :=
  right_lookupFrom_iff (Nat.le_refl _) small

/-- The second of two headers, asked for in another case. -/
theorem getHeader_right_second :
    let headers := CStr.ofBuffer (ascii "A: b\r\nC:  d\r\n")
    let name := CStr.ofBuffer (ascii "c")
    Right name.bytes 0 (linesOf headers.bytes) (getHeader headers name) ∧
      getHeader headers name = .found 10 1 := by
  intro headers name
  refine ⟨(getHeader_right_iff headers name (by decide)).mpr (harmless_of_crlf _ ?_), ?_⟩
  · decide
  · decide

/-- A lone line feed with no colon behind it sends the scan past the end of the string.  A
value before a bare line feed loses its last byte.  A field without a value is passed over
when its line ends in a bare line feed, and a later field of that name is returned. -/
theorem getHeader_misled :
    let name := CStr.ofBuffer (ascii "a")
    (getHeader (CStr.ofBuffer [lf]) name = .outside ∧
        ¬ Right name.bytes 0 (linesOf [lf]) (getHeader (CStr.ofBuffer [lf]) name)) ∧
      (getHeader (CStr.ofBuffer (ascii "a: bc\n")) name = .found 3 1 ∧
        fieldValue name.bytes (ascii "a: bc") = some (ascii "bc")) ∧
      getHeader (CStr.ofBuffer (ascii "a:\na: b\r\n")) name = .found 6 1 ∧
        fieldValue name.bytes (ascii "a:") = some [] := by
  intro name
  have houtside : getHeader (CStr.ofBuffer [lf]) name = .outside := by decide
  refine ⟨⟨houtside, ?_⟩, by decide, by decide⟩
  exact not_false

end FuseTransport.Http
