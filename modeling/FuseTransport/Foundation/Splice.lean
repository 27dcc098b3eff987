import Mathlib.Data.List.Basic
import Mathlib.Data.List.Induction

/-!
# Overwriting and resizing buffers

A buffer that is grown to hold a piece and then overwritten by it shows the
piece where it was put and its former content everywhere else.  The last two
sections follow the marked entries of a growing prefix of a list, and recognise
the lists that count up from zero.
-/

namespace FuseTransport.Foundation.Splice

universe u

variable {α : Type u}

def resize (fill : α) (buf : List α) (size : Nat) : List α :=
  buf.take size ++ List.replicate (size - buf.length) fill

def splice (fill : α) (buf : List α) (offset : Nat) (piece : List α) : List α :=
  let grown :=
    if buf.length < offset + piece.length then resize fill buf (offset + piece.length) else buf
  grown.take offset ++ piece ++ grown.drop (offset + piece.length)

variable {fill : α} {buf : List α}

@[simp]
theorem length_resize (size : Nat) : (resize fill buf size).length = size := by
  rw [resize, List.length_append, List.length_take, List.length_replicate]
  omega

theorem getElem?_resize {size i : Nat} (old : i < buf.length) (inside : i < size) :
    (resize fill buf size)[i]? = buf[i]? := by
  rw [resize, List.getElem?_append_left (by rw [List.length_take]; omega),
    List.getElem?_take_of_lt inside]

/-- A buffer that agrees with a message up to its end is cut to the message. -/
theorem resize_eq {message : List α} (agree : ∀ i, i < message.length → buf[i]? = message[i]?) :
    resize fill buf message.length = message := by
  apply List.ext_getElem?
  intro i
  rcases Nat.lt_or_ge i message.length with hinside | houtside
  · have hold : i < buf.length := by
      have hsome := agree i hinside
      rw [List.getElem?_eq_getElem hinside] at hsome
      exact (List.getElem?_eq_some_iff.mp hsome).1
    rw [getElem?_resize hold hinside, agree i hinside]
  · rw [List.getElem?_eq_none (by rw [length_resize]; exact houtside),
      List.getElem?_eq_none houtside]

/-- The content that is grown is still there. -/
theorem getElem?_grown {size i : Nat} (old : i < buf.length) :
    (if buf.length < size then resize fill buf size else buf)[i]? = buf[i]? := by
  split
  · rename_i hgrows
    exact getElem?_resize old (Nat.lt_trans old hgrows)
  · rfl

theorem length_grown (fill : α) (buf : List α) (size : Nat) :
    size ≤ (if buf.length < size then resize fill buf size else buf).length := by
  split
  · exact Nat.le_of_eq (length_resize size).symm
  · rename_i hlarge
    exact Nat.le_of_not_lt hlarge

variable {piece : List α} {offset : Nat}

theorem getElem?_splice_inside {i : Nat} (after : offset ≤ i) (before : i < offset + piece.length) :
    (splice fill buf offset piece)[i]? = piece[i - offset]? := by
  have hgrown := length_grown fill buf (offset + piece.length)
  rw [splice]
  rw [List.append_assoc, List.getElem?_append_right (by rw [List.length_take]; omega),
    List.length_take, Nat.min_eq_left (by omega), List.getElem?_append_left (by omega)]

theorem getElem?_splice_outside {i : Nat} (old : i < buf.length)
    (outside : i < offset ∨ offset + piece.length ≤ i) :
    (splice fill buf offset piece)[i]? = buf[i]? := by
  have hgrown := length_grown fill buf (offset + piece.length)
  have hsame : (if buf.length < offset + piece.length then
      resize fill buf (offset + piece.length) else buf)[i]? = buf[i]? := getElem?_grown old
  rw [splice]
  rcases outside with hbefore | hafter
  · rw [List.append_assoc, List.getElem?_append_left (by rw [List.length_take]; omega),
      List.getElem?_take_of_lt hbefore, hsame]
  · rw [List.getElem?_append_right (by rw [List.length_append, List.length_take]; omega),
      List.length_append, List.length_take, Nat.min_eq_left (by omega), List.getElem?_drop,
      Nat.add_sub_cancel' hafter, hsame]

theorem length_splice (fill : α) (buf : List α) (offset : Nat) (piece : List α) :
    (splice fill buf offset piece).length = max buf.length (offset + piece.length) := by
  have hgrown : (if buf.length < offset + piece.length then
      resize fill buf (offset + piece.length) else buf).length =
        max buf.length (offset + piece.length) := by
    split
    · rw [length_resize]
      omega
    · omega
  rw [splice, List.length_append, List.length_append, List.length_take, List.length_drop]
  omega

/-- A piece that reaches the end of the buffer or beyond replaces all that is behind its
start. -/
theorem splice_behind (start : offset ≤ buf.length) (reaches : buf.length ≤ offset + piece.length) :
    splice fill buf offset piece = buf.take offset ++ piece := by
  have hlength : (if buf.length < offset + piece.length then
      resize fill buf (offset + piece.length) else buf).length = offset + piece.length := by
    split
    · exact length_resize _
    · omega
  have hfront : (if buf.length < offset + piece.length then
      resize fill buf (offset + piece.length) else buf).take offset = buf.take offset := by
    split
    · rw [resize, List.take_append_of_le_length (by rw [List.length_take]; omega), List.take_take,
        Nat.min_eq_left (by omega)]
    · rfl
  rw [splice, hfront, List.drop_eq_nil_of_le (Nat.le_of_eq hlength), List.append_nil]

/-- A prefix that grows over unmarked entries gains no marked entry. -/
theorem filter_take_of_unmarked {marked : α → Bool} {entries : List α} {low high : Nat}
    (ordered : low ≤ high)
    (unmarked : ∀ k entry, low ≤ k → k < high → entries[k]? = some entry → marked entry = false) :
    (entries.take high).filter marked = (entries.take low).filter marked := by
  obtain ⟨extra, rfl⟩ := Nat.exists_eq_add_of_le ordered
  induction extra with
  | zero => rfl
  | succ extra ih =>
    have hbefore := ih (Nat.le_add_right _ _) fun k entry hlow hhigh =>
      unmarked k entry hlow (Nat.lt_succ_of_lt hhigh)
    rw [← Nat.add_assoc, List.take_add_one, List.filter_append, hbefore]
    cases hentry : entries[low + extra]? with
    | none => exact List.append_nil _
    | some entry =>
      have hfalse := unmarked (low + extra) entry (Nat.le_add_right _ _)
        (Nat.lt_succ_self _) hentry
      simp [hfalse]

/-- A prefix that grows by one marked entry gains exactly that entry. -/
theorem filter_take_succ {marked : α → Bool} {entries : List α} {k : Nat} {entry : α}
    (present : entries[k]? = some entry) (hmarked : marked entry = true) :
    (entries.take (k + 1)).filter marked = (entries.take k).filter marked ++ [entry] := by
  rw [List.take_add_one, present]
  simp [hmarked]

/-! ## Increasing lists without gaps -/

/-- An increasing list that contains everything below its members counts up from
zero. -/
theorem eq_range_of_increasing {numbers : List Nat} (increasing : numbers.Pairwise (· < ·))
    (closed : ∀ k ∈ numbers, ∀ j, j < k → j ∈ numbers) : numbers = List.range numbers.length := by
  induction numbers using List.reverseRecOn with
  | nil => rfl
  | append_singleton front last ih =>
    obtain ⟨hfront, _, hbelow⟩ := List.pairwise_append.mp increasing
    have hless : ∀ k ∈ front, k < last := fun k member => hbelow k member last List.mem_cons_self
    have hold : ∀ j, j < last → j ∈ front := by
      intro j hj
      have hmember := closed last (List.mem_append_right _ List.mem_cons_self) j hj
      rcases List.mem_append.mp hmember with hin | hlast
      · exact hin
      · exact (Nat.ne_of_lt hj (List.mem_singleton.mp hlast)).elim
    have hcount : front = List.range front.length :=
      ih hfront fun k member j hj => hold j (Nat.lt_trans hj (hless k member))
    have hlast : last = front.length := by
      apply Nat.le_antisymm
      · apply Nat.le_of_not_lt
        intro hlong
        have hmember := hold front.length hlong
        rw [hcount, List.mem_range, List.length_range] at hmember
        exact Nat.lt_irrefl _ hmember
      · apply Nat.le_of_not_lt
        intro hshort
        have hmember : last ∈ front := by
          rw [hcount]
          exact List.mem_range.mpr hshort
        exact Nat.lt_irrefl _ (hless last hmember)
    rw [List.length_append, List.length_singleton, List.range_succ, ← hcount, ← hlast]

end FuseTransport.Foundation.Splice
