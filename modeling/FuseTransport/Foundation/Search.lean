import Mathlib.Data.List.Infix

/-!
# First occurrences

The first position of a pattern in a text, found by trying every position in turn.
-/

namespace FuseTransport.Foundation.Search

universe u

variable {α : Type u} {pattern front rest : List α} {symbol : α}

/-- The pattern does not start inside `front`, with `rest` behind it. -/
def StartsNowhere (pattern front rest : List α) : Prop :=
  ∀ before after, front = before ++ after → after ≠ [] → ¬ pattern <+: after ++ rest

theorem startsNowhere_symbol (absent : symbol ∉ front) (rest : List α) :
    StartsNowhere [symbol] front rest := by
  rintro before after rfl nonempty starts
  cases after with
  | nil => exact nonempty rfl
  | cons first after =>
    rw [List.cons_append, List.cons_prefix_cons] at starts
    exact absent (List.mem_append_right _ (starts.1 ▸ List.mem_cons_self))

theorem StartsNowhere.append {back : List α} (first : StartsNowhere pattern front (back ++ rest))
    (second : StartsNowhere pattern back rest) : StartsNowhere pattern (front ++ back) rest := by
  intro before after split nonempty
  rcases List.append_eq_append_iff.mp split with ⟨middle, rfl, rfl⟩ | ⟨middle, rfl, rfl⟩
  · exact second middle after rfl nonempty
  · by_cases hmiddle : middle = []
    · subst hmiddle
      exact second [] back rfl nonempty
    · rw [List.append_assoc]
      exact first before middle rfl hmiddle

/-- A pattern whose first symbol does not come again in it cannot run from one part into a
part that starts with that symbol. -/
theorem startsNowhere_of_first {tail : List α} (once : symbol ∉ tail)
    (absent : ¬ symbol :: tail <:+: front) (rest : List α) :
    StartsNowhere (symbol :: tail) front (symbol :: rest) := by
  rintro before after rfl nonempty starts
  rcases Nat.lt_or_ge after.length (symbol :: tail).length with hshort | hlong
  · have hreaches : after ++ [symbol] <+: symbol :: tail := by
      refine List.prefix_of_prefix_length_le ?_ starts ?_
      · exact ⟨rest, by simp⟩
      · rw [List.length_append]
        exact hshort
    cases after with
    | nil => exact nonempty rfl
    | cons first after =>
      rw [List.cons_append, List.cons_prefix_cons] at hreaches
      exact once (hreaches.2.subset (List.mem_append_right _ List.mem_cons_self))
  · have hinside : symbol :: tail <+: after :=
      List.prefix_of_prefix_length_le starts (List.prefix_append after _) hlong
    exact absent (hinside.isInfix.trans (List.suffix_append before after).isInfix)

variable [DecidableEq α]

def search (pattern : List α) : List α → Option Nat
  | [] => if pattern = [] then some 0 else none
  | symbol :: rest =>
    if pattern.isPrefixOf (symbol :: rest) then some 0 else (search pattern rest).map (· + 1)

theorem search_of_start (starts : pattern <+: rest) : search pattern rest = some 0 := by
  cases rest with
  | nil => rw [search, if_pos (List.prefix_nil.mp starts)]
  | cons symbol rest => rw [search, if_pos (List.isPrefixOf_iff_prefix.mpr starts)]

/-- A part in which the pattern does not start is skipped. -/
theorem search_skip (nowhere : StartsNowhere pattern front rest) :
    search pattern (front ++ rest) = (search pattern rest).map (· + front.length) := by
  induction front with
  | nil =>
    rw [List.nil_append]
    cases search pattern rest with
    | none | some position => rfl
  | cons symbol front ih =>
    have hhere : ¬ pattern.isPrefixOf (symbol :: (front ++ rest)) = true := fun starts =>
      nowhere [] (symbol :: front) rfl (List.cons_ne_nil _ _)
        (List.isPrefixOf_iff_prefix.mp starts)
    have hlater : StartsNowhere pattern front rest := fun before after split =>
      nowhere (symbol :: before) after (by rw [split, List.cons_append])
    rw [List.cons_append, search, if_neg hhere, ih hlater, Option.map_map]
    rfl

theorem search_append (nowhere : StartsNowhere pattern front rest) (starts : pattern <+: rest) :
    search pattern (front ++ rest) = some front.length := by
  rw [search_skip nowhere, search_of_start starts, Option.map_some, Nat.zero_add]

theorem search_symbol (absent : symbol ∉ front) (rest : List α) :
    search [symbol] (front ++ symbol :: rest) = some front.length :=
  search_append (startsNowhere_symbol absent _)
    (List.cons_prefix_cons.mpr ⟨rfl, List.nil_prefix⟩)

variable {text : List α}

theorem starts_of_search {position : Nat} (found : search pattern text = some position) :
    pattern <+: text.drop position := by
  induction text generalizing position with
  | nil =>
    rw [search] at found
    split at found
    · rename_i hempty
      rw [hempty]
      exact List.nil_prefix
    · cases found
  | cons symbol rest ih =>
    rw [search] at found
    split at found
    · rename_i hstarts
      cases found
      exact List.isPrefixOf_iff_prefix.mp hstarts
    · obtain ⟨later, hlater, rfl⟩ := Option.map_eq_some_iff.mp found
      exact ih hlater

theorem search_eq_none_iff : search [symbol] text = none ↔ symbol ∉ text := by
  constructor
  · intro hnone member
    obtain ⟨front, rest, rfl, habsent⟩ := List.eq_append_cons_of_mem member
    rw [search_symbol habsent] at hnone
    cases hnone
  · intro habsent
    cases hsearch : search [symbol] text with
    | none => rfl
    | some position =>
      have hstarts := starts_of_search hsearch
      exact absurd (List.mem_of_mem_drop (hstarts.subset List.mem_cons_self)) habsent

/-- A symbol that is found splits the text at its first occurrence. -/
theorem search_split {position : Nat} (found : search [symbol] text = some position) :
    ∃ front rest, text = front ++ symbol :: rest ∧ symbol ∉ front ∧ front.length = position := by
  have hmember : symbol ∈ text := by
    by_contra habsent
    rw [search_eq_none_iff.mpr habsent] at found
    cases found
  obtain ⟨front, rest, rfl, habsent⟩ := List.eq_append_cons_of_mem hmember
  rw [search_symbol habsent] at found
  exact ⟨front, rest, rfl, habsent, Option.some.inj found⟩

end FuseTransport.Foundation.Search
