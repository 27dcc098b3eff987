import Mathlib.Data.List.Basic

/-!
# Strings of records

A reader takes one record off the front of a string.  When it takes exactly the records that a
renderer writes, a string is read to its end if and only if it is a row of rendered records,
and the records that are read are those.
-/

namespace FuseTransport.Foundation.Records

universe u v

variable {α : Type u} {Record : Type v}

/-- The reader takes the valid records off the front of a string, as they are rendered, and
nothing else; no record is empty. -/
structure Reads (next : List α → Option (Record × List α)) (render : Record → List α)
    (Valid : Record → Prop) : Prop where
  complete : ∀ record rest, Valid record → next (render record ++ rest) = some (record, rest)
  sound : ∀ string record rest, next string = some (record, rest) →
    Valid record ∧ string = render record ++ rest
  nonempty : ∀ record, render record ≠ []

def readAll (next : List α → Option (Record × List α)) : Nat → List α → List Record × List α
  | 0, string => ([], string)
  | fuel + 1, string =>
    match next string with
    | none => ([], string)
    | some (record, rest) => (record :: (readAll next fuel rest).1, (readAll next fuel rest).2)

namespace Reads

variable {next : List α → Option (Record × List α)} {render : Record → List α}
  {Valid : Record → Prop}

section

variable (reads : Reads next render Valid)
include reads

/-- A record that is taken shortens the string. -/
theorem shorter {string rest : List α} {record : Record}
    (taken : next string = some (record, rest)) : rest.length < string.length := by
  obtain ⟨_, rfl⟩ := reads.sound string record rest taken
  rw [List.length_append]
  exact Nat.lt_add_of_pos_left (List.length_pos_iff.mpr (reads.nonempty record))

theorem nil : next [] = none := by
  cases htaken : next [] with
  | none => rfl
  | some taken => exact absurd (reads.shorter htaken) (Nat.not_lt_zero _)

theorem readAll_rest (fuel : Nat) (string : List α) :
    (∀ record ∈ (readAll next fuel string).1, Valid record) ∧
      string = (readAll next fuel string).1.flatMap render ++ (readAll next fuel string).2 := by
  induction fuel generalizing string with
  | zero => exact ⟨fun _ member => absurd member List.not_mem_nil, rfl⟩
  | succ fuel ih =>
    rw [readAll]
    cases htaken : next string with
    | none => exact ⟨fun _ member => absurd member List.not_mem_nil, rfl⟩
    | some taken =>
      obtain ⟨hvalid, hstring⟩ := reads.sound string taken.1 taken.2 htaken
      obtain ⟨hmore, hrest⟩ := ih taken.2
      refine ⟨fun record member => ?_, ?_⟩
      · rcases List.mem_cons.mp member with rfl | hlater
        · exact hvalid
        · exact hmore record hlater
      · rw [List.flatMap_cons, List.append_assoc, ← hrest]
        exact hstring

theorem readAll_flatMap {records : List Record} (valid : ∀ record ∈ records, Valid record)
    {fuel : Nat} (enough : (records.flatMap render).length ≤ fuel) :
    readAll next fuel (records.flatMap render) = (records, []) := by
  induction records generalizing fuel with
  | nil =>
    cases fuel with
    | zero => rfl
    | succ fuel =>
      rw [List.flatMap_nil, readAll, reads.nil]
  | cons record records ih =>
    have htaken := reads.complete record (records.flatMap render) (valid record List.mem_cons_self)
    have hshorter := reads.shorter htaken
    rw [List.flatMap_cons] at enough ⊢
    cases fuel with
    | zero => omega
    | succ fuel =>
      have hrest := ih (fun other member => valid other (List.mem_cons_of_mem _ member))
        (by omega : (records.flatMap render).length ≤ fuel)
      rw [readAll, htaken]
      dsimp only
      rw [hrest]

/-- A string that is read to its end is a row of records. -/
theorem exists_flatMap_iff (string : List α) {fuel : Nat} (enough : string.length ≤ fuel) :
    (readAll next fuel string).2 = [] ↔
      ∃ records : List Record,
        (∀ record ∈ records, Valid record) ∧ string = records.flatMap render := by
  constructor
  · intro hend
    obtain ⟨hvalid, hstring⟩ := reads.readAll_rest fuel string
    rw [hend, List.append_nil] at hstring
    exact ⟨_, hvalid, hstring⟩
  · rintro ⟨records, hvalid, rfl⟩
    rw [reads.readAll_flatMap hvalid enough]

end

end Reads

end FuseTransport.Foundation.Records
