import Mathlib.Data.List.Destutter

/-!
# Chronicles

A chronicle lists what has happened, the latest last.  It is lawful when each entry was
allowed by the entries before it, and settled when no entry comes back after a different
one.  A spell is what has happened since the latest entry of some kind.
-/

namespace FuseTransport.Foundation.Chronicle

universe u

variable {α : Type u} {log more : List α}

def Lawful (Allowed : List α → α → Prop) (log : List α) : Prop :=
  ∀ before entry after, log = before ++ entry :: after → Allowed before entry

theorem lawful_nil (Allowed : List α → α → Prop) : Lawful Allowed [] := by
  intro before entry after split
  cases before <;> cases split

theorem Lawful.snoc {Allowed : List α → α → Prop} (lawful : Lawful Allowed log) {entry : α}
    (allowed : Allowed log entry) : Lawful Allowed (log ++ [entry]) := by
  intro before other after split
  rcases List.eq_nil_or_concat after with rfl | ⟨front, last, rfl⟩
  · obtain ⟨rfl, hlast⟩ := List.append_inj' split rfl
    obtain rfl : entry = other := List.singleton_inj.mp hlast
    exact allowed
  · rw [List.concat_eq_append, ← List.cons_append, ← List.append_assoc] at split
    exact lawful before other front (List.append_inj' split rfl).1

/-- Entries that are always allowed. -/
theorem Lawful.append {Allowed : List α → α → Prop} (lawful : Lawful Allowed log)
    (allowed : ∀ entry ∈ more, ∀ before, Allowed before entry) : Lawful Allowed (log ++ more) := by
  induction more generalizing log with
  | nil => rwa [List.append_nil]
  | cons entry rest ih =>
    rw [List.append_cons]
    exact ih (lawful.snoc (allowed entry List.mem_cons_self log))
      fun other member => allowed other (List.mem_cons_of_mem _ member)

def Since (Kind : α → Prop) (log : List α) (entry : α) (spell : List α) : Prop :=
  Kind entry ∧ (∀ other ∈ spell, ¬ Kind other) ∧ ∃ before, log = before ++ entry :: spell

namespace Since

variable {Kind : α → Prop} {entry other : α} {spell : List α}

theorem start (kind : Kind entry) : Since Kind (log ++ [entry]) entry [] :=
  ⟨kind, fun _ impossible => absurd impossible List.not_mem_nil, log, rfl⟩

theorem append (since : Since Kind log entry spell) (none : ∀ other ∈ more, ¬ Kind other) :
    Since Kind (log ++ more) entry (spell ++ more) := by
  obtain ⟨hkind, hspell, before, rfl⟩ := since
  refine ⟨hkind, fun other member => ?_, before, by rw [List.append_assoc, List.cons_append]⟩
  rcases List.mem_append.mp member with hold | hnew
  · exact hspell other hold
  · exact none other hnew

/-- The latest entry of a kind is at any other entry of the kind it does not come after. -/
theorem of_split (since : Since Kind log entry spell) {before later : List α}
    (split : log = before ++ other :: later) (kind : Kind other) (earlier : entry ∉ later) :
    other = entry ∧ later = spell := by
  obtain ⟨_, hspell, front, hlog⟩ := since
  rw [split] at hlog
  rcases List.append_eq_append_iff.mp hlog with ⟨between, rfl, hcut⟩ | ⟨between, rfl, hcut⟩
  · cases between with
    | nil => exact List.cons.inj hcut
    | cons first rest =>
      obtain ⟨rfl, rfl⟩ := List.cons.inj hcut
      exact absurd (List.mem_append_right _ List.mem_cons_self) earlier
  · cases between with
    | nil =>
      obtain ⟨rfl, rfl⟩ := List.cons.inj hcut
      exact ⟨rfl, rfl⟩
    | cons first rest =>
      obtain ⟨rfl, rfl⟩ := List.cons.inj hcut
      exact absurd kind (hspell other (List.mem_append_right _ List.mem_cons_self))

end Since

/-! ## Entries that come back -/

def Settled (log : List α) : Prop := ∀ a b, a ≠ b → ¬ [a, b, a].Sublist log

section Settled

variable {c d : α} {fresh : List α}

theorem settled_cons_cons (differs : c ≠ d) :
    Settled (c :: d :: log) ↔ c ∉ log ∧ Settled (d :: log) := by
  constructor
  · intro settled
    refine ⟨fun member => settled c d differs ?_, fun a b other back =>
      settled a b other (back.cons c)⟩
    exact .cons_cons c (.cons_cons d (List.singleton_sublist.mpr member))
  · rintro ⟨absent, settled⟩ a b other back
    cases back with
    | cons _ later => exact settled a b other later
    | cons_cons _ later =>
      have hmember : c ∈ d :: log := later.subset (by simp)
      exact absurd ((List.mem_cons.mp hmember).resolve_left differs) absent

theorem settled_cons_self : Settled (c :: c :: log) ↔ Settled (c :: log) := by
  refine ⟨fun settled a b other back => settled a b other (back.cons c), ?_⟩
  intro settled a b other back
  cases back with
  | cons _ later => exact settled a b other later
  | cons_cons _ later =>
    cases later with
    | cons _ last => exact settled c b other (.cons_cons c last)
    | cons_cons => exact other rfl

variable [DecidableEq α]

theorem mem_destutter' (d : α) : c ∈ log.destutter' (· ≠ ·) d ↔ c ∈ d :: log := by
  induction log generalizing d with
  | nil => rfl
  | cons e rest ih =>
    by_cases hsame : d = e
    · subst hsame
      rw [List.destutter'_cons_neg _ (not_not.mpr rfl), ih]
      simp
    · rw [List.destutter'_cons_pos _ hsame, List.mem_cons, ih, ← List.mem_cons]

/-- Repetitions put together, a log has each entry once exactly when it is settled. -/
theorem nodup_destutter'_iff (c : α) :
    (log.destutter' (· ≠ ·) c).Nodup ↔ Settled (c :: log) := by
  induction log generalizing c with
  | nil =>
    refine ⟨fun _ a b _ back => absurd back.length_le ?_, fun _ => List.nodup_singleton c⟩
    simp
  | cons d rest ih =>
    by_cases hsame : c = d
    · subst hsame
      rw [List.destutter'_cons_neg _ (not_not.mpr rfl), ih, settled_cons_self]
    · rw [List.destutter'_cons_pos _ hsame, List.nodup_cons, ih, settled_cons_cons hsame,
        mem_destutter', List.mem_cons]
      simp [hsame]

/-- The same behind an entry that does not occur. -/
theorem nodup_fresh_iff (absent : c ∉ log) (parts : log.destutter' (· ≠ ·) c = c :: fresh) :
    fresh.Nodup ↔ Settled log := by
  have hsub : fresh.Sublist log := by
    have hwhole := List.destutter'_sublist (· ≠ ·) (l := log) c
    rw [parts] at hwhole
    exact List.cons_sublist_cons.mp hwhole
  have hnodup : fresh.Nodup ↔ (c :: fresh).Nodup := by
    rw [List.nodup_cons]
    exact ⟨fun once => ⟨fun member => absent (hsub.subset member), once⟩, And.right⟩
  rw [hnodup, ← parts, nodup_destutter'_iff]
  refine ⟨fun settled a b other back => settled a b other (back.cons c), ?_⟩
  intro settled a b other back
  cases back with
  | cons _ later => exact settled a b other later
  | cons_cons _ later => exact absurd (later.subset (by simp)) absent

end Settled

end FuseTransport.Foundation.Chronicle
