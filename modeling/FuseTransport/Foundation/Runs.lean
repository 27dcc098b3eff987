import Mathlib.Data.List.Basic

/-!
# Runs of a partial step function

A machine is a partial function from a state and a label to the next state.  A
run replays a list of labels; a label that is not enabled ends the replay.  The
rules below turn what one step preserves into what a whole run preserves.
-/

namespace FuseTransport.Foundation.Runs

universe u v w

variable {State : Type u} {Label : Type v}

/-- Replay the labels in order, stopping with `none` at a label not enabled. -/
def replay (step : State → Label → Option State) : State → List Label → Option State
  | state, [] => some state
  | state, label :: rest => (step state label).bind fun next => replay step next rest

/-- The states some run reaches from `first`. -/
def Reachable (step : State → Label → Option State) (first last : State) : Prop :=
  ∃ labels, replay step first labels = some last

variable {step : State → Label → Option State}

@[simp]
theorem replay_nil (state : State) : replay step state [] = some state := rfl

theorem replay_cons (state : State) (label : Label) (rest : List Label) :
    replay step state (label :: rest) =
      (step state label).bind fun next => replay step next rest := rfl

/-- A run that starts with an enabled label continues from its successor. -/
theorem replay_cons_some {state next : State} {label : Label} (rest : List Label)
    (enabled : step state label = some next) :
    replay step state (label :: rest) = replay step next rest := by
  rw [replay_cons, enabled]
  rfl

theorem replay_append (state : State) (before after : List Label) :
    replay step state (before ++ after) =
      (replay step state before).bind fun middle => replay step middle after := by
  induction before generalizing state with
  | nil => rfl
  | cons label rest ih =>
    rw [List.cons_append, replay_cons, replay_cons]
    cases step state label with
    | none => rfl
    | some next => exact ih next

/-- What holds where a run on fixed inputs ends is a matter of evaluation. -/
instance decidableEnds {α : Type w} {Holds : α → Prop} [DecidablePred Holds] (last : Option α) :
    Decidable (∃ a, last = some a ∧ Holds a) :=
  decidable_of_iff (last.any fun a => decide (Holds a)) (by
    rw [Option.any_eq_true]
    exact exists_congr fun _ => and_congr_right fun _ => decide_eq_true_iff)

/-- A property every enabled label preserves is preserved by every run. -/
theorem replay_preserves {Keeps : State → Prop}
    (preserved : ∀ state label next, Keeps state → step state label = some next → Keeps next)
    {first last : State} {labels : List Label}
    (replayed : replay step first labels = some last) (initially : Keeps first) :
    Keeps last := by
  induction labels generalizing first with
  | nil =>
    cases replayed
    exact initially
  | cons label rest ih =>
    obtain ⟨next, enabled, onward⟩ := Option.bind_eq_some_iff.mp replayed
    exact ih onward (preserved first label next initially enabled)

namespace Reachable

theorem refl (state : State) : Reachable step state state :=
  ⟨[], rfl⟩

theorem tail {first middle last : State} {label : Label}
    (reached : Reachable step first middle) (enabled : step middle label = some last) :
    Reachable step first last := by
  obtain ⟨labels, replayed⟩ := reached
  refine ⟨labels ++ [label], ?_⟩
  rw [replay_append, replayed]
  change replay step middle [label] = some last
  rw [replay_cons, enabled]
  rfl

theorem head {first middle last : State} {label : Label} (enabled : step first label = some middle)
    (reached : Reachable step middle last) : Reachable step first last := by
  obtain ⟨labels, replayed⟩ := reached
  exact ⟨label :: labels, (replay_cons_some labels enabled).trans replayed⟩

theorem trans {first middle last : State} (reached : Reachable step first middle)
    (onward : Reachable step middle last) : Reachable step first last := by
  obtain ⟨before, replayed⟩ := reached
  obtain ⟨after, finished⟩ := onward
  exact ⟨before ++ after, by rw [replay_append, replayed, Option.bind_some, finished]⟩

/-- What holds at the start and is preserved by every step holds of every
reachable state. -/
theorem invariant {Keeps : State → Prop}
    (preserved : ∀ state label next, Keeps state → step state label = some next → Keeps next)
    {first last : State} (reached : Reachable step first last) (initially : Keeps first) :
    Keeps last := by
  obtain ⟨labels, replayed⟩ := reached
  exact replay_preserves preserved replayed initially

end Reachable

/-- What is seen along a run: from each step what it shows, in order. -/
def trace {α : Type w} (step : State → Label → Option State) (shows : State → Label → List α) :
    State → List Label → List α
  | _, [] => []
  | state, label :: rest =>
    shows state label ++ match step state label with
      | some next => trace step shows next rest
      | none => []

theorem trace_cons {α : Type w} {step : State → Label → Option State}
    {shows : State → Label → List α} {state next : State} {label : Label}
    (stepped : step state label = some next) (rest : List Label) :
    trace step shows state (label :: rest) = shows state label ++ trace step shows next rest := by
  rw [trace, stepped]

/-- A run all of whose labels meet a condition on the state before the step. -/
def Along (step : State → Label → Option State) (Meets : State → Label → Prop) :
    State → List Label → Prop
  | _, [] => True
  | state, label :: rest =>
    Meets state label ∧ ∀ next, step state label = some next → Along step Meets next rest

instance decidableAlong {Meets : State → Label → Prop} [∀ state label, Decidable (Meets state label)] :
    (state : State) → (labels : List Label) → Decidable (Along step Meets state labels)
  | _, [] => isTrue trivial
  | state, label :: rest =>
    match enabled : step state label with
    | none =>
      decidable_of_iff (Meets state label)
        ⟨fun meets => ⟨meets, fun _ impossible => by rw [enabled] at impossible; cases impossible⟩,
          And.left⟩
    | some next =>
      have : Decidable (Along step Meets next rest) := decidableAlong next rest
      decidable_of_iff (Meets state label ∧ Along step Meets next rest)
        ⟨fun both => ⟨both.1, fun other hother => by
            rw [enabled] at hother; cases hother; exact both.2⟩,
          fun along => ⟨along.1, along.2 next enabled⟩⟩

variable {Meets : State → Label → Prop}

theorem along_cons {state next : State} {label : Label}
    {rest : List Label} (enabled : step state label = some next) (meets : Meets state label)
    (onward : Along step Meets next rest) : Along step Meets state (label :: rest) := by
  refine ⟨meets, ?_⟩
  intro other hother
  rw [enabled] at hother
  cases hother
  exact onward

theorem along_mono {Other : State → Label → Prop}
    (weaker : ∀ state label, Meets state label → Other state label) {first : State}
    {labels : List Label} (along : Along step Meets first labels) :
    Along step Other first labels := by
  induction labels generalizing first with
  | nil => trivial
  | cons label rest ih =>
    exact ⟨weaker first label along.1, fun next enabled => ih (along.2 next enabled)⟩

/-- A condition met along a run is met along its first part and along the rest. -/
theorem along_append {first middle : State}
    {before after : List Label} (along : Along step Meets first (before ++ after))
    (replayed : replay step first before = some middle) :
    Along step Meets first before ∧ Along step Meets middle after := by
  induction before generalizing first with
  | nil =>
    cases replayed
    exact ⟨trivial, along⟩
  | cons label rest ih =>
    obtain ⟨next, enabled, onward⟩ := Option.bind_eq_some_iff.mp replayed
    obtain ⟨hrest, hafter⟩ := ih (along.2 next enabled) onward
    exact ⟨along_cons enabled along.1 hrest, hafter⟩

/-- A condition is met along a run when it is met at each of its steps. -/
theorem along_iff {first last : State} {labels : List Label}
    (replayed : replay step first labels = some last) :
    Along step Meets first labels ↔
      ∀ before label after middle, labels = before ++ label :: after →
        replay step first before = some middle → Meets middle label := by
  constructor
  · rintro along before label after middle rfl reached
    exact (along_append along reached).2.1
  · intro meets
    induction labels generalizing first with
    | nil => trivial
    | cons label rest ih =>
      obtain ⟨next, enabled, onward⟩ := Option.bind_eq_some_iff.mp replayed
      refine along_cons enabled (meets [] label rest first rfl rfl) (ih onward ?_)
      intro before other after middle split reached
      refine meets (label :: before) other after middle ?_ ?_
      · rw [split, List.cons_append]
      · rw [replay_cons_some _ enabled, reached]

/-- A property preserved by the steps that meet the condition is preserved by
every run along which the condition is met. -/
theorem replay_preserves_along {Keeps : State → Prop} {Meets : State → Label → Prop}
    (preserved : ∀ state label next, Keeps state → Meets state label →
      step state label = some next → Keeps next)
    {first last : State} {labels : List Label}
    (replayed : replay step first labels = some last)
    (along : Along step Meets first labels) (initially : Keeps first) : Keeps last := by
  induction labels generalizing first with
  | nil =>
    cases replayed
    exact initially
  | cons label rest ih =>
    obtain ⟨next, enabled, onward⟩ := Option.bind_eq_some_iff.mp replayed
    exact ih onward (along.2 next enabled) (preserved first label next initially along.1 enabled)

/-- A property preserved by the steps that meet the condition while a counter has
not run out is preserved by every run too short to run it out. -/
theorem replay_preserves_counted {Keeps : State → Prop} {Meets : State → Label → Prop}
    {limit : Nat} (count : State → Nat)
    (grows : ∀ state label next, step state label = some next → count next ≤ count state + 1)
    (preserved : ∀ state label next, Keeps state → Meets state label → count state < limit →
      step state label = some next → Keeps next)
    {first last : State} {labels : List Label}
    (replayed : replay step first labels = some last) (along : Along step Meets first labels)
    (short : count first + labels.length ≤ limit) (initially : Keeps first) : Keeps last := by
  induction labels generalizing first with
  | nil =>
    cases replayed
    exact initially
  | cons label rest ih =>
    rw [List.length_cons] at short
    obtain ⟨next, enabled, onward⟩ := Option.bind_eq_some_iff.mp replayed
    have hgrows := grows first label next enabled
    refine ih onward (along.2 next enabled) (by omega) ?_
    exact preserved first label next initially along.1 (by omega) enabled

/-- A run at whose end something holds that did not hold at its start has a step that
brings it about. -/
theorem replay_turns {P : State → Prop} {first last : State} {labels : List Label}
    (replayed : replay step first labels = some last) (unmet : ¬ P first) (met : P last) :
    ∃ before label after middle next, labels = before ++ label :: after ∧
      replay step first before = some middle ∧ step middle label = some next ∧
      replay step next after = some last ∧ ¬ P middle ∧ P next := by
  induction labels generalizing first with
  | nil =>
    cases replayed
    exact absurd met unmet
  | cons label rest ih =>
    obtain ⟨next, enabled, onward⟩ := Option.bind_eq_some_iff.mp replayed
    by_cases now : P next
    · exact ⟨[], label, rest, first, next, rfl, rfl, enabled, onward, unmet, now⟩
    · obtain ⟨before, other, after, middle, later, split, reached, turned, finished, turns⟩ :=
        ih onward now
      refine ⟨label :: before, other, after, middle, later, ?_, ?_, turned, finished, turns⟩
      · rw [split, List.cons_append]
      · rw [replay_cons_some _ enabled, reached]

end FuseTransport.Foundation.Runs
