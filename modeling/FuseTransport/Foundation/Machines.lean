import FuseTransport.Foundation.Runs

/-!
# Machines that answer

A machine takes a state and a call to the next state and an answer.  Two machines that
answer the same calls are compared through a relation of their states.
-/

namespace FuseTransport.Foundation.Machines

open Foundation.Runs

universe u v w x

variable {State : Type u} {Spec : Type v} {Call : Type w} {Answer : Type x}

/-- Serve the calls in order: the last state and all answers. -/
def serve (machine : State → Call → State × Answer) : State → List Call → State × List Answer
  | state, [] => (state, [])
  | state, call :: rest =>
    let served := serve machine (machine state call).1 rest
    (served.1, (machine state call).2 :: served.2)

/-- The machine as a step function that is always enabled. -/
def steps (machine : State → Call → State × Answer) (state : State) (call : Call) : Option State :=
  some (machine state call).1

/-- Machines that keep a relation and give equal answers, call by call, do so over every
list of calls. -/
theorem serve_simulates {machine : State → Call → State × Answer}
    {spec : Spec → Call → Spec × Answer} {Related : State → Spec → Prop}
    {Meets : State → Call → Prop}
    (simulates : ∀ state model call, Related state model → Meets state call →
      (machine state call).2 = (spec model call).2 ∧
        Related (machine state call).1 (spec model call).1)
    {calls : List Call} {state : State} {model : Spec} (related : Related state model)
    (along : Along (steps machine) Meets state calls) :
    (serve machine state calls).2 = (serve spec model calls).2 ∧
      Related (serve machine state calls).1 (serve spec model calls).1 := by
  induction calls generalizing state model with
  | nil => exact ⟨rfl, related⟩
  | cons call rest ih =>
    obtain ⟨hanswer, hrelated⟩ := simulates state model call related along.1
    obtain ⟨hanswers, hlast⟩ := ih hrelated (along.2 _ rfl)
    refine ⟨?_, hlast⟩
    change (machine state call).2 :: _ = (spec model call).2 :: _
    rw [hanswer, hanswers]

end FuseTransport.Foundation.Machines
