import Chip8.State.Action

/-!
# Traces

A trace pairs the actions of a history with the states that they meet, and what a history brings
about is collected from its trace. A machine is in play while it only takes turns and has its keys
reported.
-/

namespace Chip8

/-- Turns of the two cycles, and reports of keys. -/
def Action.inPlay : Action → Bool
  | .step | .tick | .setKey _ _ => true
  | _ => false

namespace State

variable {β : Type}

/-- The actions of a history, each with the state that it meets. -/
def trace (s : State) : List Action → List (State × Action)
  | [] => []
  | a :: history => (s, a) :: (s.apply a).trace history

/-- All that the actions of a history bring about, where `f s a` is what `a` does as it meets
`s`. -/
def collect (s : State) (f : State → Action → Option β) (history : List Action) : List β :=
  (s.trace history).filterMap fun e ↦ f e.1 e.2

variable (s : State) (f : State → Action → Option β)

@[simp] theorem collect_nil : s.collect f [] = [] := rfl

theorem collect_cons (a : Action) (history : List Action) :
    s.collect f (a :: history) = (f s a).toList ++ (s.apply a).collect f history := by
  rw [collect, trace, List.filterMap_cons]
  cases f s a <;> rfl

theorem trace_append (history later : List Action) :
    s.trace (history ++ later) = s.trace history ++ (s.run history).trace later := by
  induction history generalizing s with
  | nil => rfl
  | cons a history ih => rw [List.cons_append, trace, trace, ih, run_cons, List.cons_append]

theorem collect_append (history later : List Action) :
    s.collect f (history ++ later) = s.collect f history ++ (s.run history).collect f later := by
  rw [collect, trace_append, List.filterMap_append]
  rfl

end State

end Chip8
