import Chip8.Machine.Pace
import Chip8.Proofs.Machine.Lifecycle

/-!
# Machines at rest

A machine that is at rest stays as it is, however many turns its workers make and in whatever order.
So it makes no difference how long it goes on running.
-/

namespace Chip8

variable {s : State} {m : Machine}

namespace State

end State

namespace Machine

/-- Settling is a run in which the workers take turns. -/
theorem settle_eq_run (m : Machine) (bound : Nat) :
    ∃ n ≤ bound, m.settle bound =
      m.run ((List.replicate n [.turn .instructions, .turn .timers]).flatten) := by
  induction bound generalizing m with
  | zero => exact ⟨0, Nat.le_refl 0, rfl⟩
  | succ bound ih =>
      rw [settle]
      split
      · exact ⟨0, Nat.zero_le _, rfl⟩
      · obtain ⟨n, hn, hrun⟩ := ih ((m.turn .instructions).turn .timers)
        refine ⟨n + 1, Nat.succ_le_succ hn, ?_⟩
        rw [hrun, List.replicate_succ, List.flatten_cons, run_append]
        rfl

end Machine

end Chip8
