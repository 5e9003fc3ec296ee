/-!
# The timers

Two counters that a tick takes towards zero, where they stay. The machine sounds for as long as the
second one is not zero.
-/

namespace Chip8

@[ext] structure Timers where
  delay : UInt8
  sound : UInt8
  deriving DecidableEq, Repr

namespace Timers

def zero : Timers :=
  ⟨0, 0⟩

def countDown (b : UInt8) : UInt8 :=
  if b = 0 then 0 else b - 1

def tick (t : Timers) : Timers :=
  ⟨countDown t.delay, countDown t.sound⟩

def setDelay (t : Timers) (b : UInt8) : Timers :=
  { t with delay := b }

def setSound (t : Timers) (b : UInt8) : Timers :=
  { t with sound := b }

theorem toNat_countDown (b : UInt8) : (countDown b).toNat = b.toNat - 1 := by
  unfold countDown
  split
  · next h => simp [h]
  · next h =>
    have hb : 1 ≤ b := by
      rw [UInt8.le_iff_toNat_le]
      have : b.toNat ≠ 0 := fun h' ↦ h (UInt8.toNat_inj.1 h')
      simp only [UInt8.toNat_one]; omega
    simp [UInt8.toNat_sub_of_le _ _ hb]

end Timers

end Chip8
