import Chip8.Word

/-!
# The keypad

Which of the sixteen keys are down, and the last press that nobody has taken yet. A press counts
only for a key that was up: a key that is held down, or reported again, is not pressed anew.
-/

namespace Chip8

@[ext] structure Keypad where
  down : Vector Bool 16
  /-- The last press that has not been taken. -/
  pending : Option Key
  deriving DecidableEq

namespace Keypad

def released : Keypad :=
  ⟨.replicate 16 false, none⟩

def isDown (p : Keypad) (k : Key) : Bool :=
  p.down[k.val]

def anyDown (p : Keypad) : Bool :=
  p.down.any id

/-- Whether the key that a byte names is down. A byte that names no key stands for one that is
never down. -/
def isDownByte (p : Keypad) (b : UInt8) : Bool :=
  match Key.ofByte? b with
  | some k => p.isDown k
  | none => false

def set (p : Keypad) (k : Key) (isDown : Bool) : Keypad where
  down := p.down.set k.val isDown
  pending := if isDown && !p.isDown k then some k else p.pending

def take (p : Keypad) : Keypad :=
  { p with pending := none }

def keysDown (p : Keypad) : List Key :=
  (List.finRange 16).filter p.isDown

variable {p : Keypad}

@[simp] theorem isDown_released (k : Key) : released.isDown k = false := by
  simp [isDown, released]

@[simp] theorem pending_released : released.pending = none := rfl

theorem isDown_set (k k' : Key) (b : Bool) :
    (p.set k b).isDown k' = if k = k' then b else p.isDown k' := by
  simp only [isDown, set, Vector.getElem_set, Fin.ext_iff]

@[simp] theorem isDown_take (k : Key) : p.take.isDown k = p.isDown k := rfl

@[simp] theorem pending_take : p.take.pending = none := rfl

end Keypad

end Chip8
