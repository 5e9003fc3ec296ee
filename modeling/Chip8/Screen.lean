/-!
# The screen

A grid of 64 by 32 pixels whose edges are joined. Sprites are drawn by toggling one pixel for each
of their set bits, so drawing a sprite twice leaves no trace. A collision is a toggle that puts a
lit pixel out.
-/

namespace Chip8

/-- Where the set bits of a sprite fall when its corner is at `(x, y)`. Every byte is a row of eight
pixels, the most significant bit at the left. -/
def spritePoints (x y : Nat) : List UInt8 → List (Nat × Nat)
  | [] => []
  | b :: bs =>
    ((List.range 8).filter fun i ↦ b.toNat.testBit (7 - i)).map (fun i ↦ (x + i, y)) ++
      spritePoints x (y + 1) bs

/-- The pixels row by row. -/
@[ext] structure Screen where
  pixels : Vector Bool 2048
  deriving DecidableEq

namespace Screen

def width : Nat := 64

def height : Nat := 32

/-- The place of a point in the list of pixels, after going round the edges. -/
def index (x y : Nat) : Fin 2048 :=
  ⟨64 * (y % 32) + x % 64, by omega⟩

def blank : Screen :=
  ⟨.replicate 2048 false⟩

def pixel (s : Screen) (x y : Nat) : Bool :=
  s.pixels[(index x y).val]

def toggle (s : Screen) (x y : Nat) : Screen :=
  ⟨s.pixels.set (index x y).val (!s.pixel x y)⟩

/-- Toggles the points one after another, and tells whether a lit pixel was put out. -/
def toggleAll (s : Screen) : List (Nat × Nat) → Screen × Bool
  | [] => (s, false)
  | (x, y) :: points =>
    let (after, collision) := (s.toggle x y).toggleAll points
    (after, s.pixel x y || collision)

/-- Draws a sprite with its corner at `(x, y)`, and tells whether there was a collision. -/
def draw (s : Screen) (sprite : List UInt8) (x y : Nat) : Screen × Bool :=
  s.toggleAll (spritePoints x y sprite)

def isBlank (s : Screen) : Bool :=
  s.pixels.all (!·)

/-- The pixels of a row from left to right, lit ones as `#` and dark ones as a point. -/
def rowText (s : Screen) (y : Nat) : List Char :=
  (List.range width).map fun x ↦ if s.pixel x y then '#' else '.'

def chars (s : Screen) : List Char :=
  (List.range height).flatMap fun y ↦ s.rowText y ++ ['\n']

def text (s : Screen) : String :=
  String.ofList s.chars

def column (s : Screen) (x : Nat) : List Bool :=
  (List.range height).map fun y ↦ s.pixel x y

variable {s : Screen}

theorem pixel_toggle (x y x' y' : Nat) :
    (s.toggle x y).pixel x' y' =
      if index x y = index x' y' then !s.pixel x' y' else s.pixel x' y' := by
  by_cases h : index x y = index x' y'
  · simp [pixel, toggle, h]
  · simp [pixel, toggle, Vector.getElem_set, Fin.ext_iff] at h ⊢
    simp [h]

@[simp] theorem pixel_blank (x y : Nat) : blank.pixel x y = false := by
  simp [pixel, blank]

@[simp] theorem toggleAll_nil : s.toggleAll [] = (s, false) := rfl

@[simp] theorem toggleAll_cons (x y : Nat) (points : List (Nat × Nat)) :
    s.toggleAll ((x, y) :: points) =
      (((s.toggle x y).toggleAll points).1,
        s.pixel x y || ((s.toggle x y).toggleAll points).2) := rfl

end Screen

end Chip8
