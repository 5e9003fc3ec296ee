/-!
# Pseudo-random words

A xorshift generator: four words of state, of which every step throws the oldest one away. A state
of zeros would stay at zero forever, so it is not a seed.
-/

namespace Chip8

@[ext] structure XorShift where
  x : UInt32
  y : UInt32
  z : UInt32
  w : UInt32
  deriving DecidableEq, Repr

namespace XorShift

/-- The generator that starts from a seed, which must not be zero throughout. -/
def ofSeed? (seed : UInt32 × UInt32 × UInt32 × UInt32) : Option XorShift :=
  if seed = (0, 0, 0, 0) then none else some ⟨seed.1, seed.2.1, seed.2.2.1, seed.2.2.2⟩

/-- A fixed generator, for runs that have to be repeatable. -/
def fixed : XorShift :=
  ⟨0x193A6754, 0xA8A7D469, 0x97830E05, 0x113BA7BB⟩

/-- The state after the next word, which is its newest one. -/
def next (g : XorShift) : XorShift :=
  let t := g.x ^^^ (g.x <<< 11)
  ⟨g.y, g.z, g.w, (g.w ^^^ (g.w >>> 19)) ^^^ (t ^^^ (t >>> 8))⟩

def nextByte (g : XorShift) : UInt8 :=
  g.next.w.toUInt8

end XorShift

end Chip8
