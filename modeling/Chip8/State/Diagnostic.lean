import Chip8.State.Basic
import Chip8.Text.Record

/-!
# Diagnostic text of the state

The parts of a machine as records. Return addresses stand with the innermost one last, and memory is
left out.
-/

namespace Chip8

open Diagnostic

def Memory.diagnostic (_ : Memory) : String :=
  "Memory \x7b .. \x7d"

def Screen.diagnostic (s : Screen) : String :=
  "Snapshot(\n" ++ s.text ++ ")"

def Keypad.diagnostic (p : Keypad) : String :=
  record "State"
    [("keys", list (p.down.toList.map bool)), ("last_pressed", optional (p.pending.map Key.text))]

def Timers.diagnostic (t : Timers) : String :=
  record "Registers" [("dt", toString t.delay.toNat), ("st", toString t.sound.toNat)]

def State.diagnostic (s : State) : String :=
  record "Interpreter"
    [("pc", toString s.pc.toNat),
      ("i", toString s.i.toNat),
      ("regs", list (s.v.toList.map fun b ↦ toString b.toNat)),
      ("sp", toString s.sp.toNat),
      ("stack", list (s.frames.reverse.map fun w ↦ toString w.toNat)),
      ("timers", s.timers.diagnostic),
      ("waiting_for_key", optional (s.awaiting.map Register.text))]

end Chip8
