import Chip8.Proofs.Memory.Store

/-!
# What an instruction leaves alone

Every instruction names the parts of a state that it may change. All other parts are the same once
it is executed and the counter has moved on, and an instruction that names none moves the counter at
most.
-/

namespace Chip8

/-- A part of a state. The program counter is none, since hardly any instruction leaves it alone. -/
inductive Part where
  | screen
  | cell (p : Address)
  | keypad
  | register (x : Register)
  | index
  | delay
  | sound
  | pointer
  | frames
  | awaiting
  | rng
  deriving DecidableEq, Repr

/-- The two states have the part in common. -/
def Part.Same (s t : State) : Part → Prop
  | .screen => t.screen = s.screen
  | .cell p => t.memory.get p = s.memory.get p
  | .keypad => t.keypad = s.keypad
  | .register x => t.reg x = s.reg x
  | .index => t.i = s.i
  | .delay => t.timers.delay = s.timers.delay
  | .sound => t.timers.sound = s.timers.sound
  | .pointer => t.sp = s.sp
  | .frames => t.frames = s.frames
  | .awaiting => t.awaiting = s.awaiting
  | .rng => t.rng = s.rng

/-- The cells from a place on, going round at the end of memory. -/
def Part.cells (w : Word) (n : Nat) : List Part :=
  (List.range n).map fun k ↦ .cell (.wrap (w.toNat + k))

/-- Whether the operation writes the flag after its result. -/
def Alu.setsFlag : Alu → Bool
  | .load | .or | .and | .xor => false
  | .add | .sub | .shiftRight | .subFrom | .shiftLeft => true

/-- The parts that the instruction may change when the index register holds `i`. -/
def Instruction.changes (i : Word) : Instruction → List Part
  | .clearScreen => [.screen]
  | .ret | .call _ => [.frames, .pointer]
  | .jump _ | .jumpFrom _ | .skipIf _ => []
  | .loadByte x _ | .addByte x _ | .loadDelay x => [.register x]
  | .alu op x _ => if op.setsFlag then [.register x, .register .flag] else [.register x]
  | .loadIndex _ | .addIndex _ | .pointAtGlyph _ => [.index]
  | .random x _ => [.register x, .rng]
  | .draw _ _ _ => [.screen, .register .flag]
  | .setDelay _ => [.delay]
  | .setSound _ => [.sound]
  | .awaitKey _ => [.awaiting]
  | .storeDecimal _ => Part.cells i 3
  | .storeRegisters x => Part.cells i (x.val + 1)
  | .loadRegisters x => ((List.finRange 16).filter (· ≤ x)).map .register

variable {s t u : State} {part : Part} {ins : Instruction}

theorem Alu.isSome_flag? (op : Alu) (a b : UInt8) : (op.flag? a b).isSome = op.setsFlag := by
  cases op <;> rfl

namespace Part

theorem Same.refl (part : Part) : part.Same s s := by
  cases part <;> rfl

theorem Same.trans (h : part.Same s t) (h' : part.Same t u) : part.Same s u := by
  cases part <;> exact Eq.trans h' h

/-- States that have all parts in common differ in the counter at most. -/
theorem eq_of_forall_same (h : ∀ part : Part, part.Same s t) : t = { s with pc := t.pc } := by
  have hmemory : t.memory = s.memory := Memory.ext_get fun p ↦ h (.cell p)
  have hv : t.v = s.v := Vector.ext fun i hi ↦ h (.register ⟨i, hi⟩)
  have htimers : t.timers = s.timers := Timers.ext (h .delay) (h .sound)
  exact State.ext hmemory (h .screen) (h .keypad) hv (h .index) htimers rfl (h .pointer)
    (h .frames) (h .awaiting) (h .rng)

end Part

namespace State

theorem same_setReg {x : Register} (b : UInt8) (h : part ≠ .register x) :
    part.Same s (s.setReg x b) := by
  cases part with
  | register y =>
      have hxy : x ≠ y := by
        rintro rfl
        exact h rfl
      exact (reg_setReg x y b).trans (if_neg hxy)
  | _ => rfl

theorem same_setFlag (flag : Bool) (h : part ≠ .register .flag) : part.Same s (s.setFlag flag) :=
  same_setReg _ h

theorem same_store {bytes : List UInt8} (h : part ∉ Part.cells s.i bytes.length) :
    part.Same s (s.store bytes) := by
  cases part with
  | cell p =>
      refine Memory.get_writeList_of_ne fun k hk hplace ↦ h ?_
      exact List.mem_map.2 ⟨k, List.mem_range.2 hk, congrArg Part.cell hplace⟩
  | _ => rfl

theorem same_compute {op : Alu} {x y : Register}
    (h : part ∉ (Instruction.alu op x y).changes s.i) : part.Same s (s.compute op x y) := by
  simp only [compute]
  cases hflag : op.flag? (s.reg x) (s.reg y) with
  | none =>
      have hset : op.setsFlag = false := by rw [← op.isSome_flag?, hflag, Option.isSome_none]
      exact same_setReg _ (by simpa [Instruction.changes, hset] using h)
  | some flag =>
      have hset : op.setsFlag = true := by rw [← op.isSome_flag?, hflag, Option.isSome_some]
      obtain ⟨hresult, hflag⟩ : part ≠ .register x ∧ part ≠ .register .flag := by
        simpa [Instruction.changes, hset] using h
      exact (same_setReg _ hresult).trans (same_setFlag flag hflag)

theorem same_draw {x y : Register} {height : UInt8}
    (h : part ∉ (Instruction.draw x y height).changes s.i) :
    part.Same s (s.draw x y height) := by
  obtain ⟨hscreen, hflag⟩ : part ≠ .screen ∧ part ≠ .register .flag := by
    simpa [Instruction.changes] using h
  refine Part.Same.trans ?_ (same_setFlag _ hflag)
  cases part with
  | screen => exact absurd rfl hscreen
  | _ => rfl

theorem same_loadRegisters {x : Register} (h : part ∉ (Instruction.loadRegisters x).changes s.i) :
    part.Same s (s.loadRegisters x) := by
  cases part with
  | register y =>
      have hyx : ¬ y ≤ x := by simpa [Instruction.changes] using h
      simp [Part.Same, loadRegisters, reg, hyx]
  | _ => simp only [Part.Same, loadRegisters]

theorem same_next (part : Part) : part.Same s s.next := by
  cases part <;> rfl

theorem same_advance (part : Part) (ins : Instruction) : part.Same s (s.advance ins) := by
  unfold advance
  split
  · exact .refl part
  · exact same_next part

theorem same_execute (h : part ∉ ins.changes s.i) : part.Same s (s.execute ins) := by
  cases ins with
  | clearScreen =>
      cases part with
      | screen => simp [Instruction.changes] at h
      | _ => rfl
  | ret =>
      simp only [execute, ret]
      cases s.frames with
      | nil => exact same_next part
      | cons frame frames =>
          cases part with
          | frames | pointer => simp [Instruction.changes] at h
          | _ => rfl
  | call target =>
      cases part with
      | frames | pointer => simp [Instruction.changes] at h
      | _ => rfl
  | jump | jumpFrom => cases part <;> rfl
  | skipIf question =>
      simp only [execute]
      split
      · exact same_next part
      · exact .refl part
  | loadByte | addByte | loadDelay => exact same_setReg _ (by simpa [Instruction.changes] using h)
  | alu op x y => exact same_compute h
  | loadIndex | addIndex | pointAtGlyph =>
      cases part with
      | index => simp [Instruction.changes] at h
      | _ => rfl
  | random x mask =>
      obtain ⟨hresult, hrng⟩ : part ≠ .register x ∧ part ≠ .rng := by
        simpa [Instruction.changes] using h
      -- The register first, and the generator moves on after it.
      refine (same_setReg (s.rng.nextByte &&& mask) hresult).trans ?_
      cases part with
      | rng => exact absurd rfl hrng
      | _ => rfl
  | draw x y height => exact same_draw h
  | setDelay x =>
      cases part with
      | delay => simp [Instruction.changes] at h
      | _ => rfl
  | setSound x =>
      cases part with
      | sound => simp [Instruction.changes] at h
      | _ => rfl
  | awaitKey x =>
      cases part with
      | awaiting => simp [Instruction.changes] at h
      | _ => rfl
  | storeDecimal x => exact same_store h
  | storeRegisters x =>
      have hlength : (s.v.toList.take (x.val + 1)).length = x.val + 1 := s.length_storedBytes x
      refine same_store ?_
      rw [hlength]
      exact h
  | loadRegisters x => exact same_loadRegisters h

theorem same_of_performed? {a : Action} (hins : s.performed? a = some ins)
    (h : part ∉ ins.changes s.i) : part.Same s (s.apply a) := by
  obtain ha | ha := apply_of_performed? hins
  · rw [ha]
    exact same_execute h
  · rw [ha]
    exact (same_execute h).trans (same_advance part ins)

/-- Nothing changes but the counter and the parts that the instruction names, and where it names
none the counter is all that changes. -/
theorem changes_nothing_else (s : State) (ins : Instruction) :
    let t := (s.execute ins).advance ins
    (∀ part, part ∉ ins.changes s.i → part.Same s t) ∧
      (ins.changes s.i = [] → t = { s with pc := t.pc }) := by
  intro t
  have hsame (part : Part) (h : part ∉ ins.changes s.i) : part.Same s t :=
    (same_execute h).trans (same_advance part ins)
  refine ⟨hsame, fun hnone ↦ Part.eq_of_forall_same fun part ↦ hsame part ?_⟩
  rw [hnone]
  exact List.not_mem_nil

/-- Three registers are stored at the end of memory, the second and the third at its start. -/
example : (Instruction.storeRegisters 2).changes 0xFFF =
    [.cell 0xFFF, .cell 0, .cell 1] := by decide

end State

end Chip8
