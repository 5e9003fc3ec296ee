import Chip8.Proofs.Memory.Ring
import Chip8.Proofs.State.Run
import Mathlib.Data.List.Forall2

/-!
# States that agree on the ring

The program counter, the index register and the return addresses are words of sixteen bits, but only
their places on the ring of memory matter: states that differ in nothing else stay so forever and
decode the same words on the way.
-/

namespace Chip8

namespace State

/-- The states agree on everything, but words that point into memory have to agree only in the
place they point at. -/
structure SameOnRing (s t : State) : Prop where
  memory : s.memory = t.memory
  screen : s.screen = t.screen
  keypad : s.keypad = t.keypad
  v : s.v = t.v
  i : s.i.SamePlace t.i
  timers : s.timers = t.timers
  pc : s.pc.SamePlace t.pc
  sp : s.sp = t.sp
  frames : List.Forall₂ Word.SamePlace s.frames t.frames
  awaiting : s.awaiting = t.awaiting
  rng : s.rng = t.rng

namespace SameOnRing

variable {s t : State}

theorem refl (s : State) : SameOnRing s s where
  memory := rfl
  screen := rfl
  keypad := rfl
  v := rfl
  i := .refl _
  timers := rfl
  pc := .refl _
  sp := rfl
  frames := List.forall₂_same.2 fun w _ ↦ .refl w
  awaiting := rfl
  rng := rfl

theorem reg (h : SameOnRing s t) (x : Register) : s.reg x = t.reg x := by
  rw [State.reg, State.reg, h.v]

theorem withMemory (h : SameOnRing s t) (memory : Memory) :
    SameOnRing { s with memory } { t with memory } :=
  { h with memory := rfl }

theorem withRegisters (h : SameOnRing s t) (v : Vector UInt8 16) :
    SameOnRing { s with v } { t with v } :=
  { h with v := rfl }

theorem withScreen (h : SameOnRing s t) (screen : Screen) :
    SameOnRing { s with screen } { t with screen } :=
  { h with screen := rfl }

theorem setReg (h : SameOnRing s t) (x : Register) (b : UInt8) :
    SameOnRing (s.setReg x b) (t.setReg x b) := by
  simp only [State.setReg, h.v]
  exact h.withRegisters _

theorem next (h : SameOnRing s t) : SameOnRing s.next t.next :=
  { h with pc := h.pc.add 2 }

theorem word (h : SameOnRing s t) : s.word = t.word := by
  rw [State.word, State.word, h.memory, Memory.fetch_congr h.pc]

theorem turn (h : SameOnRing s t) : s.turn = t.turn := by
  simp only [State.turn, State.current, h.word, h.awaiting, h.keypad]

theorem answer (h : SameOnRing s t) (q : Question) : s.answer q = t.answer q := by
  cases q <;> simp only [State.answer, h.reg, h.keypad]

theorem compute (h : SameOnRing s t) (op : Alu) (x y : Register) :
    SameOnRing (s.compute op x y) (t.compute op x y) := by
  simp only [State.compute, h.reg]
  cases op.flag? (t.reg x) (t.reg y) with
  | none => exact h.setReg _ _
  | some flag => exact (h.setReg _ _).setReg _ _

theorem call (h : SameOnRing s t) (target : Address) :
    SameOnRing (s.call target) (t.call target) := by
  have hkept : List.Forall₂ Word.SamePlace
      (if s.frames.length < stackDepth then s.frames else s.frames.tail)
      (if t.frames.length < stackDepth then t.frames else t.frames.tail) := by
    rw [h.frames.length_eq]
    split
    · exact h.frames
    · simpa only [List.drop_one] using List.forall₂_drop 1 h.frames
  exact { h with
    frames := .cons (h.pc.add 2) hkept
    sp := congrArg (fun n ↦ pointer (n + 1)) hkept.length_eq
    pc := .refl _ }

theorem ret (h : SameOnRing s t) : SameOnRing s.ret t.ret := by
  have hframes := h.frames
  unfold State.ret
  cases hs : s.frames with
  | nil =>
      rw [hs, List.forall₂_nil_left_iff] at hframes
      rw [hframes]
      exact h.next
  | cons frame frames =>
      rw [hs, List.forall₂_cons_left_iff] at hframes
      obtain ⟨frame', frames', hframe, hrest, ht⟩ := hframes
      rw [ht]
      exact { h with
        frames := hrest
        sp := congrArg pointer hrest.length_eq
        pc := hframe }

theorem draw (h : SameOnRing s t) (x y : Register) (height : UInt8) :
    SameOnRing (s.draw x y height) (t.draw x y height) := by
  have hsprite : s.memory.readRange s.i height.toNat = t.memory.readRange t.i height.toNat := by
    rw [h.memory, Memory.readRange_congr h.i]
  simp only [State.draw, hsprite, h.reg, h.screen]
  exact (h.withScreen _).setReg _ _

theorem store (h : SameOnRing s t) (bytes : List UInt8) :
    SameOnRing (s.store bytes) (t.store bytes) := by
  rw [State.store, State.store, h.memory, Memory.writeList_congr h.i]
  exact h.withMemory _

theorem loadRegisters (h : SameOnRing s t) (x : Register) :
    SameOnRing (s.loadRegisters x) (t.loadRegisters x) := by
  have hread (r : Register) : s.memory.read (s.i + UInt16.ofNat r.val) =
      t.memory.read (t.i + UInt16.ofNat r.val) := by
    rw [h.memory, Memory.read_congr (h.i.add _)]
  simp only [State.loadRegisters, hread, h.reg]
  exact h.withRegisters _

/-- No instruction tells apart two words that point at the same place. -/
theorem execute (h : SameOnRing s t) (ins : Instruction) :
    SameOnRing (s.execute ins) (t.execute ins) := by
  cases ins with
  | clearScreen => exact h.withScreen .blank
  | ret => exact h.ret
  | jump target => exact { h with pc := .refl _ }
  | jumpFrom base =>
      simp only [State.execute, h.reg]
      exact { h with pc := .refl _ }
  | call target => exact h.call target
  | skipIf question =>
      simp only [State.execute, h.answer]
      split
      · exact h.next
      · exact h
  | loadByte x b => exact h.setReg x b
  | addByte x b =>
      simp only [State.execute, h.reg]
      exact h.setReg x _
  | alu op x y => exact h.compute op x y
  | loadIndex target => exact { h with i := .refl _ }
  | addIndex x =>
      simp only [State.execute, h.reg]
      exact { h with i := h.i.add _ }
  | random x mask =>
      simp only [State.execute, h.rng]
      exact { h.setReg x _ with rng := rfl }
  | draw x y height => exact h.draw x y height
  | loadDelay x =>
      simp only [State.execute, h.timers]
      exact h.setReg x _
  | setDelay x => exact { h with timers := by simp only [State.execute, h.timers, h.reg] }
  | setSound x => exact { h with timers := by simp only [State.execute, h.timers, h.reg] }
  | awaitKey x => exact { h with awaiting := rfl }
  | pointAtGlyph x =>
      simp only [State.execute, h.reg]
      exact { h with i := .refl _ }
  | storeDecimal x =>
      simp only [State.execute, h.reg]
      exact h.store _
  | storeRegisters x =>
      simp only [State.execute, h.v]
      exact h.store _
  | loadRegisters x => exact h.loadRegisters x

theorem advance (h : SameOnRing s t) (ins : Instruction) :
    SameOnRing (s.advance ins) (t.advance ins) := by
  unfold State.advance
  split
  · exact h
  · exact h.next

theorem receive (h : SameOnRing s t) (x : Register) (k : Key) :
    SameOnRing (s.receive x k) (t.receive x k) :=
  { h.setReg x _ with
    awaiting := rfl
    keypad := congrArg Keypad.take h.keypad }

theorem step (h : SameOnRing s t) : SameOnRing s.step t.step := by
  unfold State.step
  rw [h.turn]
  cases t.turn with
  | wait x => exact h
  | receive x k => exact h.receive x k
  | perform ins => exact (h.execute ins).advance ins
  | passOver e => exact h.next

theorem apply (h : SameOnRing s t) (a : Action) : SameOnRing (s.apply a) (t.apply a) := by
  cases a with
  | step => exact h.step
  | tick => exact { h with timers := congrArg Timers.tick h.timers }
  | execute ins => exact h.execute ins
  | advance ins => exact h.advance ins
  | load program =>
      simp only [State.apply, State.load, h.memory]
      cases t.memory.load program with
      | ok memory => exact h.withMemory memory
      | error e => exact h
  | reset =>
      have hreset : s.reset = t.reset := by rw [State.reset, State.reset, h.rng, h.memory]
      rw [State.apply, State.apply, hreset]
      exact .refl _
  | setKey k isDown => exact { h with keypad := congrArg (·.set k isDown) h.keypad }
  | takePress => exact { h with keypad := congrArg Keypad.take h.keypad }
  | releaseKeys => exact { h with keypad := rfl }
  | setRegister x b => exact h.setReg x b
  | setIndex w => exact { h with i := .refl w }
  | setDelay b => exact { h with timers := congrArg (·.setDelay b) h.timers }
  | setSound b => exact { h with timers := congrArg (·.setSound b) h.timers }
  | setPointer b => exact { h with sp := rfl }
  | write w bytes =>
      simp only [State.apply, h.memory]
      exact h.withMemory _
  | restoreGlyphs =>
      simp only [State.apply, h.memory]
      exact h.withMemory _
  | draw sprite x y =>
      simp only [State.apply, h.screen]
      exact h.withScreen _
  | clearScreen => exact h.withScreen .blank

theorem decoded (h : SameOnRing s t) (history : List Action) :
    s.decoded history = t.decoded history := by
  fun_induction State.decoded s history generalizing t with
  | case1 => rfl
  | case2 s history ih => rw [State.decoded, ih h.step, h.word, h.awaiting]
  | case3 s a history ha ih =>
      rw [State.decoded.eq_3, ih (h.apply a)]
      exact ha

theorem run (h : SameOnRing s t) (history : List Action) :
    SameOnRing (s.run history) (t.run history) :=
  run_couples SameOnRing (fun _ _ a hst ↦ hst.apply a) h history

end SameOnRing

/-- No history tells apart words that differ by a multiple of the size of memory: states that agree
on the ring agree on it ever after, and the steps decode the same words in both. -/
theorem runs_agree_on_ring {s t : State} (h : s.SameOnRing t) (history : List Action) :
    (s.run history).SameOnRing (t.run history) ∧ s.decoded history = t.decoded history :=
  ⟨h.run history, h.decoded history⟩

/-- A call from the last word of memory, stored registers that cross its end, and the return. -/
theorem runs_agree_on_ring_at_end :
    let s := { initial .fixed with pc := 0x0FFE, i := 0x0FFF, frames := [0x0202], sp := 1 }
    let t := { initial .fixed with pc := 0xFFFE, i := 0xFFFF, frames := [0x1202], sp := 1 }
    let history := [.write 0x0FFE [0x23, 0x00], .write 0x300 [0xF1, 0x55, 0x00, 0xEE],
      .step, .step, .step, .tick, .step]
    s.pc ≠ t.pc ∧ s.frames ≠ t.frames ∧ s.SameOnRing t ∧
      (s.run history).SameOnRing (t.run history) ∧ s.decoded history = t.decoded history := by
  intro s t history
  have h : s.SameOnRing t :=
    { SameOnRing.refl (initial .fixed) with
      pc := by decide
      i := by decide
      frames := .cons (by decide) .nil
      sp := rfl }
  exact ⟨by decide, by decide, h, runs_agree_on_ring h history⟩

end State

end Chip8
