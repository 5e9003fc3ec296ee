import Chip8.Proofs.Memory.ReadBack
import Chip8.Proofs.State.Frame
import Chip8.Proofs.State.Trace

/-!
# Registers saved in memory

Registers that are stored at the index register can be loaded again as long as neither the index
register nor the bytes are touched, and only five instructions can do that. The index register may
stand anywhere, so the bytes may go round at the end of memory.
-/

namespace Chip8

/-- Whether the instruction sets the index register or stores bytes there. -/
def Instruction.touchesStore : Instruction → Bool
  | .loadIndex _ | .addIndex _ | .pointAtGlyph _ | .storeDecimal _ | .storeRegisters _ => true
  | _ => false

/-- Whether the action changes memory or the index register otherwise than by an instruction. -/
def Action.touchesStore : Action → Bool
  | .load _ | .reset | .setIndex _ | .write _ _ | .restoreGlyphs => true
  | _ => false

namespace State

variable {s : State} {ins : Instruction} {a : Action} {x y r : Register} {history : List Action}

/-! ### What leaves the bytes alone -/

theorem index_execute (h : ins.touchesStore = false) : (s.execute ins).i = s.i := by
  have hchanges : .index ∉ ins.changes s.i := by
    cases ins with
    | loadIndex | addIndex | pointAtGlyph | storeDecimal | storeRegisters => cases h
    | alu op x y =>
        simp only [Instruction.changes]
        split <;> simp
    | _ => simp [Instruction.changes]
  exact same_execute hchanges

theorem memory_execute (h : ins.touchesStore = false) : (s.execute ins).memory = s.memory := by
  have hbytes : s.storedBytes ins = [] := by
    cases ins with
    | storeDecimal | storeRegisters => cases h
    | _ => rfl
  rw [(s.footprint_execute ins).memory, hbytes, Memory.writeList]

theorem store_apply (ha : a.touchesStore = false)
    (hins : ∀ ins, s.performed? a = some ins → ins.touchesStore = false) :
    (s.apply a).memory = s.memory ∧ (s.apply a).i = s.i := by
  cases hperformed : s.performed? a with
  | some ins =>
      obtain ⟨pc, happly⟩ := exists_pc_of_performed? hperformed
      have hkeep := hins ins hperformed
      rw [happly]
      exact ⟨memory_execute hkeep, index_execute hkeep⟩
  | none =>
      cases a with
      | step =>
          rw [apply, step]
          cases hturn : s.turn with
          | perform ins => simp [performed?, hturn] at hperformed
          | _ => exact ⟨rfl, rfl⟩
      | execute ins => cases hperformed
      | advance ins =>
          rw [apply, advance]
          split <;> exact ⟨rfl, rfl⟩
      | load | reset | setIndex | write | restoreGlyphs => cases ha
      | _ => exact ⟨rfl, rfl⟩

theorem store_run (ha : ∀ a ∈ history, a.touchesStore = false)
    (hins : ∀ ins ∈ s.collect performed? history, ins.touchesStore = false) :
    (s.run history).memory = s.memory ∧ (s.run history).i = s.i := by
  induction history generalizing s with
  | nil => exact ⟨rfl, rfl⟩
  | cons a history ih =>
      rw [List.forall_mem_cons] at ha
      rw [collect_cons, List.forall_mem_append] at hins
      obtain ⟨hmemory, hi⟩ := store_apply ha.1 fun ins h ↦ hins.1 ins (by rw [h]; simp)
      obtain ⟨hmemory', hi'⟩ := ih ha.2 hins.2
      exact ⟨hmemory'.trans hmemory, hi'.trans hi⟩

/-! ### Storing and loading registers -/

theorem reg_loadRegisters (s : State) (y r : Register) :
    (s.loadRegisters y).reg r =
      if r ≤ y then s.memory.get (.wrap (s.i.toNat + r.val)) else s.reg r := by
  simp [loadRegisters, reg, Memory.read_add_ofNat]

/-- Registers that were stored come back with the load, and the registers that are not loaded keep
what was put there meanwhile. Memory holds the registers that were stored and is otherwise as it
was. All that is asked of the time between is that it does not touch the index register and stores
nothing. -/
theorem stored_registers_come_back {s : State} {x y : Register} {save load : Action}
    {between : List Action} (hsave : s.performed? save = some (.storeRegisters x))
    (houtside : ∀ a ∈ between, a.touchesStore = false)
    (hbetween : ∀ ins ∈ (s.apply save).collect performed? between, ins.touchesStore = false)
    (hload : ((s.apply save).run between).performed? load = some (.loadRegisters y))
    (hyx : y ≤ x) :
    let t := (s.apply save).run between
    let u := t.apply load
    (∀ r, r ≤ y → u.reg r = s.reg r) ∧ (∀ r, y < r → u.reg r = t.reg r) ∧ u.i = s.i ∧
      (∀ r, r ≤ x → u.memory.get (.wrap (s.i.toNat + r.val)) = s.reg r) ∧
      ∀ p, (∀ r, r ≤ x → .wrap (s.i.toNat + r.val) ≠ p) → u.memory.get p = s.memory.get p := by
  intro t u
  have hsaved : (s.apply save).memory = s.memory.writeList s.i (s.storedBytes (.storeRegisters x)) :=
    (footprint_of_performed? hsave).memory
  have hsavedIndex : (s.apply save).i = s.i := index_of_performed? hsave
  obtain ⟨hkept, hkeptIndex⟩ := store_run houtside hbetween
  have hmemory : t.memory = s.memory.writeList s.i (s.storedBytes (.storeRegisters x)) :=
    hkept.trans hsaved
  have hindex : t.i = s.i := hkeptIndex.trans hsavedIndex
  have hreg (r : Register) :
      u.reg r = if r ≤ y then t.memory.get (.wrap (t.i.toNat + r.val)) else t.reg r :=
    (reg_of_performed? hload r).trans (t.reg_loadRegisters y r)
  have humemory : u.memory = t.memory := (footprint_of_performed? hload).memory
  have hstored (r : Register) (hr : r ≤ x) : t.memory.get (.wrap (s.i.toNat + r.val)) = s.reg r := by
    rw [hmemory]
    refine Memory.get_writeList_of_getElem? ?_ (getElem?_storedBytes hr)
    rw [length_storedBytes]
    exact Nat.le_trans x.isLt (by decide)
  refine ⟨?_, ?_, ?_, ?_, ?_⟩
  · intro r hr
    rw [hreg, if_pos hr, hindex]
    exact hstored r (Fin.le_trans hr hyx)
  · intro r hr
    rw [hreg, if_neg (Fin.not_le.2 hr)]
  · exact ((index_of_performed? hload).trans (index_execute rfl)).trans hindex
  · intro r hr
    rw [humemory]
    exact hstored r hr
  · intro p hp
    rw [humemory, hmemory]
    refine Memory.get_writeList_of_ne fun k hk ↦ ?_
    rw [length_storedBytes] at hk
    exact hp ⟨k, Nat.lt_of_lt_of_le hk x.isLt⟩ (Nat.le_of_lt_succ hk)

/-- Four registers are stored over the end of memory, and three of them come back after a sum, a call
and a drawing. -/
theorem stored_registers_come_back_over_end :
    let s := { initial .fixed with
      i := 0xFFFE, v := #v[0, 16, 32, 48, 0, 0, 0, 0, 0, 0, 0, 0, 0, 0, 0, 0] }
    let between : List Action := [.execute (.loadByte 0 7), .tick, .execute (.alu .add 1 2),
      .execute (.call 0x300), .setKey (.ofNat 4) true, .execute (.draw 1 2 5),
      .execute (.loadByte 3 9)]
    let t := (s.apply (.execute (.storeRegisters 3))).run between
    let u := t.apply (.execute (.loadRegisters 2))
    s.performed? (.execute (.storeRegisters 3)) = some (.storeRegisters 3) ∧
      (∀ a ∈ between, a.touchesStore = false) ∧
      (∀ ins ∈ (s.apply (.execute (.storeRegisters 3))).collect performed? between,
        ins.touchesStore = false) ∧
      t.performed? (.execute (.loadRegisters 2)) = some (.loadRegisters 2) ∧
      t.reg 1 = 48 ∧ u.reg 1 = 16 ∧ u.reg 2 = 32 ∧ u.reg 3 = 9 ∧
      u.memory.get (.wrap 1) = 48 := by
  intro s between t u
  have hsave : s.performed? (.execute (.storeRegisters 3)) = some (.storeRegisters 3) :=
    performed?_eq_some.2 (.inr rfl)
  have hbetween : ∀ ins ∈ (s.apply (.execute (.storeRegisters 3))).collect performed? between,
      ins.touchesStore = false := by
    simp [between, collect_cons, performed?, Instruction.touchesStore]
  have hload : t.performed? (.execute (.loadRegisters 2)) = some (.loadRegisters 2) :=
    performed?_eq_some.2 (.inr rfl)
  obtain ⟨hback, hrest, -, hmemory, -⟩ :=
    stored_registers_come_back hsave (by decide) hbetween hload (by decide)
  refine ⟨hsave, by decide, hbetween, hload, by decide +kernel, ?_, ?_, ?_, ?_⟩
  · exact (hback 1 (by decide)).trans (by decide +kernel)
  · exact (hback 2 (by decide)).trans (by decide +kernel)
  · exact (hrest 3 (by decide)).trans (by decide +kernel)
  · have hplace : Address.wrap 1 = .wrap (s.i.toNat + (3 : Register).val) := by decide
    rw [hplace, hmemory 3 (by decide)]
    decide +kernel

end State

end Chip8
