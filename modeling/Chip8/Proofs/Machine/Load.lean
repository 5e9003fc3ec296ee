import Chip8.Machine.Operation
import Chip8.Proofs.Memory.Load
import Chip8.Proofs.Source.Read
import Chip8.State.Action
import Mathlib.Data.List.GetD

/-!
# Loading is all or nothing

A load that fails leaves everything as it was, whether the program does not fit or cannot be read to
its end. One that succeeds replaces the area of programs as a whole and touches nothing else.
-/

namespace Chip8

namespace Memory

variable {m m' : Memory} {program : List UInt8}

theorem load_eq_error_empty : m.load program = .error .empty ↔ program = [] := by
  unfold load
  by_cases hempty : program = []
  · simp [hempty]
  by_cases hlarge : programCapacity < program.length
  · simp [hempty, hlarge]
  · simp [hempty, hlarge]

theorem load_eq_error_tooLarge {n : Nat} :
    m.load program = .error (.tooLarge n) ↔ programCapacity < program.length ∧ n = program.length := by
  unfold load
  by_cases hempty : program = []
  · simp [hempty]
  by_cases hlarge : programCapacity < program.length
  · simp [hempty, hlarge, eq_comm]
  · simp [hempty, hlarge]

theorem getElem_toList_cells (m : Memory) {i : Nat} (h : i < m.cells.toList.length) :
    m.cells.toList[i] = m.get ⟨i, by simpa using h⟩ := by
  simp [get]

/-- A load leaves the program between what came before it and zeros up to the end of memory. -/
theorem toList_replaceProgram (m : Memory) (h : program.length ≤ programCapacity) :
    (m.replaceProgram program).cells.toList =
      m.cells.toList.take programStart ++
        (program ++ List.replicate (programCapacity - program.length) 0) := by
  have hstart : (m.cells.toList.take programStart).length = programStart := by
    rw [List.length_take, Vector.length_toList]
    rfl
  apply List.ext_getElem
  · rw [List.length_append, List.length_append, hstart, List.length_replicate,
      Vector.length_toList]
    simp only [programStart, programCapacity] at h ⊢
    omega
  · intro i hi _
    rw [getElem_toList_cells _ hi, get_replaceProgram]
    by_cases hlow : i < programStart
    · rw [if_pos hlow, List.getElem_append_left (by omega), List.getElem_take,
        getElem_toList_cells]
    · rw [if_neg hlow, List.getElem_append_right (by omega)]
      simp only [hstart]
      by_cases hin : i - programStart < program.length
      · rw [List.getElem_append_left hin, List.getD_eq_getElem _ _ hin]
      · rw [List.getElem_append_right (by omega), List.getElem_replicate,
          List.getD_eq_default _ _ (by omega)]

end Memory

/-- A load of the program into something that holds a memory ends with `answer` and leaves `after`.
It fails for an empty program and for one that is too large, and then leaves all as it was before.
Otherwise it puts the program and zeros after it in the place of all that lay from `0x200` on, and
`withMemory` says that nothing but memory changes. -/
structure AllOrNothing {α : Type} (program : List UInt8) (memory : Memory) (withMemory : Memory → α)
    (before : α) (answer : Except Memory.LoadError α) (after : α) : Prop where
  empty : answer = .error .empty ↔ program = []
  tooLarge : ∀ n, answer = .error (.tooLarge n) ↔ 0xE00 < program.length ∧ n = program.length
  failed : ∀ e, answer = .error e → after = before
  loaded : program ≠ [] → program.length ≤ 0xE00 →
    ∃ replaced : Memory, answer = .ok (withMemory replaced) ∧ after = withMemory replaced ∧
      replaced.cells.toList = memory.cells.toList.take 0x200 ++
        (program ++ List.replicate (0xE00 - program.length) 0)

theorem AllOrNothing.of_load {α : Type} {program : List UInt8} {memory : Memory}
    {withMemory : Memory → α} {before after : α} {answer : Except Memory.LoadError α}
    (hanswer : answer = (memory.load program).map withMemory)
    (hok : ∀ loaded, answer = .ok loaded → after = loaded)
    (herror : ∀ e, answer = .error e → after = before) :
    AllOrNothing program memory withMemory before answer after where
  empty := by
    rw [hanswer, ← Memory.load_eq_error_empty (m := memory)]
    cases memory.load program <;> simp [Except.map]
  tooLarge n := by
    rw [hanswer, ← programCapacity, ← Memory.load_eq_error_tooLarge (m := memory)]
    cases memory.load program <;> simp [Except.map]
  failed := herror
  loaded hne hle := by
    have hload : memory.load program = .ok (memory.replaceProgram program) :=
      Memory.load_eq_ok.2 ⟨hne, hle, rfl⟩
    have hloaded : answer = .ok (withMemory (memory.replaceProgram program)) := by
      rw [hanswer, hload]
      rfl
    exact ⟨_, hloaded, hok _ hloaded, memory.toList_replaceProgram hle⟩

namespace State

theorem load_eq_map (s : State) (program : List UInt8) :
    s.load program = (s.memory.load program).map fun memory ↦ { s with memory } := by
  rw [load]
  cases s.memory.load program <;> rfl

theorem allOrNothing_load (s : State) (program : List UInt8) :
    AllOrNothing program s.memory (fun memory ↦ { s with memory }) s (s.load program)
      (s.apply (.load program)) := by
  refine .of_load (s.load_eq_map program) ?_ ?_
  · intro loaded h
    rw [apply, h]
  · intro e h
    rw [apply, h]

end State

namespace Machine

theorem load_eq_map (m : Machine) (program : List UInt8) :
    m.load program = (m.state.memory.load program).map fun memory ↦
      { m with state := { m.state with memory } } := by
  rw [load, State.load_eq_map]
  cases m.state.memory.load program <;> rfl

theorem load_eq_ok {m loaded : Machine} {program : List UInt8} :
    m.load program = .ok loaded ↔
      program ≠ [] ∧ program.length ≤ programCapacity ∧
        { m with state := { m.state with memory := m.state.memory.replaceProgram program } } =
          loaded := by
  rw [load_eq_map]
  constructor
  · intro h
    cases hmemory : m.state.memory.load program with
    | error e =>
        rw [hmemory] at h
        cases h
    | ok memory =>
        obtain ⟨hne, hle, rfl⟩ := Memory.load_eq_ok.1 hmemory
        rw [hmemory] at h
        exact ⟨hne, hle, Except.ok.inj h⟩
  · rintro ⟨hne, hle, rfl⟩
    rw [Memory.load_eq_ok.2 ⟨hne, hle, rfl⟩]
    rfl

theorem allOrNothing_load (m : Machine) (program : List UInt8) :
    AllOrNothing program m.state.memory
      (fun memory ↦ { m with state := { m.state with memory } }) m (m.load program)
      (m.apply (.load program)) := by
  refine .of_load (m.load_eq_map program) ?_ ?_
  · intro loaded h
    rw [apply, h]
  · intro e h
    rw [apply, h]

variable {m : Machine} {source : Source} {reason : String}

theorem loadFrom_of_ends (m : Machine) (h : source.failure? = none) :
    m.loadFrom source = (m.load source.bytes).mapError .unfit := by
  rw [loadFrom, Source.readAll_of_ends h]
  dsimp only
  cases m.load source.bytes <;> rfl

theorem apply_loadFrom_of_ends (m : Machine) (h : source.failure? = none) :
    m.apply (.loadFrom source) = m.apply (.load source.bytes) := by
  rw [apply, apply, m.loadFrom_of_ends h]
  cases m.load source.bytes <;> rfl

theorem loadFrom_of_fails (m : Machine) (h : source.failure? = some reason) :
    m.loadFrom source = .error (.unreadable ⟨reason⟩) := by
  rw [loadFrom, Source.readAll_of_fails h]

/-- A program is loaded as a whole or not at all, into a state and into a machine, whether it runs
or not. From a source that ends, all its bytes are loaded as one program, whatever the pieces that
they come in. A source that fails leaves everything as it was, whatever it delivered before. -/
theorem load_all_or_nothing :
    (∀ (s : State) (program : List UInt8),
      AllOrNothing program s.memory (fun memory ↦ { s with memory }) s (s.load program)
        (s.apply (.load program))) ∧
      (∀ (m : Machine) (program : List UInt8),
        AllOrNothing program m.state.memory
          (fun memory ↦ { m with state := { m.state with memory } }) m (m.load program)
          (m.apply (.load program))) ∧
      ∀ (m : Machine) (source : Source),
        (source.failure? = none →
          m.loadFrom source = (m.load source.bytes).mapError .unfit ∧
            m.apply (.loadFrom source) = m.apply (.load source.bytes)) ∧
          ∀ reason, source.failure? = some reason →
            ∃ e, m.loadFrom source = .error e ∧ e.message = "could not read program data" ∧
              e.causes = [reason] ∧ m.apply (.loadFrom source) = m := by
  refine ⟨State.allOrNothing_load, allOrNothing_load, ?_⟩
  intro m source
  refine ⟨fun hends ↦ ⟨m.loadFrom_of_ends hends, m.apply_loadFrom_of_ends hends⟩, ?_⟩
  intro reason hfails
  have hload := m.loadFrom_of_fails hfails
  refine ⟨_, hload, rfl, rfl, ?_⟩
  rw [apply, hload]

end Machine

end Chip8
