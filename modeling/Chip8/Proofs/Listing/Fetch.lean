import Chip8.Proofs.Listing.Sweep
import Chip8.Proofs.Memory.Load
import Chip8.Proofs.State.Run
import Chip8.State.Step

/-!
# Listings and fetches

A listing shows what the instruction cycle meets: the word of every line is the one that is fetched
from its address once the program has been loaded, and the line holds an instruction exactly where
the cycle finds that one.
-/

namespace Chip8.Listing

variable {program : List UInt8} {l : Line}

theorem exists_line_of_mem_lines (hfits : program.length ≤ programCapacity)
    (h : l ∈ lines program) :
    ∃ k, (lines program)[k]? = some l ∧ 2 * k + 1 < programCapacity := by
  obtain ⟨k, hk⟩ := List.mem_iff_getElem?.1 h
  refine ⟨k, hk, ?_⟩
  obtain ⟨hlt, -⟩ := List.getElem?_eq_some_iff.1 hk
  rw [lines, length_sweep] at hlt
  simp only [programCapacity] at hfits ⊢
  omega

/-- Loading a program puts the word of each of its lines at the address of the line. -/
theorem fetch_of_mem_lines {m m' : Memory} (hload : m.load program = .ok m')
    (h : l ∈ lines program) : m'.fetch (UInt16.ofNat l.address) = l.content.toWord := by
  obtain ⟨-, hfits, rfl⟩ := Memory.load_eq_ok.1 hload
  obtain ⟨k, hk, hroom⟩ := exists_line_of_mem_lines hfits h
  rw [address_of_line hk, toWord_of_line hk, Memory.fetch_replaceProgram hroom]

theorem instruction?_of_size_eq_two (h : l.size = 2) :
    l.instruction? = (Instruction.ofWord l.content.toWord).toOption := by
  obtain ⟨address, content⟩ := l
  cases content with
  | byte b => simp [Line.size, Content.bytes] at h
  | word w =>
      simp only [Line.instruction?, Content.instruction?, Content.toWord, Instruction.ofWord]
      cases Instruction.ofWord? w <;> rfl

/-- The lines of a listing tile the program. Once the program has been loaded into a machine in any
state, each line shows the word that is fetched from its address, the last byte of an odd program
included, and the instruction that the cycle finds there. -/
theorem lines_show_fetches (program : List UInt8) :
    (lines program).length = (program.length + 1) / 2 ∧
      (∀ k l, (lines program)[k]? = some l → l.address = 0x200 + 2 * k ∧
        l.size = if k + 1 = (lines program).length ∧ program.length % 2 = 1 then 1 else 2) ∧
      ((lines program).flatMap fun l ↦
        [l.content.toWord.high, l.content.toWord.low].take l.size) = program ∧
      ∀ s t : State, s.load program = .ok t → ∀ l ∈ lines program,
        t.memory.fetch (UInt16.ofNat l.address) = l.content.toWord ∧
          (l.size = 2 →
            l.instruction? = { t with pc := UInt16.ofNat l.address }.current.toOption) := by
  refine ⟨length_sweep _ _, ?_, ?_, ?_⟩
  · intro k l hl
    exact ⟨address_of_line hl, size_of_line hl⟩
  · simp only [take_size_toWord]
    exact flatMap_bytes_sweep _ _
  · intro s t hload l hl
    obtain ⟨memory, hmemory, rfl⟩ := State.load_eq_ok.1 hload
    have hfetch := fetch_of_mem_lines hmemory hl
    refine ⟨hfetch, fun hsize ↦ ?_⟩
    rw [instruction?_of_size_eq_two hsize, ← hfetch]
    rfl

/-- A program of an odd length comes over what is left of a longer one. The low byte of its last word
is zero, although it is not listed and something else was there before. -/
theorem odd_listing_over_leftovers :
    let leftovers : List UInt8 := [0x60, 0xFF, 0xFF, 0xFF, 0xFF]
    let program : List UInt8 := [0x60, 0x2A, 0x12]
    ∃ s t : State, (State.initial .fixed).load leftovers = .ok s ∧ s.step.load program = .ok t ∧
      s.step.memory.fetch 0x202 = 0xFFFF ∧
      lines program = [⟨0x200, .word 0x602A⟩, ⟨0x202, .byte 0x12⟩] ∧
      t.memory.fetch 0x202 = 0x1200 ∧
      { t with pc := 0x200 }.current.toOption = some (.loadByte .v0 0x2A) := by
  intro leftovers program
  have hbefore :=
    (State.initial .fixed).load_of_accepted (show leftovers ≠ [] by decide) (by decide)
  generalize hs : ({ State.initial .fixed with
    memory := (State.initial .fixed).memory.replaceProgram leftovers } : State) = s at hbefore
  have hwait : s.awaiting = none := by rw [← hs]; rfl
  have hmemory : s.memory = (State.initial .fixed).memory.replaceProgram leftovers := by rw [← hs]
  have hpc : s.pc = 0x200 := by rw [← hs]; rfl
  have hword : Word.ofBytes (leftovers.getD 0 0) (leftovers.getD 1 0) = 0x60FF := by decide
  have hcurrent : s.current = .ok (.loadByte .v0 0xFF) :=
    (State.current_of_replaceProgram (n := 0) hmemory hpc (by decide)).trans
      (congrArg Instruction.ofWord hword)
  have hkept : s.step.memory = s.memory := by
    rw [State.step_of_current hwait hcurrent]
    rfl
  have hdirty : s.step.memory.fetch 0x202 = 0xFFFF := by
    have hplace : (0x202 : Word) = UInt16.ofNat (programStart + 2) := rfl
    rw [hkept, hmemory, hplace, Memory.fetch_replaceProgram (by decide)]
    decide
  have hload := s.step.load_of_accepted (show program ≠ [] by decide) (by decide)
  have hlines : lines program = [⟨0x200, .word 0x602A⟩, ⟨0x202, .byte 0x12⟩] := by decide
  obtain ⟨-, -, -, hfetch⟩ := lines_show_fetches program
  have hfirst := hfetch _ _ hload ⟨0x200, .word 0x602A⟩ (by rw [hlines]; decide)
  have hlast := hfetch _ _ hload ⟨0x202, .byte 0x12⟩ (by rw [hlines]; decide)
  exact ⟨s, _, hbefore, hload, hdirty, hlines, hlast.1, (hfirst.2 rfl).symm⟩

end Chip8.Listing
