import Chip8.Proofs.Command.Prepare
import Chip8.Proofs.Listing.Full
import Chip8.Proofs.Source.Read

/-!
# The listing without options

Without options the whole of memory is selected, and a line lies in memory if its address has three
digits. So the listing is the dump of what fits into memory, and of the whole program if and only if
a machine could load it.
-/

namespace Chip8

namespace Listing

/-- The lines up to an address are the lines of the first bytes. -/
theorem filter_sweep (address k : Nat) (program : List UInt8) :
    (sweep address program).filter (·.address < address + 2 * k) =
      sweep address (program.take (2 * k)) := by
  induction k generalizing address program with
  | zero =>
      rw [List.take_zero, sweep, List.filter_eq_nil_iff]
      intro l hl
      simpa using le_address_of_mem_sweep hl
  | succ k ih =>
      obtain _ | ⟨b₁, _ | ⟨b₂, bs⟩⟩ := program
      · simp [sweep]
      · simp [sweep, Nat.mul_succ]
      · have haddress : address + 2 * (k + 1) = address + 2 + 2 * k := by omega
        rw [sweep, List.filter_cons_of_pos (by simp), haddress, ih]
        rfl

theorem dump_take_eq_iff (n : Nat) (program : List UInt8) :
    dump (program.take n) = dump program ↔ program.length ≤ n := by
  constructor
  · intro h
    have haddress : ∀ (k : Nat) (l l' : Line), (lines (program.take n))[k]? = some l →
        (lines program)[k]? = some l' → l.address = l'.address := by
      intro k l l' hl hl'
      rw [address_of_line hl, address_of_line hl']
    have hlines := join_ended_inj haddress (String.toList_inj.2 h)
    have hlength := congrArg List.length (sweep_inj.1 hlines)
    rw [List.length_take] at hlength
    omega
  · intro h
    rw [List.take_of_length_le h]

namespace Selection

theorem lines_all (program : List UInt8) :
    all.lines program = Listing.lines (program.take programCapacity) := by
  have hfirst := filter_sweep programStart 0x700 program
  rw [lines, Listing.lines, Listing.lines, programCapacity, ← hfirst]
  refine List.filter_congr fun l _ ↦ ?_
  have hbound : l.address ≤ 0xFFF ↔ l.address < programStart + 2 * 0x700 := Nat.lt_succ_iff.symm
  simp only [includes, all, hbound, Bool.not_false, Bool.or_true, Bool.and_true, Nat.zero_le,
    decide_true, Bool.true_and]

/-- Everything that lies in memory is the dump of what a machine could load. -/
theorem text_all (program : List UInt8) : all.text program = dump (program.take programCapacity) := by
  rw [text, lines_all, dump]
  rfl

theorem codeCount_add_dataCount (s : Selection) (program : List UInt8) :
    s.codeCount program + s.dataCount program = (s.lines program).length := by
  rw [codeCount, dataCount, List.length_eq_countP_add_countP Line.isCode]
  simp

theorem codeCount_add_dataCount_all (program : List UInt8) :
    all.codeCount program + all.dataCount program =
      (min program.length programCapacity + 1) / 2 := by
  rw [codeCount_add_dataCount, lines_all, Listing.lines, length_sweep, List.length_take,
    Nat.min_comm]

end Selection

end Listing

namespace ListRequest

variable {r : ListRequest} {stdin : Source} {d : Directory} {program : List UInt8}

/-- No option restricts or changes the listing, and none names an output file. -/
structure WithoutOptions (r : ListRequest) : Prop where
  first : r.first? = none
  last : r.last? = none
  codeOnly : r.codeOnly = false
  plain : r.plain = false
  target : r.target? = none

theorem program_of_readable
    (hread : r.input? = none ∧ stdin.readAll = .ok program ∨
      ∃ path source, r.input? = some path ∧ d.openRead path = .ok source ∧
        source.readAll = .ok program) :
    r.program stdin d = .ok program := by
  obtain ⟨hinput, hall⟩ | ⟨path, source, hinput, hopen, hall⟩ := hread
  · simp only [ListRequest.program, opened, hinput, Except.bind, hall]
    rfl
  · simp only [ListRequest.program, opened, hinput, hopen, Except.mapError, Except.bind, hall]

theorem run_of_selection {s : Listing.Selection} (htarget : r.target? = none)
    (hselection : r.selection = .ok s) (hprogram : r.program stdin d = .ok program) :
    r.run stdin d =
      ⟨0, s.text program, [PreparedListing.summary ⟨s, program⟩], d⟩ := by
  have hprepare : r.prepare stdin d = .ok ⟨s, program⟩ := by
    rw [prepare, hselection, Except.bind, hprogram]
    rfl
  exact run_of_no_target hprepare htarget

theorem run_of_default (h : r.WithoutOptions) (hprogram : r.program stdin d = .ok program) :
    r.run stdin d =
      ⟨0, Listing.Selection.all.text program,
        [PreparedListing.summary ⟨Listing.Selection.all, program⟩], d⟩ := by
  have hselection : r.selection = .ok .all := by
    simp only [selection, bound, h.first, h.last, h.codeOnly, h.plain]
    rfl
  exact run_of_selection h.target hselection hprogram

/-- Without options, a program that can be read is listed as far as it fits into memory. What is
printed is the dump of the whole program, and the counts of the closing line add up to its words and
the last byte of an odd program, if and only if a machine could load the program or it is empty. -/
theorem default_listing_ends_with_memory (h : r.WithoutOptions)
    (hread : r.input? = none ∧ stdin.readAll = .ok program ∨
      ∃ path source, r.input? = some path ∧ d.openRead path = .ok source ∧
        source.readAll = .ok program) :
    ∃ code data,
      r.run stdin d =
          ⟨0, Listing.dump (program.take 0xE00),
            [⟨.info, "listed " ++ toString code ++ " instructions and " ++ toString data ++
              " data words from " ++ toString program.length ++ " bytes"⟩], d⟩ ∧
        code + data = (min program.length 0xE00 + 1) / 2 ∧
        (Listing.dump (program.take 0xE00) = Listing.dump program ↔ program.length ≤ 0xE00) ∧
        (code + data = (program.length + 1) / 2 ↔ program.length ≤ 0xE00) := by
  have hsum := Listing.Selection.codeCount_add_dataCount_all program
  refine ⟨Listing.Selection.all.codeCount program, Listing.Selection.all.dataCount program,
    ?_, hsum, Listing.dump_take_eq_iff 0xE00 program, ?_⟩
  · rw [run_of_default h (program_of_readable hread), Listing.Selection.text_all]
    rfl
  · rw [hsum]
    simp only [programCapacity]
    omega

/-- A program of odd length on standard input, which is listed to its end. -/
theorem default_listing_of_three_bytes :
    let r : ListRequest := ⟨0, none, none, false, false, none, none⟩
    ∃ code data,
      r.run (.ofList [0x00, 0xE0, 0x0F]) .empty =
          ⟨0, Listing.dump [0x00, 0xE0, 0x0F],
            [⟨.info, "listed " ++ toString code ++ " instructions and " ++ toString data ++
              " data words from " ++ toString 3 ++ " bytes"⟩], .empty⟩ ∧
        code + data = 2 := by
  intro r
  have hplain : r.WithoutOptions := ⟨rfl, rfl, rfl, rfl, rfl⟩
  have hread := Source.readAll_ofList [0x00, 0xE0, 0x0F]
  obtain ⟨code, data, hrun, hsum, -⟩ :=
    default_listing_ends_with_memory (d := .empty) hplain (.inl ⟨rfl, hread⟩)
  exact ⟨code, data, hrun, hsum⟩

/-- The last byte of a program that has one byte more than fits into memory is missing from the
listing without options, and its line is not counted. -/
theorem default_listing_misses_last_byte :
    let program : List UInt8 := List.replicate 0xE01 0
    let r : ListRequest := ⟨0, none, none, false, false, none, none⟩
    (r.run (.ofList program) .empty).stdout ≠ Listing.dump program ∧
      ∃ code data,
        (r.run (.ofList program) .empty).log =
            [⟨.info, "listed " ++ toString code ++ " instructions and " ++ toString data ++
              " data words from " ++ toString program.length ++ " bytes"⟩] ∧
          code + data ≠ (program.length + 1) / 2 := by
  intro program r
  have hlength : program.length = 0xE01 := List.length_replicate
  clear_value program
  have hrun := run_of_default (r := r) (d := .empty) ⟨rfl, rfl, rfl, rfl, rfl⟩
    (program_of_readable (.inl ⟨rfl, Source.readAll_ofList program⟩))
  rw [hrun]
  refine ⟨?_, _, _, rfl, ?_⟩
  · rw [Listing.Selection.text_all]
    intro h
    have hle := (Listing.dump_take_eq_iff programCapacity program).1 h
    rw [hlength] at hle
    exact absurd hle (by decide)
  · rw [Listing.Selection.codeCount_add_dataCount_all, hlength]
    decide

end ListRequest

end Chip8
