import Chip8.Proofs.Listing.Address
import Chip8.Proofs.Listing.Default

/-!
# Listings of address ranges

The lines of a listing lie one after another in memory, so a range of addresses may be cut anywhere:
the listings of the two parts, one after the other, are the listing of the whole, and the lines
counted are as many.
-/

namespace Chip8

namespace Listing

namespace Selection

/-- The part of a selection up to an address. -/
def upTo (s : Selection) (m : Nat) : Selection :=
  { s with last := m }

/-- The part of a selection after an address. -/
def after (s : Selection) (m : Nat) : Selection :=
  { s with first := m + 1 }

variable {s : Selection} {m : Nat} {l : Line} {ls : List Line}

theorem includes_eq_true :
    s.includes l = true ↔
      (s.first ≤ l.address ∧ l.address ≤ s.last) ∧ (s.codeOnly = true → l.isCode = true) := by
  cases hcode : l.isCode <;> cases hcodeOnly : s.codeOnly <;> simp [includes, hcode, hcodeOnly]

theorem includes_parts_of_le (hlast : m < s.last) (h : l.address ≤ m) :
    (s.upTo m).includes l = s.includes l ∧ (s.after m).includes l = false := by
  have hle : l.address ≤ s.last := Nat.le_trans h (Nat.le_of_lt hlast)
  have hnot : ¬ m + 1 ≤ l.address := Nat.not_le.2 (Nat.lt_succ_of_le h)
  constructor
  · rw [Bool.eq_iff_iff, includes_eq_true, includes_eq_true]
    simp [upTo, h, hle]
  · rw [← Bool.not_eq_true, includes_eq_true]
    simp [after, hnot]

theorem includes_parts_of_lt (hfirst : s.first ≤ m) (h : m < l.address) :
    (s.upTo m).includes l = false ∧ (s.after m).includes l = s.includes l := by
  have hle : s.first ≤ l.address := Nat.le_trans hfirst (Nat.le_of_lt h)
  have hnot : ¬ l.address ≤ m := Nat.not_le.2 h
  constructor
  · rw [← Bool.not_eq_true, includes_eq_true]
    simp [upTo, hnot]
  · rw [Bool.eq_iff_iff, includes_eq_true, includes_eq_true]
    simp [after, Nat.succ_le_of_lt h, hle]

theorem filter_parts (hfirst : s.first ≤ m) (hlast : m < s.last)
    (hls : ls.Pairwise (·.address < ·.address)) :
    ls.filter (s.upTo m).includes ++ ls.filter (s.after m).includes = ls.filter s.includes := by
  induction ls with
  | nil => rfl
  | cons l ls ih =>
      have hafter := (List.pairwise_cons.1 hls).1
      rcases Nat.lt_or_ge m l.address with hlt | hle
      · -- From here on everything lies after the cut.
        have hlater : ∀ l' ∈ l :: ls, m < l'.address := by
          intro l' hl'
          obtain rfl | hl' := List.mem_cons.1 hl'
          · exact hlt
          · exact Nat.lt_trans hlt (hafter l' hl')
        have hnone : (l :: ls).filter (s.upTo m).includes = [] := by
          rw [List.filter_eq_nil_iff]
          intro l' hl'
          rw [(includes_parts_of_lt hfirst (hlater l' hl')).1]
          exact Bool.false_ne_true
        rw [hnone, List.nil_append]
        exact List.filter_congr fun l' hl' ↦ (includes_parts_of_lt hfirst (hlater l' hl')).2
      · obtain ⟨hwhole, hout⟩ := includes_parts_of_le hlast hle
        have hrest := ih (List.pairwise_cons.1 hls).2
        rw [List.filter_cons_of_neg (p := (s.after m).includes) (by simp [hout]), List.filter_cons,
          List.filter_cons, hwhole, ← hrest]
        split <;> rfl

/-- A selection may be cut at any address that lies in it. -/
theorem lines_parts (hfirst : s.first ≤ m) (hlast : m < s.last) (program : List UInt8) :
    (s.upTo m).lines program ++ (s.after m).lines program = s.lines program :=
  filter_parts hfirst hlast (pairwise_sweep _ _)

theorem text_parts (hfirst : s.first ≤ m) (hlast : m < s.last) (program : List UInt8) :
    (s.upTo m).text program ++ (s.after m).text program = s.text program := by
  have hupTo : (s.upTo m).lineText = s.lineText := rfl
  have hafter : (s.after m).lineText = s.lineText := rfl
  rw [text, text, text, hupTo, hafter, ← String.join_append, ← List.map_append,
    lines_parts hfirst hlast]

theorem codeCount_parts (hfirst : s.first ≤ m) (hlast : m < s.last) (program : List UInt8) :
    (s.upTo m).codeCount program + (s.after m).codeCount program = s.codeCount program := by
  rw [codeCount, codeCount, codeCount, ← List.countP_append, lines_parts hfirst hlast]

theorem dataCount_parts (hfirst : s.first ≤ m) (hlast : m < s.last) (program : List UInt8) :
    (s.upTo m).dataCount program + (s.after m).dataCount program = s.dataCount program := by
  rw [dataCount, dataCount, dataCount, ← List.countP_append, lines_parts hfirst hlast]

theorem pairwise_lines (s : Selection) (program : List UInt8) :
    (s.lines program).Pairwise (·.address < ·.address) :=
  (pairwise_sweep _ _).filter _

section CodeOnly

variable (a b : Nat) (plain : Bool) (program : List UInt8)

/-- Without data, the lines that hold instructions are left. -/
theorem lines_codeOnly :
    lines ⟨a, b, true, plain⟩ program =
      (lines ⟨a, b, false, plain⟩ program).filter Line.isCode := by
  rw [lines, lines, List.filter_filter]
  refine List.filter_congr fun l _ ↦ ?_
  simp [includes, Bool.and_comm]

theorem text_codeOnly :
    text ⟨a, b, true, plain⟩ program =
      String.join (((lines ⟨a, b, false, plain⟩ program).filter Line.isCode).map
        (lineText ⟨a, b, false, plain⟩)) := by
  rw [text, lines_codeOnly]
  rfl

theorem codeCount_codeOnly :
    codeCount ⟨a, b, true, plain⟩ program = codeCount ⟨a, b, false, plain⟩ program := by
  rw [codeCount, codeCount, lines_codeOnly, List.countP_filter]
  simp

theorem dataCount_codeOnly : dataCount ⟨a, b, true, plain⟩ program = 0 := by
  rw [dataCount, lines_codeOnly, List.countP_filter, List.countP_eq_zero]
  simp

end CodeOnly

end Selection

end Listing

namespace ListRequest

/-- The request with these texts for its bounds. -/
def between (r : ListRequest) (first last : String) : ListRequest :=
  { r with first? := some first, last? := some last }

def lineText (r : ListRequest) (l : Listing.Line) : String :=
  (if r.plain then l.content.text else l.text) ++ "\n"

/-- The closing line of a listing. -/
def countLine (code data size : Nat) : LogLine where
  severity := .info
  message :=
    "listed " ++ toString code ++ " instructions and " ++ toString data ++ " data words from " ++
      toString size ++ " bytes"

variable {r : ListRequest} {stdin : Source} {d : Directory} {program : List UInt8}
  {a b : Nat} {first last : String}

theorem run_between (htarget : r.target? = none)
    (hprogram : r.program stdin d = .ok program)
    (hfirst : Listing.parseAddress first = .ok a) (hlast : Listing.parseAddress last = .ok b) :
    let s : Listing.Selection := ⟨a, b, r.codeOnly, r.plain⟩
    (r.between first last).run stdin d =
      ⟨0, s.text program, [countLine (s.codeCount program) (s.dataCount program) program.length],
        d⟩ := by
  intro s
  have hselection : (r.between first last).selection = .ok s := by
    simp only [selection, between, bound, hfirst, hlast]
    rfl
  exact run_of_selection htarget hselection hprogram

/-- Every address can be given as a bound, and a range of addresses can be cut after any of them: what
is printed for the two parts, one after the other, is what is printed for the range, and the counts
of the closing lines add up. Printed are just the lines of the program with an address in the range,
each once and in ascending order. Without data they are the same up to the lines counted as data,
which are left out. -/
theorem listings_of_ranges_join (htarget : r.target? = none)
    (hread : r.input? = none ∧ stdin.readAll = .ok program ∨
      ∃ path source, r.input? = some path ∧ d.openRead path = .ok source ∧
        source.readAll = .ok program) :
    (∀ a < 0x1000, ∃ text, Listing.parseAddress text = .ok a) ∧
      (∀ (a m b : Nat) (first mid next last : String), a ≤ m → m < b →
        Listing.parseAddress first = .ok a → Listing.parseAddress mid = .ok m →
        Listing.parseAddress next = .ok (m + 1) → Listing.parseAddress last = .ok b →
          ∃ text text' code code' data data',
            (r.between first mid).run stdin d =
                ⟨0, text, [countLine code data program.length], d⟩ ∧
              (r.between next last).run stdin d =
                ⟨0, text', [countLine code' data' program.length], d⟩ ∧
              (r.between first last).run stdin d =
                ⟨0, text ++ text', [countLine (code + code') (data + data') program.length], d⟩) ∧
      ∀ (a b : Nat) (first last : String),
        Listing.parseAddress first = .ok a → Listing.parseAddress last = .ok b →
          ∃ ls : List Listing.Line,
            ls.Pairwise (·.address < ·.address) ∧
              (∀ l, l ∈ ls ↔ l ∈ Listing.lines program ∧ a ≤ l.address ∧ l.address ≤ b) ∧
              ({ r with codeOnly := false }.between first last).run stdin d =
                ⟨0, String.join (ls.map r.lineText),
                  [countLine (ls.countP Listing.Line.isCode) (ls.countP (!·.isCode))
                    program.length], d⟩ ∧
              ({ r with codeOnly := true }.between first last).run stdin d =
                ⟨0, String.join ((ls.filter Listing.Line.isCode).map r.lineText),
                  [countLine (ls.countP Listing.Line.isCode) 0 program.length], d⟩ := by
  have hprogram := program_of_readable hread
  refine ⟨?_, ?_, ?_⟩
  · intro a ha
    exact ⟨Hex.text 3 a, Listing.parseAddress_eq_ok.2 (Listing.names_hexText ha 3)⟩
  · intro a m b first mid next last ham hmb hfirst hmid hnext hlast
    let s : Listing.Selection := ⟨a, b, r.codeOnly, r.plain⟩
    refine ⟨(s.upTo m).text program, (s.after m).text program, (s.upTo m).codeCount program,
      (s.after m).codeCount program, (s.upTo m).dataCount program, (s.after m).dataCount program,
      run_between htarget hprogram hfirst hmid, run_between htarget hprogram hnext hlast, ?_⟩
    rw [Listing.Selection.text_parts ham hmb, Listing.Selection.codeCount_parts ham hmb,
      Listing.Selection.dataCount_parts ham hmb]
    exact run_between htarget hprogram hfirst hlast
  · intro a b first last hfirst hlast
    let s : Listing.Selection := ⟨a, b, false, r.plain⟩
    refine ⟨s.lines program, s.pairwise_lines program, ?_, ?_, ?_⟩
    · intro l
      rw [Listing.Selection.lines, List.mem_filter, Listing.Selection.includes_eq_true]
      simp [s]
    · exact run_between (r := { r with codeOnly := false }) htarget hprogram hfirst hlast
    · rw [run_between (r := { r with codeOnly := true }) htarget hprogram hfirst hlast,
        Listing.Selection.text_codeOnly, Listing.Selection.codeCount_codeOnly,
        Listing.Selection.dataCount_codeOnly]
      rfl

/-- The cut lies inside a word, and the last line is the single byte of an odd program. -/
theorem listings_joined_inside_word :
    let r : ListRequest := ⟨1, none, none, false, true, none, none⟩
    let stdin : Source := .ofList [0x00, 0xE0, 0x01, 0x23, 0xAB]
    ∃ text text' code code' data data',
      (r.between "#201" "203").run stdin .empty = ⟨0, text, [countLine code data 5], .empty⟩ ∧
        (r.between "0x204" "+FFf").run stdin .empty =
          ⟨0, text', [countLine code' data' 5], .empty⟩ ∧
        (r.between "#201" "+FFf").run stdin .empty =
          ⟨0, text ++ text', [countLine (code + code') (data + data') 5], .empty⟩ := by
  intro r stdin
  have hread : stdin.readAll = .ok [0x00, 0xE0, 0x01, 0x23, 0xAB] := Source.readAll_ofList _
  obtain ⟨-, hjoin, -⟩ := listings_of_ranges_join (r := r) (d := .empty) rfl (.inl ⟨rfl, hread⟩)
  exact hjoin 0x201 0x203 0xFFF "#201" "203" "0x204" "+FFf" (by decide) (by decide)
    (by decide +kernel) (by decide +kernel) (by decide +kernel) (by decide +kernel)

end ListRequest

end Chip8
