import Chip8.Proofs.Screen.Toggle

/-!
# The text of a screen

The text has a line for each row of pixels and a character for each pixel, so its offsets are the
pixels themselves, with a newline after each row. Nothing of the screen is lost in it: screens with
the same text, with the same columns and with the same pixels are the same screen.
-/

namespace Chip8

/-- A place in rows of one length that are joined without anything between them. -/
theorem getElem?_flatten_of_length_eq {α : Type} {rows : List (List α)} {row : List α} {n x y : Nat}
    (h : ∀ row ∈ rows, row.length = n) (hrow : rows[y]? = some row) (hx : x < n) :
    rows.flatten[n * y + x]? = row[x]? := by
  induction rows generalizing y with
  | nil => cases hrow
  | cons first rows ih =>
      obtain ⟨hfirst, hrest⟩ := List.forall_mem_cons.1 h
      rw [List.flatten_cons]
      cases y with
      | zero =>
          obtain rfl : first = row := Option.some.inj hrow
          rw [Nat.mul_zero, Nat.zero_add, List.getElem?_append_left (by omega)]
      | succ y =>
          have hplace : n * (y + 1) + x - first.length = n * y + x := by
            rw [hfirst, Nat.mul_succ]
            omega
          have hpast : first.length ≤ n * (y + 1) + x := by
            rw [hfirst, Nat.mul_succ]
            omega
          rw [List.getElem?_append_right hpast, hplace]
          exact ih hrest hrow

namespace Screen

/-- Compares two screens column by column. -/
def sameColumns (s t : Screen) : Bool :=
  (List.range width).all fun x ↦ s.column x == t.column x

/-- The lines of the text, without the newlines. -/
def textLines (s : Screen) : List (List Char) :=
  (List.range height).map s.rowText

variable {s t : Screen}

theorem pixel_mod_width (s : Screen) (x y : Nat) : s.pixel (x % width) y = s.pixel x y :=
  pixel_congr (index_eq_iff.2 ⟨Nat.mod_mod x 64, rfl⟩)

theorem pixel_mod_height (s : Screen) (x y : Nat) : s.pixel x (y % height) = s.pixel x y :=
  pixel_congr (index_eq_iff.2 ⟨rfl, Nat.mod_mod y 32⟩)

theorem mod_width_lt (x : Nat) : x % width < width :=
  Nat.mod_lt x (by decide)

theorem mod_height_lt (y : Nat) : y % height < height :=
  Nat.mod_lt y (by decide)

/-! ### The characters of the text -/

theorem toList_text (s : Screen) :
    s.text.toList = (s.textLines.map (· ++ ['\n'])).flatten := by
  rw [text, String.toList_ofList, chars, textLines, List.map_map, List.flatMap_def]
  rfl

theorem length_rowText (s : Screen) (y : Nat) : (s.rowText y).length = width := by
  rw [rowText, List.length_map, List.length_range]

theorem mem_rowText {c : Char} {y : Nat} :
    c ∈ s.rowText y ↔ ∃ x < width, (if s.pixel x y then '#' else '.') = c := by
  simp only [rowText, List.mem_map, List.mem_range]

theorem shape_of_mem_textLines {line : List Char} (h : line ∈ s.textLines) :
    line.length = width ∧ '\n' ∉ line := by
  obtain ⟨y, -, rfl⟩ := List.mem_map.1 h
  refine ⟨s.length_rowText y, fun hmem ↦ ?_⟩
  obtain ⟨x, -, hx⟩ := mem_rowText.1 hmem
  split at hx
  · exact absurd hx (by decide)
  · exact absurd hx (by decide)

theorem getElem?_text (s : Screen) (x y : Nat) :
    s.text.toList[(width + 1) * (y % height) + x % width]? =
      some (if s.pixel x y then '#' else '.') := by
  have hlength : ∀ row ∈ s.textLines.map (· ++ ['\n']), row.length = width + 1 := by
    intro row hrow
    obtain ⟨line, hline, rfl⟩ := List.mem_map.1 hrow
    rw [List.length_append, (shape_of_mem_textLines hline).1]
    rfl
  have hrow : (s.textLines.map (· ++ ['\n']))[y % height]? =
      some (s.rowText (y % height) ++ ['\n']) := by
    rw [List.getElem?_map, textLines, List.getElem?_map, List.getElem?_range (mod_height_lt y)]
    rfl
  rw [toList_text, getElem?_flatten_of_length_eq hlength hrow (Nat.lt_succ_of_lt (mod_width_lt x)),
    List.getElem?_append_left (by simpa [length_rowText] using mod_width_lt x), rowText,
    List.getElem?_map, List.getElem?_range (mod_width_lt x), Option.map_some, pixel_mod_width,
    pixel_mod_height]

theorem eq_iff_pixel : s = t ↔ ∀ x y, s.pixel x y = t.pixel x y := by
  refine ⟨?_, ext_pixel⟩
  rintro rfl x y
  rfl

theorem text_eq_iff_pixel : s.text = t.text ↔ ∀ x y, s.pixel x y = t.pixel x y := by
  constructor
  · intro h x y
    have hchar := s.getElem?_text x y
    rw [h, getElem?_text, Option.some.injEq] at hchar
    revert hchar
    cases s.pixel x y <;> cases t.pixel x y <;> decide
  · intro h
    rw [eq_iff_pixel.2 h]

theorem column_eq_iff {x : Nat} :
    s.column x = t.column x ↔ ∀ y, s.pixel x y = t.pixel x y := by
  rw [column, column, List.map_inj_left]
  constructor
  · intro h y
    rw [← pixel_mod_height, h _ (List.mem_range.2 (mod_height_lt y)), pixel_mod_height]
  · intro h y _
    exact h y

theorem sameColumns_eq_true : s.sameColumns t = true ↔ ∀ x y, s.pixel x y = t.pixel x y := by
  simp only [sameColumns, List.all_eq_true, beq_iff_eq, column_eq_iff]
  constructor
  · intro h x y
    rw [← pixel_mod_width, h _ (List.mem_range.2 (mod_width_lt x)), pixel_mod_width]
  · intro h x _
    exact h x

theorem isBlank_eq_true : s.isBlank = true ↔ ∀ x y, s.pixel x y = false := by
  have hblank : s.isBlank = true ↔ s = blank := by
    rw [isBlank, Vector.all_eq_true, Screen.ext_iff, Vector.ext_iff]
    simp [blank]
  rw [hblank, eq_iff_pixel]
  simp only [pixel_blank]

theorem lit_mem_text : '#' ∈ s.text.toList ↔ ∃ x y, s.pixel x y = true := by
  constructor
  · intro h
    rw [toList_text, List.mem_flatten] at h
    obtain ⟨row, hrow, h⟩ := h
    obtain ⟨line, hline, rfl⟩ := List.mem_map.1 hrow
    obtain ⟨y, -, rfl⟩ := List.mem_map.1 hline
    have hmem : '#' ∈ s.rowText y := by
      simpa using h
    obtain ⟨x, -, hx⟩ := mem_rowText.1 hmem
    refine ⟨x, y, ?_⟩
    by_contra hdark
    rw [if_neg hdark] at hx
    exact absurd hx (by decide)
  · rintro ⟨x, y, h⟩
    have hchar := s.getElem?_text x y
    rw [if_pos h] at hchar
    exact List.mem_of_getElem? hchar

/-- The text of a screen is a picture of it: 32 lines of 64 characters, each with a newline after
it, where the character at the offset of a pixel says whether it is lit. Two screens are equal,
compared as a whole or column by column, if and only if their texts are, and if and only if they
agree in every pixel. A screen is blank if and only if no character says that a pixel is lit. -/
theorem text_is_picture (s : Screen) :
    (∃ lines : List (List Char), lines.length = 32 ∧
      (∀ line ∈ lines, line.length = 64 ∧ '\n' ∉ line) ∧
        s.text.toList = (lines.map (· ++ ['\n'])).flatten) ∧
      (∀ x y, s.text.toList[65 * (y % 32) + x % 64]? = some (if s.pixel x y then '#' else '.')) ∧
      (∀ t : Screen, ((s == t) = true ↔ s.text = t.text) ∧
        (s.sameColumns t = true ↔ s.text = t.text) ∧
          (s.text = t.text ↔ ∀ x y, s.pixel x y = t.pixel x y)) ∧
      (s.isBlank = true ↔ '#' ∉ s.text.toList) := by
  refine ⟨⟨s.textLines, ?_, fun line ↦ shape_of_mem_textLines, s.toList_text⟩, s.getElem?_text,
    ?_, ?_⟩
  · rw [textLines, List.length_map, List.length_range, height]
  · intro t
    rw [beq_iff_eq, eq_iff_pixel, sameColumns_eq_true, text_eq_iff_pixel]
    exact ⟨Iff.rfl, Iff.rfl, Iff.rfl⟩
  · rw [isBlank_eq_true, lit_mem_text]
    simp

end Screen

end Chip8
