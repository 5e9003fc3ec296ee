import Chip8.Source

/-!
# Reading a source to its end

A source is read piece by piece, and what matters of it is no more than the bytes that it delivers
and how it ends. The sizes of the pieces leave no trace.
-/

namespace Chip8.Source

/-- All that the source delivers before it ends or fails. -/
def bytes : Source → List UInt8
  | .done => []
  | .fail _ => []
  | .deliver [] _ => []
  | .deliver (b :: bs) rest => b :: bs ++ rest.bytes

/-- Why the source fails, unless it ends. -/
def failure? : Source → Option String
  | .done => none
  | .fail reason => some reason
  | .deliver [] _ => none
  | .deliver (_ :: _) rest => rest.failure?

variable {s : Source} {reason : String}

theorem readOnto_of_ends (h : s.failure? = none) (read : Array UInt8) :
    s.readOnto read = .ok (read.toList ++ s.bytes) := by
  induction s generalizing read with
  | done => simp [readOnto, bytes]
  | fail reason => simp [failure?] at h
  | deliver piece rest ih =>
      cases piece with
      | nil => simp [readOnto, bytes]
      | cons b bs => simp [readOnto, bytes, ih h]

theorem readOnto_of_fails (h : s.failure? = some reason) (read : Array UInt8) :
    s.readOnto read = .error ⟨reason⟩ := by
  induction s generalizing read with
  | done => simp [failure?] at h
  | fail reason' =>
      rw [failure?, Option.some.injEq] at h
      rw [readOnto, h]
  | deliver piece rest ih =>
      cases piece with
      | nil => simp [failure?] at h
      | cons b bs => exact ih h _

theorem readAll_of_ends (h : s.failure? = none) : s.readAll = .ok s.bytes := by
  rw [readAll, readOnto_of_ends h, List.nil_append]

/-- Nothing is left of what a source delivered before it failed. -/
theorem readAll_of_fails (h : s.failure? = some reason) : s.readAll = .error ⟨reason⟩ :=
  readOnto_of_fails h #[]

@[simp] theorem readAll_ofList (bytes : List UInt8) : (ofList bytes).readAll = .ok bytes := by
  have hends : (ofList bytes).failure? = none := by
    cases bytes <;> rfl
  rw [readAll_of_ends hends]
  cases bytes with
  | nil => rfl
  | cons b bs => simp [ofList, Source.bytes]

end Chip8.Source
