import Chip8.Proofs.Stack.Invariant
import Mathlib.Data.List.Infix

/-!
# Calls come back

A return address that is not the last one to fit on the stack stays where it is until the return
that belongs to it, whatever happens above it. The last one to fit is overwritten by every call that
overflows the stack.
-/

namespace Chip8

namespace State

/-- The place of the call, if the action is a call that meets a full stack. -/
def overflow? (s : State) (a : Action) : Option Word :=
  match s.performed? a with
  | some (.call _) => if s.frames.length < stackDepth then none else some s.pc
  | _ => none

/-- The places of the calls of a history that meet a full stack. -/
def overflows (s : State) : List Action → List Word
  | [] => []
  | a :: history => (s.overflow? a).toList ++ (s.apply a).overflows history

/-- What becomes of the innermost return address of a full stack when the calls at some places
overflow it. -/
def overwritten (frame : Word) (places : List Word) : Word :=
  match places.getLast? with
  | some place => place + 2
  | none => frame

theorem overwritten_append (frame : Word) (places later : List Word) :
    overwritten frame (places ++ later) = overwritten (overwritten frame places) later := by
  unfold overwritten
  rw [List.getLast?_append]
  cases later.getLast? with
  | none => rfl
  | some place => rfl

variable {s : State} {a : Action} {frame : Word} {outer : List Word}

/-- Below the last place of the stack, a return address is safe from every action that does not
bring the depth back to where it was before the call. -/
theorem suffix_frames_apply (hsuffix : frame :: outer <:+ s.frames) (hroom : outer.length < 15)
    (ha : a ≠ .reset) (hdepth : (s.apply a).frames.length ≠ outer.length) :
    frame :: outer <:+ (s.apply a).frames := by
  rw [frames_apply] at hdepth ⊢
  obtain ⟨-, hm⟩ | ⟨-, -, -, hm⟩ | ⟨-, -, hfull, hm⟩ | ⟨-, -, hm⟩ := s.stackMove_cases ha
  · rw [hm]
    exact hsuffix
  · rw [hm]
    exact hsuffix.trans (List.suffix_cons _ _)
  · rw [hm]
    cases hs : s.frames with
    | nil => simp [hs, stackDepth] at hfull
    | cons top rest =>
        rw [hs] at hsuffix hfull
        obtain heq | hrest := List.suffix_cons_iff.1 hsuffix
        · rw [← heq] at hfull
          simp only [List.length_cons, stackDepth] at hfull
          omega
        · exact hrest.trans (List.suffix_cons _ _)
  · rw [hm] at hdepth ⊢
    cases hs : s.frames with
    | nil => simp [hs] at hsuffix
    | cons top rest =>
        rw [hs] at hsuffix hdepth
        obtain heq | hrest := List.suffix_cons_iff.1 hsuffix
        · cases heq
          exact absurd rfl hdepth
        · exact hrest

theorem suffix_frames_run (hsuffix : frame :: outer <:+ s.frames) (hroom : outer.length < 15)
    {history : List Action} (hreset : .reset ∉ history)
    (hdepth : ∀ p, p <+: history → (s.run p).frames.length ≠ outer.length) :
    frame :: outer <:+ (s.run history).frames := by
  induction history generalizing s with
  | nil => exact hsuffix
  | cons a history ih =>
      rw [List.mem_cons, not_or] at hreset
      apply ih
      · exact suffix_frames_apply hsuffix hroom (Ne.symm hreset.1) (hdepth [a] (by simp))
      · exact hreset.2
      · intro p hp
        exact hdepth (a :: p) (List.cons_prefix_cons.2 ⟨rfl, hp⟩)

/-- On a full stack only calls can happen that overflow it, and they overwrite the innermost return
address. -/
theorem frames_apply_of_full (hframes : s.frames = frame :: outer) (hfull : outer.length = 15)
    (ha : a ≠ .reset) (hdepth : (s.apply a).frames.length ≠ outer.length) :
    (s.apply a).frames = overwritten frame (s.overflow? a).toList :: outer := by
  rw [frames_apply] at hdepth ⊢
  obtain ⟨hcall, hm⟩ | ⟨_, -, hroom, -⟩ | ⟨target, hcall, hfull', hm⟩ | ⟨-, -, hm⟩ :=
    s.stackMove_cases ha
  · have hnone : s.overflow? a = none := by
      unfold overflow?
      split
      · next target h => exact absurd h (hcall target)
      · rfl
    rw [hm, hnone]
    exact hframes
  · rw [hframes, List.length_cons, hfull] at hroom
    exact absurd hroom (by decide)
  · have hsome : s.overflow? a = some s.pc := by
      rw [overflow?, hcall]
      exact if_neg (Nat.not_lt.2 hfull')
    rw [hm, hsome, hframes]
    rfl
  · rw [hm, hframes] at hdepth
    exact absurd rfl hdepth

theorem frames_run_of_full (hframes : s.frames = frame :: outer) (hfull : outer.length = 15)
    {history : List Action} (hreset : .reset ∉ history)
    (hdepth : ∀ p, p <+: history → (s.run p).frames.length ≠ outer.length) :
    (s.run history).frames = overwritten frame (s.overflows history) :: outer := by
  induction history generalizing s frame with
  | nil => exact hframes
  | cons a history ih =>
      rw [List.mem_cons, not_or] at hreset
      rw [overflows, overwritten_append]
      apply ih
      · exact frames_apply_of_full hframes hfull (Ne.symm hreset.1) (hdepth [a] (by simp))
      · exact hreset.2
      · intro p hp
        exact hdepth (a :: p) (List.cons_prefix_cons.2 ⟨rfl, hp⟩)

/-- The action that brings the depth back is a return, and it goes to the address that the depth
was reached with. -/
theorem performed?_of_depth_back (hsuffix : frame :: outer <:+ s.frames) (ha : a ≠ .reset)
    (hback : (s.apply a).frames.length = outer.length) :
    s.performed? a = some .ret ∧ s.frames = frame :: outer := by
  have hlength := hsuffix.length_le
  rw [List.length_cons] at hlength
  rw [frames_apply] at hback
  obtain ⟨-, hm⟩ | ⟨-, -, -, hm⟩ | ⟨-, -, -, hm⟩ | ⟨hret, -, hm⟩ := s.stackMove_cases ha
  · rw [hm, StackMove.apply] at hback
    omega
  · rw [hm, StackMove.apply, List.length_cons] at hback
    omega
  · rw [hm, StackMove.apply, List.length_cons, List.length_tail] at hback
    omega
  · refine ⟨hret, (hsuffix.eq_of_length_le ?_).symm⟩
    rw [hm, StackMove.apply, List.length_tail] at hback
    rw [List.length_cons]
    omega

theorem frames_apply_of_call {target : Address} (hcall : s.performed? a = some (.call target))
    (hroom : s.frames.length ≤ 15) : (s.apply a).frames = (s.pc + 2) :: s.frames := by
  have hlt : s.frames.length < stackDepth := Nat.lt_succ_of_le hroom
  rw [frames_apply, stackMove_of_performed? hcall, instructionMove, if_pos hlt]
  rfl

/-- The return address that a call leaves on the stack is there, above the older ones, for as long
as the depth is not back to what it was, and only the last one to fit can have been overwritten. -/
theorem suffix_frames_of_call {call : Action} {target : Address} {between : List Action}
    (hcall : s.performed? call = some (.call target)) (hroom : s.frames.length ≤ 15)
    (hreset : .reset ∉ between)
    (hdepth : ∀ p, p <+: between → ((s.apply call).run p).frames.length ≠ s.frames.length) :
    (if s.frames.length = 15 then overwritten (s.pc + 2) ((s.apply call).overflows between)
      else s.pc + 2) :: s.frames <:+ ((s.apply call).run between).frames := by
  have hframes := frames_apply_of_call hcall hroom
  split
  · next hfull =>
    rw [frames_run_of_full hframes hfull hreset hdepth]
  · next hlast =>
    have hsuffix : (s.pc + 2) :: s.frames <:+ (s.apply call).frames := by
      rw [hframes]
    exact suffix_frames_run hsuffix (Nat.lt_of_le_of_ne hroom hlast) hreset hdepth

/-- Every call comes back to its caller. The first action after a call that brings the depth of the
stack back to what it was is a return. It leaves the stack pointer and the return addresses as they
were and goes on after the call, no matter what calls overflow the stack in between. Only if the
call took the last place of the stack does it go on after the last of those instead. -/
theorem call_returns_to_caller {s : State} {call back : Action} {target : Address}
    {between : List Action} (hcall : s.performed? call = some (.call target))
    (hroom : s.frames.length ≤ 15) (hreset : .reset ∉ between ++ [back])
    (hfirst : ∀ p, p <+: between → ((s.apply call).run p).frames.length ≠ s.frames.length)
    (hback : (((s.apply call).run between).apply back).frames.length = s.frames.length) :
    let t := (s.apply call).run between
    t.performed? back = some .ret ∧ (t.apply back).sp.toNat = s.frames.length ∧
      (t.apply back).frames = s.frames ∧
      (s.frames.length ≤ 14 ∨ (s.apply call).overflows between = [] →
        (t.apply back).pc = s.pc + 2) ∧
      (s.frames.length = 15 →
        ∀ place, ((s.apply call).overflows between).getLast? = some place →
          (t.apply back).pc = place + 2) := by
  intro t
  rw [List.mem_append, not_or, List.mem_singleton] at hreset
  have hsuffix := suffix_frames_of_call hcall hroom hreset.1 hfirst
  obtain ⟨hret, hframes⟩ := performed?_of_depth_back hsuffix (Ne.symm hreset.2) hback
  have happly := apply_of_performed?_ret hret hframes
  refine ⟨hret, ?_, ?_, ?_, ?_⟩
  · rw [happly]
    exact (toNat_pointer _).trans (Nat.min_eq_left hroom)
  · rw [happly]
  · intro h
    rw [happly]
    obtain hdeep | hnone := h
    · exact if_neg (Nat.ne_of_lt (Nat.lt_succ_of_le hdeep))
    · rw [hnone]
      exact ite_self _
  · intro hfull place hplace
    rw [happly]
    refine (if_pos hfull).trans ?_
    rw [overwritten, hplace]

/-- The call at `0x200` takes the last place of the stack, the one at `0x204` overflows it, and the
return at `0x208` goes on after the latter. -/
theorem call_returns_after_overflow :
    let s : State :=
      { initial .fixed with
        memory := (⟨.replicate 0x1000 0⟩ : Memory).writeList 0x200
          [0x22, 0x04, 0x00, 0x00, 0x22, 0x08, 0x00, 0x00, 0x00, 0xEE]
        frames := List.replicate 15 0x300 }
    let t := (s.apply .step).run [.step]
    s.performed? .step = some (.call 0x204) ∧ t.performed? .step = some .ret ∧
      (t.apply .step).frames = s.frames ∧ (t.apply .step).pc = 0x204 + 2 := by
  intro s t
  have hcall : s.performed? .step = some (.call 0x204) := by decide +kernel
  have hfirst : ∀ p, p <+: [.step] → ((s.apply .step).run p).frames.length ≠ s.frames.length := by
    simp only [← List.mem_inits]
    decide +kernel
  have h := @call_returns_to_caller s .step .step 0x204 [.step] hcall (by decide) (by decide) hfirst
    (by decide +kernel)
  exact ⟨hcall, h.1, h.2.2.1, h.2.2.2.2 (by decide) 0x204 (by decide +kernel)⟩

end State

end Chip8
