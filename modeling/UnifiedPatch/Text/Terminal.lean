import UnifiedPatch.Bytes

/-!
# Terminal control sequences

A control sequence is an escape byte, an opening bracket, any number of digits,
semicolons and question marks, and one letter. Text that does not go to a
terminal is freed of them in one pass from the left: what stands on both sides
of a sequence may form another one, and that one stays.
-/

namespace UnifiedPatch

namespace Text

/-- A byte between the bracket and the letter of a control sequence. -/
def isParameter (b : UInt8) : Bool := b == 59 || b == 63 || (48 ≤ b && b ≤ 57)

/-- An ASCII letter. -/
def isLetter (b : UInt8) : Bool := (65 ≤ b && b ≤ 90) || (97 ≤ b && b ≤ 122)

/-- What follows a control sequence whose escape byte has been read, if there
is one. -/
def afterControl? : Bytes → Option Bytes
  | 91 :: s =>
      match s.dropWhile isParameter with
      | b :: rest => if isLetter b then some rest else none
      | [] => none
  | _ => none

theorem length_le_of_afterControl? {s rest : Bytes}
    (h : afterControl? s = some rest) :
    rest.length ≤ s.length := by
  unfold afterControl? at h
  split at h
  · next s =>
      split at h
      · next hd =>
          split at h
          · injection h with h
            subst h
            have := (List.dropWhile_suffix (l := s) isParameter).length_le
            rw [hd] at this
            simp only [List.length_cons] at this ⊢
            omega
          · simp at h
      · simp at h
  · simp at h

/-- The text without its control sequences. -/
def stripControls : Bytes → Bytes
  | [] => []
  | b :: s =>
      if b = 27 then
        match _h : afterControl? s with
        | some rest => stripControls rest
        | none => b :: stripControls s
      else b :: stripControls s
termination_by s => s.length
decreasing_by
  · have := length_le_of_afterControl? _h
    simp only [List.length_cons]
    omega
  · simp
  · simp

end Text

end UnifiedPatch
