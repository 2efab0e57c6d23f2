/-!
# Hunks

A hunk says which range of the old file becomes which range of the new one. A
range names its first line, counted from one, and how many lines it has.
Applied backwards a hunk is the hunk with its two ranges exchanged.
-/

namespace UnifiedPatch

/-- A range of lines: the number of the first, counted from one, and
how many. -/
structure Range where
  start : Nat
  count : Nat
  deriving DecidableEq, Repr

/-- The range a hunk takes from the old file and the one it makes in the new. -/
structure Hunk where
  old : Range
  new : Range
  deriving DecidableEq, Repr

namespace Hunk

/-- The same hunk seen from the new file. -/
def swap (h : Hunk) : Hunk := { old := h.new, new := h.old }

@[simp] theorem swap_swap (h : Hunk) : h.swap.swap = h := rfl

/-- A start of zero on either side says that the file is created or deleted as
a whole, so that no line stands before the hunk. -/
def wholeFile (h : Hunk) : Bool := h.old.start == 0 || h.new.start == 0

end Hunk

end UnifiedPatch
