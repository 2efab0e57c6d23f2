import UnifiedPatch.Decimal
import UnifiedPatch.Hunk
import UnifiedPatch.LineStream

/-!
# Hunk headers

A header line reads `@@ -A,B +C,D` and then anything. Each of the four numbers
is a run of ASCII digits taken as long as it goes; either count may be left out
with its comma, and then stands for one line.

Reading is done in two steps. `runs?` finds the four runs, or finds that the
line is no header; `readHeader` turns the runs into numbers and refuses the
first run longer than `digitLimit`, leading zeros included.
-/

namespace UnifiedPatch

namespace Hunk

/-- The digits of the four numbers of a header; a count may be absent. -/
structure Runs where
  oldStart : Bytes
  oldCount : Option Bytes
  newStart : Bytes
  newCount : Option Bytes
  deriving DecidableEq, Repr

/-- A digit run longer than the limit, with its length. -/
structure OverlongRun where
  digits : Nat
  deriving DecidableEq, Repr

/-- The longest digit run that is read as a number. -/
def digitLimit : Nat := 4300

/-- The longest run of digits at the front, if there is a digit, and
the rest. -/
def digitRun? (s : Bytes) : Option (Bytes × Bytes) :=
  match s.takeWhile Decimal.isDigit with
  | [] => none
  | run => some (run, s.dropWhile Decimal.isDigit)

/-- A comma and a run of digits, if both are there, and the rest. -/
def countRun (s : Bytes) : Option Bytes × Bytes :=
  match Bytes.after? (Bytes.ascii ",") s with
  | none => (none, s)
  | some afterComma =>
      match digitRun? afterComma with
      | none => (none, s)
      | some (run, rest) => (some run, rest)

/-- The digit runs of a header line; `none` if the line is no header. -/
def runs? (line : Line) : Option Runs := do
  let s ← Bytes.after? (Bytes.ascii "@@ -") line
  let (oldStart, s) ← digitRun? s
  let (oldCount, s) := countRun s
  let s ← Bytes.after? (Bytes.ascii " +") s
  let (newStart, s) ← digitRun? s
  let (newCount, _) := countRun s
  return { oldStart, oldCount, newStart, newCount }

/-- The number a run stands for, if the run is not too long. -/
def number (run : Bytes) : Except OverlongRun Nat :=
  if digitLimit < run.length then .error ⟨run.length⟩
  else .ok (Decimal.value run)

/-- The count a run stands for; an absent one stands for a single line. -/
def countNumber : Option Bytes → Except OverlongRun Nat
  | none => .ok 1
  | some run => number run

/-- The hunk that four runs describe. -/
def ofRuns (r : Runs) : Except OverlongRun Hunk := do
  let oldStart ← number r.oldStart
  let oldCount ← countNumber r.oldCount
  let newStart ← number r.newStart
  let newCount ← countNumber r.newCount
  return { old := ⟨oldStart, oldCount⟩, new := ⟨newStart, newCount⟩ }

/-- Reads a line as a hunk header: `none` if it is none, an error if it is one
with a number that is too long. -/
def readHeader (line : Line) : Except OverlongRun (Option Hunk) :=
  match runs? line with
  | none => .ok none
  | some r => (ofRuns r).map some

/-- A line is a header if the four runs are there, whatever their length. -/
def isHeader (line : Line) : Bool := (runs? line).isSome

end Hunk

end UnifiedPatch
