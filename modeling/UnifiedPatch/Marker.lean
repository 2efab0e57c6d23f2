import UnifiedPatch.LineStream

/-!
# Marker lines and the names on them

A file section starts with two marker lines, `--- name` for the old file and
`+++ name` for the new one. The name ends at the first tab (a time stamp may
follow it), carriage return or newline. Its leading segments are dropped as
many times as asked for, but its last segment always stays, so that stripping
more than there is leaves the plain file name.
-/

namespace UnifiedPatch

namespace Marker

/-- The marker of the old file. -/
def old : Bytes := Bytes.ascii "--- "

/-- The marker of the new file. -/
def new : Bytes := Bytes.ascii "+++ "

/-- The name that stands for no file. -/
def devNull : Bytes := Bytes.ascii "/dev/null"

/-- The bytes that end a name: tab, newline, carriage return. -/
def endsName (b : UInt8) : Bool := b == 9 || b == 10 || b == 13

/-- Drops up to `level` leading segments, never the last one. -/
def dropSegments (level : Int) (segments : List Bytes) : List Bytes :=
  segments.drop (min level.toNat (segments.length - 1))

/-- The name after a marker, its leading segments dropped; `none` if the line
does not start with the marker. -/
def name? (marker : Bytes) (level : Int) (line : Line) : Option Bytes :=
  (Bytes.after? marker line).map fun rest =>
    let name := rest.takeWhile fun b => !endsName b
    Bytes.joinWith Bytes.slash
      (dropSegments level (Bytes.splitOn Bytes.slash name))

theorem dropSegments_of_nonpos {level : Int} (h : level ≤ 0)
    (segments : List Bytes) :
    dropSegments level segments = segments := by
  simp [dropSegments, Int.toNat_of_nonpos h]

/-- The last segment stays, whatever the level. -/
theorem getLast?_dropSegments (level : Int) (segments : List Bytes) :
    (dropSegments level segments).getLast? = segments.getLast? := by
  cases segments with
  | nil => simp [dropSegments]
  | cons first more =>
      rw [dropSegments, List.getLast?_drop, if_neg]
      simp only [List.length_cons]
      omega

end Marker

end UnifiedPatch
