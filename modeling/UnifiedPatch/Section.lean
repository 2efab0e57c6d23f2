import UnifiedPatch.Failure
import UnifiedPatch.LineStream
import UnifiedPatch.Marker

/-!
# File sections

A patch is a list of file sections with anything between them. A section
starts with an old-file marker line and a new-file marker line directly after
it. Lines before the old-file marker are passed over; an old-file marker that
no new-file marker follows is a fault of the patch.

The section is about the new file, unless that is the null device: a deletion
is about the old file.
-/

namespace UnifiedPatch

namespace Section

/-- The next line that starts with the old-file marker, and the stream after
it; without such a line the stream is used up. -/
def seekOld (s : LineStream) : Option Line × LineStream :=
  match _h : s.next? with
  | none => (none, s)
  | some (line, rest) =>
      if (Bytes.after? Marker.old line).isSome then (some line, rest)
      else seekOld rest
termination_by s.ready.length
decreasing_by
  have := LineStream.length_ready_of_next? _h
  omega

/-- The name that a section with these two marker lines is about; `none` if the
second is no new-file marker line. -/
def name? (level : Int) (oldLine newLine : Line) : Option Bytes :=
  (Marker.name? Marker.new level newLine).map fun newName =>
    if Marker.name? Marker.new 0 newLine = some Marker.devNull then
      (Marker.name? Marker.old level oldLine).getD newName
    else newName

/-- Reads up to the end of the next pair of marker lines: the name of the
section, or `none` if there is no further section. -/
def next (level : Int) (s : LineStream) :
    Except FatalError (Option Bytes) × LineStream :=
  match seekOld s with
  | (none, rest) => (.ok none, rest)
  | (some oldLine, rest) =>
      match rest.next? with
      | none => (.error (.invalidPatch .endAfterOldMarker none), rest)
      | some (newLine, rest) =>
          match name? level oldLine newLine with
          | none => (.error (.invalidPatch .unspecified (some newLine)), rest)
          | some name => (.ok (some name), rest)

/-- The names of all pairs of marker lines, those inside of hunks included: no
run opens a target of another name. -/
def mentioned (level : Int) (lines : List Line) : List Bytes :=
  (lines.zip lines.tail).filterMap fun (oldLine, newLine) =>
    if (Bytes.after? Marker.old oldLine).isSome then name? level oldLine newLine
    else none

/-! ## A search for a section uses lines up -/

theorem length_seekOld_le (s : LineStream) :
    (seekOld s).2.ready.length ≤ s.ready.length := by
  fun_induction seekOld s with
  | case1 => simp
  | case2 s line rest h _ =>
      have := LineStream.length_ready_of_next? h
      simp only
      omega
  | case3 s line rest h _ ih =>
      have := LineStream.length_ready_of_next? h
      omega

/-- A section that was found took two lines. -/
theorem length_next_lt {level : Int} {s rest : LineStream} {name : Bytes}
    (h : next level s = (.ok (some name), rest)) :
    rest.ready.length < s.ready.length := by
  have hs := length_seekOld_le s
  unfold next at h
  split at h
  · simp at h
  · next line mid hm =>
      rw [hm] at hs
      split at h
      · simp at h
      · next newLine last hl =>
          have := LineStream.length_ready_of_next? hl
          split at h
          · simp at h
          · simp only [Prod.mk.injEq] at h
            obtain ⟨-, rfl⟩ := h
            simp only at hs
            omega

end Section

end UnifiedPatch
