import UnifiedPatch.Marker

/-!
# The names on marker lines, as they are written

A marker line is a marker, a name, and what ends the name: a tab before a time
stamp, or the end of the line. The name is a list of segments with a slash
between each two of them. Both readings are unique. A name holds none of the
bytes that end it, so it is the longest stretch without one (`Bears.name_eq`);
no segment holds a slash, so cutting a name gives back the segments that it was
joined from (`Bytes.splitOn_joinWith`), empty ones included. What the reader of
marker lines computes is therefore the only name there is on a line, its leading
segments dropped (`name?_eq_some_iff`).
-/

namespace UnifiedPatch

namespace Marker

variable {marker full name : Bytes} {level : Int} {line : Line}

/-- A line bears a name: the marker stands in front of it, and behind it the
line ends or one of the bytes that end names comes. -/
def Bears (marker full : Bytes) (line : Line) : Prop :=
  ∃ tail, line = marker ++ full ++ tail ∧ (∀ b ∈ full, endsName b = false) ∧
    ∀ b ∈ tail.head?, endsName b = true

/-- What a name is after stripping: above level 0 as many of its leading
segments are dropped as the level says, but never the last. -/
def Stripped (level : Int) (full name : Bytes) : Prop :=
  ∃ segments : List Bytes, segments ≠ [] ∧
    (∀ segment ∈ segments, Bytes.slash ∉ segment) ∧
    full = Bytes.joinWith Bytes.slash segments ∧
    name = Bytes.joinWith Bytes.slash
      (if 0 < level then segments.drop (min level.toNat (segments.length - 1))
        else segments)

theorem Bears.name_eq (h : Bears marker full line) :
    ∃ rest, Bytes.after? marker line = some rest ∧
      rest.takeWhile (fun b => !endsName b) = full := by
  obtain ⟨tail, rfl, hfull, htail⟩ := h
  refine ⟨full ++ tail, Bytes.after?_eq_some_iff.2 (List.append_assoc ..), ?_⟩
  exact (Bytes.takeWhile_eq_and_dropWhile_eq_iff.2
    ⟨rfl, by simpa using hfull, by simpa using htail⟩).1

/-- Every line with the marker in front bears a name. -/
theorem exists_bears_iff :
    (∃ full, Bears marker full line) ↔ marker <+: line := by
  constructor
  · rintro ⟨full, tail, rfl, -, -⟩
    exact ⟨full ++ tail, (List.append_assoc ..).symm⟩
  · rintro ⟨rest, rfl⟩
    obtain ⟨hrest, hname, htail⟩ := Bytes.takeWhile_eq_and_dropWhile_eq_iff
      (p := fun b => !endsName b) (s := rest).1 ⟨rfl, rfl⟩
    refine ⟨_, _, ?_, by simpa using hname, by simpa using htail⟩
    rw [List.append_assoc, ← hrest]

theorem stripped_iff :
    Stripped level full name ↔ name = Bytes.joinWith Bytes.slash
    (dropSegments level (Bytes.splitOn Bytes.slash full)) := by
  have hdrop : ∀ segments : List Bytes, dropSegments level segments =
      if 0 < level then segments.drop (min level.toNat (segments.length - 1))
      else segments := by
    intro segments
    split
    · rfl
    · next h => exact dropSegments_of_nonpos (Int.not_lt.1 h) segments
  constructor
  · rintro ⟨segments, hne, hsegments, rfl, rfl⟩
    rw [Bytes.splitOn_joinWith hne hsegments, hdrop]
  · rintro rfl
    exact ⟨_, Bytes.splitOn_ne_nil _ _,
      fun segment h => Bytes.sep_not_mem_of_mem_splitOn h,
      (Bytes.joinWith_splitOn _ _).symm, by rw [hdrop]⟩

/-- What is read off a line is the name that it bears, stripped. -/
theorem name?_eq_some_iff :
    name? marker level line = some name ↔
      ∃ full, Bears marker full line ∧ Stripped level full name := by
  simp only [name?, Option.map_eq_some_iff, stripped_iff]
  constructor
  · rintro ⟨rest, hrest, rfl⟩
    obtain ⟨full, hfull⟩ := exists_bears_iff.2
      (Bytes.isSome_after?_iff.1 (Option.isSome_iff_exists.2 ⟨rest, hrest⟩))
    obtain ⟨rest', hrest', hname⟩ := hfull.name_eq
    obtain rfl := Option.some.inj (hrest.symm.trans hrest')
    exact ⟨full, hfull, by rw [hname]⟩
  · rintro ⟨full, hfull, rfl⟩
    obtain ⟨rest, hrest, hname⟩ := hfull.name_eq
    exact ⟨rest, hrest, by rw [hname]⟩

theorem name?_eq_none_iff :
    name? marker level line = none ↔ ¬ marker <+: line := by
  rw [name?, Option.map_eq_none_iff, Bytes.after?_eq_none_iff]

/-- At level 0 a name is read whole. -/
theorem name?_zero_eq_some_iff :
    name? marker 0 line = some name ↔ Bears marker name line := by
  have hzero : ∀ full, Stripped 0 full name ↔ full = name := by
    intro full
    rw [stripped_iff, dropSegments_of_nonpos (Int.le_refl 0),
      Bytes.joinWith_splitOn, eq_comm]
  simp [name?_eq_some_iff, hzero]

end Marker

end UnifiedPatch
