import UnifiedPatch.Proofs.HunkText
import UnifiedPatch.Section

/-!
# Patches as they are written

A patch of many sections is the other side of a run as a hunk is the other side
of a splice. A `CountedHunk` is a hunk by its lines alone: the four digit runs
of a header and body lines that are as many as the digits say. It asks for less
than a `WrittenHunk` does. The digits may be too many to be read, in which case
the work stops at the header, and the last line of all may lack its newline.
Nothing else about a hunk matters to the statements about whole patches, since
the machine tells where a body ends by counting and by nothing else.

A `WrittenSection` is a pair of marker lines, the hunks under it, and notes:
lines that no search for a section stops at. The first note comes where the next
hunk would, so it must not look like one. A `WrittenPatch` is a list of sections
with notes before the first.
-/

namespace UnifiedPatch

/-! ## Body lines in the two directions -/

/-- A body line seen from the other file. -/
def BodyLine.facing (reverse : Bool) (b : BodyLine) : BodyLine :=
  { b with role := b.role.facing reverse }

theorem Role.ofMarker?_eq_map (reverse : Bool) (marker : UInt8) :
    ofMarker? reverse marker =
      (ofMarker? false marker).map (Role.facing reverse) := by
  unfold ofMarker? deletionMarker insertionMarker
  cases reverse with
  | false =>
      simp only [Bool.false_eq_true, if_false]
      split
      · rfl
      · split
        · rfl
        · split <;> rfl
  | true =>
      simp only [Bool.false_eq_true, if_true, if_false]
      split
      · rfl
      · by_cases h : marker = 45
        · subst h; rfl
        · by_cases h' : marker = 43
          · subst h'; rfl
          · simp [h, h']

theorem BodyLine.ofLine?_eq_map (reverse : Bool) (line : Line) :
    ofLine? reverse line =
      (ofLine? false line).map (BodyLine.facing reverse) := by
  unfold ofLine?
  split
  · rfl
  · rw [Role.ofMarker?_eq_map, Option.map_map, Option.map_map]
    rfl

theorem BodyLine.isSome_ofLine? (reverse : Bool) (line : Line) :
    (ofLine? reverse line).isSome = (ofLine? false line).isSome := by
  rw [ofLine?_eq_map, Option.isSome_map]

theorem sourceSide_map_facing (reverse : Bool) (body : List BodyLine) :
    sourceSide (body.map (BodyLine.facing reverse)) =
      if reverse then resultSide body else sourceSide body := by
  simp only [sourceSide, resultSide, List.filter_map, List.map_map]
  cases reverse <;>
    simp [Function.comp_def, BodyLine.facing, Role.inSource_facing]

theorem resultSide_map_facing (reverse : Bool) (body : List BodyLine) :
    resultSide (body.map (BodyLine.facing reverse)) =
      if reverse then sourceSide body else resultSide body := by
  simp only [sourceSide, resultSide, List.filter_map, List.map_map]
  cases reverse <;>
    simp [Function.comp_def, BodyLine.facing, Role.inResult_facing]

/-! ## Headers by their digits -/

namespace Hunk

/-- The hunk that four digit runs stand for, however long they are. -/
def ofDigits (r : Runs) : Hunk :=
  { old := ⟨Decimal.value r.oldStart, (r.oldCount.map Decimal.value).getD 1⟩
    new := ⟨Decimal.value r.newStart, (r.newCount.map Decimal.value).getD 1⟩ }

/-- The runs that are there, in order. -/
def Runs.all (r : Runs) : List Bytes :=
  r.oldStart :: (r.oldCount.toList ++ r.newStart :: r.newCount.toList)

/-- The first run that is longer than the limit. -/
def Runs.overlong? (r : Runs) : Option Bytes :=
  r.all.find? fun run => decide (digitLimit < run.length)

theorem number_cases (run : Bytes) :
    number run = .ok (Decimal.value run) ∨
    number run = .error ⟨run.length⟩ := by
  unfold number
  split
  · exact .inr rfl
  · exact .inl rfl

theorem number_bind {α : Type} (run : Bytes) (f : Nat → Except OverlongRun α) :
    number run >>= f = number run >>= fun _ => f (Decimal.value run) := by
  rcases number_cases run with h | h <;> rw [h] <;> rfl

theorem countNumber_bind {α : Type} (count : Option Bytes)
    (f : Nat → Except OverlongRun α) :
    countNumber count >>= f =
      count.toList.mapM number >>= fun _ =>
        f ((count.map Decimal.value).getD 1) := by
  cases count with
  | none => rfl
  | some run =>
      rcases number_cases run with h | h <;> simp [countNumber, h] <;> rfl

/-- The runs are read one after another, and all of them before there is
a hunk. -/
theorem ofRuns_eq_mapM (r : Runs) :
    ofRuns r = r.all.mapM number >>= fun _ => .ok (ofDigits r) := by
  simp only [ofRuns, Runs.all, List.mapM_cons, List.mapM_append,
    number_bind r.oldStart, number_bind r.newStart, countNumber_bind,
    bind_assoc, pure_bind]
  rfl

theorem mapM_number (runs : List Bytes) : runs.mapM number =
    match runs.find? fun run => decide (digitLimit < run.length) with
    | none => .ok (runs.map Decimal.value)
    | some run => .error ⟨run.length⟩ := by
  induction runs with
  | nil => rfl
  | cons run runs ih =>
      rw [List.mapM_cons, ih]
      by_cases h : digitLimit < run.length
      · rw [List.find?_cons_of_pos (by simpa using h), number, if_pos h]
        rfl
      · rw [List.find?_cons_of_neg (by simpa using h), number, if_neg h]
        cases List.find? _ runs <;> rfl

/-- A header is read as its digits say, or refused for the first run that is
too long. -/
theorem readHeader_of_runs {line : Line} {r : Runs} (h : runs? line = some r) :
    readHeader line =
      match r.overlong? with
      | none => .ok (some (ofDigits r))
      | some run => .error ⟨run.length⟩ := by
  simp only [readHeader, h, ofRuns_eq_mapM, mapM_number, Runs.overlong?]
  cases List.find? _ r.all <;> rfl

theorem readHeader_cases {line : Line} {r : Runs} (h : runs? line = some r) :
    readHeader line = .ok (some (ofDigits r)) ∨
    ∃ overlong, readHeader line = .error overlong := by
  rw [readHeader_of_runs h]
  cases r.overlong? with
  | none => exact .inl rfl
  | some run => exact .inr ⟨_, rfl⟩

/-- A header that could be read is what its digits say. -/
theorem runs_of_readHeader {line : Line} {hunk : Hunk}
    (h : readHeader line = .ok (some hunk)) :
    ∃ r, runs? line = some r ∧ ofDigits r = hunk := by
  cases hr : runs? line with
  | none =>
      rw [readHeader, hr] at h
      exact absurd h (by simp)
  | some r =>
      refine ⟨r, rfl, ?_⟩
      rcases readHeader_cases hr with
        hread | ⟨overlong, hread⟩ <;> rw [hread] at h
      · simpa using h
      · exact absurd h (by simp)

theorem eq_cons_of_runs? {line : Line} {r : Runs} (h : runs? line = some r) :
    ∃ rest, line = 64 :: rest := by
  unfold runs? at h
  cases hs : Bytes.after? (Bytes.ascii "@@ -") line with
  | none => simp [hs] at h
  | some s =>
      rw [Bytes.after?_eq_some_iff.1 hs]
      exact ⟨_, rfl⟩

/-- No direction takes a header for a body line. -/
theorem ofLine?_of_runs? {line : Line} {r : Runs} (h : runs? line = some r)
    (reverse : Bool) :
    BodyLine.ofLine? reverse line = none := by
  obtain ⟨rest, rfl⟩ := eq_cons_of_runs? h
  rw [BodyLine.ofLine?_eq_map]
  rfl

theorem isHeader_of_marked {line : Line}
    (h : (Bytes.after? Marker.old line).isSome) :
    isHeader line = false := by
  obtain ⟨rest, hrest⟩ := Option.isSome_iff_exists.1 h
  rw [Bytes.after?_eq_some_iff.1 hrest]
  rfl

theorem after?_old_of_isHeader {line : Line} (h : isHeader line = true) :
    Bytes.after? Marker.old line = none := by
  cases hline : Bytes.after? Marker.old line with
  | none => rfl
  | some rest =>
      rw [isHeader_of_marked (by rw [hline]; rfl)] at h
      exact absurd h (by simp)

theorem isHeader_of_marked_new {line : Line}
    (h : (Bytes.after? Marker.new line).isSome) :
    isHeader line = false := by
  obtain ⟨rest, hrest⟩ := Option.isSome_iff_exists.1 h
  rw [Bytes.after?_eq_some_iff.1 hrest]
  rfl

end Hunk

theorem Marker.after?_old_of_new {line : Line}
    (h : (Bytes.after? new line).isSome) :
    Bytes.after? old line = none := by
  obtain ⟨rest, hrest⟩ := Option.isSome_iff_exists.1 h
  rw [Bytes.after?_eq_some_iff.1 hrest]
  rfl

/-! ## Hunks whose bodies agree with their headers -/

/-- A hunk by its lines: a header of four digit runs and as many body lines of
either side as the runs say. -/
structure CountedHunk where
  header : Line
  runs : Hunk.Runs
  body : List Line
  header_runs : Hunk.runs? header = some runs
  body_lines : ∀ line ∈ body, (BodyLine.ofLine? false line).isSome
  old_count : (sourceSide (body.filterMap (BodyLine.ofLine? false))).length =
    (Hunk.ofDigits runs).old.count
  new_count : (resultSide (body.filterMap (BodyLine.ofLine? false))).length =
    (Hunk.ofDigits runs).new.count

namespace CountedHunk

/-- The lines of a hunk in the patch. -/
def lines (w : CountedHunk) : List Line := w.header :: w.body

/-- The two ranges, in a direction. -/
def facing (reverse : Bool) (w : CountedHunk) : Hunk :=
  if reverse then (Hunk.ofDigits w.runs).swap else Hunk.ofDigits w.runs

/-- What the body lines say in a direction. -/
def script (reverse : Bool) (w : CountedHunk) : List BodyLine :=
  w.body.filterMap (BodyLine.ofLine? reverse)

theorem script_eq_map (reverse : Bool) (w : CountedHunk) :
    w.script reverse = (w.script false).map (BodyLine.facing reverse) := by
  unfold script
  rw [List.map_filterMap]
  congr 1
  funext line
  exact BodyLine.ofLine?_eq_map reverse line

theorem map_ofLine?_body (reverse : Bool) (w : CountedHunk) :
    w.body.map (BodyLine.ofLine? reverse) = (w.script reverse).map some := by
  unfold script
  have h : ∀ line ∈ w.body, (BodyLine.ofLine? reverse line).isSome := by
    intro line hline
    rw [BodyLine.isSome_ofLine?]
    exact w.body_lines line hline
  generalize w.body = body at h
  induction body with
  | nil => rfl
  | cons line body ih =>
      obtain ⟨b, hb⟩ := Option.isSome_iff_exists.1 (h line (by simp))
      rw [List.map_cons, List.filterMap_cons_some hb, List.map_cons, hb,
        ih fun l hl => h l (by simp [hl])]

theorem length_sourceSide_script (reverse : Bool) (w : CountedHunk) :
    (sourceSide (w.script reverse)).length = (w.facing reverse).old.count := by
  rw [script_eq_map, sourceSide_map_facing]
  cases reverse with
  | false => exact w.old_count
  | true => exact w.new_count

theorem length_resultSide_script (reverse : Bool) (w : CountedHunk) :
    (resultSide (w.script reverse)).length = (w.facing reverse).new.count := by
  rw [script_eq_map, resultSide_map_facing]
  cases reverse with
  | false => exact w.new_count
  | true => exact w.old_count

theorem isHeader_header (w : CountedHunk) : Hunk.isHeader w.header = true := by
  rw [Hunk.isHeader, w.header_runs]
  rfl

theorem ofLine?_header (reverse : Bool) (w : CountedHunk) :
    BodyLine.ofLine? reverse w.header = none :=
  Hunk.ofLine?_of_runs? w.header_runs reverse

end CountedHunk

/-! ## Sections and patches -/

/-- A section as it is written: the two marker lines, the hunks, and the notes
before the next section. -/
structure WrittenSection where
  oldLine : Line
  newLine : Line
  hunks : List CountedHunk
  notes : List Line := []
  oldLine_marked : (Bytes.after? Marker.old oldLine).isSome
  newLine_marked : (Bytes.after? Marker.new newLine).isSome
  notes_unmarked : ∀ line ∈ notes, Bytes.after? Marker.old line = none := by
    simp
  head_notes : ∀ line ∈ notes.head?, Hunk.isHeader line = false := by simp

namespace WrittenSection

/-- The lines of the hunks of a section. -/
def hunkLines (s : WrittenSection) : List Line :=
  s.hunks.flatMap CountedHunk.lines

/-- The lines of a section: two marker lines, hunks, notes. -/
def lines (s : WrittenSection) : List Line :=
  s.oldLine :: s.newLine :: (s.hunkLines ++ s.notes)

/-- The name that the pair of marker lines gives. -/
def name (level : Int) (s : WrittenSection) : Bytes :=
  (Section.name? level s.oldLine s.newLine).getD []

theorem name?_eq (level : Int) (s : WrittenSection) :
    Section.name? level s.oldLine s.newLine = some (s.name level) := by
  obtain ⟨rest, hrest⟩ := Option.isSome_iff_exists.1 s.newLine_marked
  unfold name Section.name? Marker.name?
  rw [hrest]
  rfl

/-- Sections begin with a marker line. -/
theorem head_lines_marked (sections : List WrittenSection) :
    ∀ line ∈ (sections.flatMap lines).head?,
      (Bytes.after? Marker.old line).isSome := by
  intro line hline
  cases sections with
  | nil => exact absurd hline (by simp)
  | cons w sections =>
      obtain rfl : w.oldLine = line := by simpa [lines] using hline
      exact w.oldLine_marked

theorem head_lines_not_header (sections : List WrittenSection) :
    ∀ line ∈ (sections.flatMap lines).head?, Hunk.isHeader line = false :=
  fun line hline =>
    Hunk.isHeader_of_marked (head_lines_marked sections line hline)

end WrittenSection

/-- A patch as it is written: notes, then sections, every line with
its newline. -/
structure WrittenPatch where
  preamble : List Line := []
  sections : List WrittenSection
  preamble_unmarked :
    ∀ line ∈ preamble, Bytes.after? Marker.old line = none := by simp
  preamble_terminated : ∀ line ∈ preamble, line.Terminated := by simp
  terminated : ∀ s ∈ sections, ∀ line ∈ s.lines, line.Terminated

namespace WrittenPatch

/-- The lines of a patch. -/
def lines (p : WrittenPatch) : List Line :=
  p.preamble ++ p.sections.flatMap WrittenSection.lines

/-- The text of a patch. -/
def text (p : WrittenPatch) : Bytes := p.lines.flatten

theorem terminated_of_mem {p : WrittenPatch} {line : Line}
    (h : line ∈ p.lines) :
    line.Terminated := by
  rcases List.mem_append.1 h with h | h
  · exact p.preamble_terminated line h
  · obtain ⟨s, hs, hline⟩ := List.mem_flatMap.1 h
    exact p.terminated s hs line hline

theorem lines_text_append (p : WrittenPatch) (more : Bytes) :
    Bytes.lines (p.text ++ more) = p.lines ++ more.lines :=
  Bytes.lines_flatten_append (fun _ h => terminated_of_mem h) more

theorem lines_text (p : WrittenPatch) : p.text.lines = p.lines := by
  have h := p.lines_text_append []
  rw [List.append_nil] at h
  rw [h]
  exact List.append_nil _

end WrittenPatch

/-! ## Hunks and patches to look at -/

/-- A hunk of a file that is deleted whole, its only line being `a`. -/
def Splice.wholeRemoval : CountedHunk where
  header := Bytes.ascii "@@ -1 +0,0 @@\n"
  runs := ⟨Bytes.ascii "1", none, Bytes.ascii "0", some (Bytes.ascii "0")⟩
  body := [Bytes.ascii "-a\n"]
  header_runs := rfl
  body_lines := by decide
  old_count := rfl
  new_count := rfl

/-- A patch of `f` that does not fit a file of the line `a`. -/
def misfit : WrittenPatch where
  sections :=
    [{ oldLine := Bytes.ascii "--- a/f\n"
       newLine := Bytes.ascii "+++ b/f\n"
       hunks :=
        [{ header := Bytes.ascii "@@ -1 +1 @@\n"
           runs := ⟨Bytes.ascii "1", none, Bytes.ascii "1", none⟩
           body := [Bytes.ascii "-x\n", Bytes.ascii "+y\n"]
           header_runs := rfl
           body_lines := by decide
           old_count := rfl
           new_count := rfl }]
       oldLine_marked := rfl
       newLine_marked := rfl }]
  terminated := by decide

/-- A patch that deletes `f`, of the line `a`, and creates `g`. -/
def deleteThenCreate : WrittenPatch where
  sections :=
    [{ oldLine := Bytes.ascii "--- a/f\n"
       newLine := Bytes.ascii "+++ /dev/null\n"
       hunks :=
        [{ header := Bytes.ascii "@@ -1 +0,0 @@\n"
           runs :=
             ⟨Bytes.ascii "1", none, Bytes.ascii "0", some (Bytes.ascii "0")⟩
           body := [Bytes.ascii "-a\n"]
           header_runs := rfl
           body_lines := by decide
           old_count := rfl
           new_count := rfl }]
       oldLine_marked := rfl
       newLine_marked := rfl },
     { oldLine := Bytes.ascii "--- a/g\n"
       newLine := Bytes.ascii "+++ b/g\n"
       hunks :=
        [{ header := Bytes.ascii "@@ -0,0 +1 @@\n"
           runs :=
             ⟨Bytes.ascii "0", some (Bytes.ascii "0"), Bytes.ascii "1", none⟩
           body := [Bytes.ascii "+z\n"]
           header_runs := rfl
           body_lines := by decide
           old_count := rfl
           new_count := rfl }]
       oldLine_marked := rfl
       newLine_marked := rfl }]
  terminated := by decide

end UnifiedPatch
