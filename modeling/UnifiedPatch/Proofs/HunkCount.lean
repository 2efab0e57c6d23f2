import Mathlib.Algebra.GroupWithZero.Nat
import Mathlib.Algebra.Ring.Int.Defs
import UnifiedPatch.Proofs.SectionHunkless
import UnifiedPatch.Proofs.SectionRun

/-!
# What the hunks of a run are taken from

Every hunk that is counted was a line of the patch, and no line is counted
twice, however often lines are handed back. Put as a bound: give each line of a
patch a weight, headers at least one, and the hunks that were counted together
with the lines that are left weigh no more than the lines there were
(`load_run_le`). A line handed back may have got its blank back, so the weight
must not depend on that.

For a whole run the lines before the first marker line do not count either
(`hunkSum_applySections_le`): a hunk that the search for a section has passed
over is lost to all that follow.
-/

namespace UnifiedPatch

/-- A weight of lines that no blank put back changes, and of which headers have
one at least. -/
structure Weight where
  of : Line → Nat
  restoreBlank : ∀ line, of (BodyLine.restoreBlank line) = of line
  header : ∀ line, Hunk.isHeader line = true → 1 ≤ of line

namespace Weight

variable (f : Weight)

/-- What lines weigh together. -/
def total (lines : List Line) : Nat := (lines.map f.of).sum

@[simp] theorem total_nil : f.total [] = 0 := rfl

@[simp] theorem total_cons (line : Line) (lines : List Line) :
    f.total (line :: lines) = f.of line + f.total lines := rfl

@[simp] theorem total_append (lines more : List Line) :
    f.total (lines ++ more) = f.total lines + f.total more := by
  simp [total]

theorem total_le_of_suffix {lines more : List Line} (h : more <:+ lines) :
    f.total more ≤ f.total lines := by
  obtain ⟨front, rfl⟩ := h
  rw [total_append]
  exact Nat.le_add_left _ _

theorem of_text {reverse : Bool} {line : Line} {b : BodyLine}
    (h : BodyLine.ofLine? reverse line = some b) : f.of b.text = f.of line := by
  rw [BodyLine.text_of_ofLine? h, f.restoreBlank]

/-- Headers weigh one, and no other line anything. -/
def headers : Weight where
  of line := if Hunk.isHeader line then 1 else 0
  restoreBlank line := by
    unfold BodyLine.restoreBlank
    split
    · next h => rcases h with rfl | rfl <;> rfl
    · rfl
  header line h := by simp [h]

theorem headers_of_not_isHeader {line : Line} (h : Hunk.isHeader line = false) :
    headers.of line = 0 := by
  simp [headers, h]

theorem headers_body {body : List Line}
    (h : ∀ line ∈ body, (BodyLine.ofLine? false line).isSome) :
    headers.total body = 0 := by
  induction body with
  | nil => rfl
  | cons line body ih =>
      have hline : Hunk.isHeader line = false := by
        cases hr : Hunk.runs? line with
        | none => rw [Hunk.isHeader, hr]; rfl
        | some r =>
            have hbody := h line (by simp)
            rw [Hunk.ofLine?_of_runs? hr] at hbody
            exact absurd hbody (by simp)
      rw [total_cons, headers_of_not_isHeader hline,
        ih fun l hl => h l (by simp [hl])]

theorem headers_hunk (w : CountedHunk) : headers.total w.lines = 1 := by
  have hheader : headers.of w.header = 1 := if_pos w.isHeader_header
  rw [CountedHunk.lines, total_cons, hheader, headers_body w.body_lines]

theorem headers_hunks (ws : List CountedHunk) :
    headers.total (ws.flatMap CountedHunk.lines) = ws.length := by
  induction ws with
  | nil => rfl
  | cons w ws ih =>
      rw [List.flatMap_cons, total_append, headers_hunk, ih, List.length_cons,
        Nat.add_comm]

theorem headers_cons {w : WrittenSection} (hnotes : w.notes = [])
    (sections : List WrittenSection) :
    headers.total ((w :: sections).flatMap WrittenSection.lines) =
      headers.total (w.hunkLines ++ sections.flatMap WrittenSection.lines) := by
  rw [List.flatMap_cons, WrittenSection.lines, hnotes]
  simp [headers_of_not_isHeader (Hunk.isHeader_of_marked w.oldLine_marked),
    headers_of_not_isHeader (Hunk.isHeader_of_marked_new w.newLine_marked)]

/-- Without notes between them, sections have as many headers as hunks. -/
theorem headers_sections {sections : List WrittenSection}
    (hnotes : ∀ w ∈ sections, w.notes = []) :
    (headers.total (sections.flatMap WrittenSection.lines) : Int) =
      (sections.map fun w => (w.hunks.length : Int)).sum := by
  induction sections with
  | nil => rfl
  | cons w sections ih =>
      rw [headers_cons (hnotes w (by simp)), total_append,
        WrittenSection.hunkLines, headers_hunks, List.map_cons, List.sum_cons,
        ← ih fun v hv => hnotes v (by simp [hv])]
      exact Int.natCast_add _ _

end Weight

namespace Splice

variable (f : Weight) (settings : Settings) (name : Bytes) {s : Splice}

/-- The hunks that were counted and the lines that are left. -/
def load (s : Splice) : Nat := s.hunks + f.total s.patch.ready

theorem load_handBack_le (s : Splice) (patch : LineStream) (line : Line)
    (phase : Phase) :
    (s.handBack patch line phase).load f ≤
      s.hunks + (f.of line + f.total patch.ready) := by
  unfold handBack load
  split
  · next patch' h =>
      have hready : f.total patch'.ready = f.of line + f.total patch.ready := by
        rw [LineStream.ready_of_unread? h, Weight.total_cons]
      exact Nat.le_of_eq (congrArg (s.hunks + ·) hready)
  · exact Nat.add_le_add_left (Nat.le_add_left _ _) _

theorem load_failAt_le (s : Splice) (patch : LineStream) (line : Line) :
    (s.failAt patch line).load f ≤
      s.hunks + (f.of line + f.total patch.ready) := by
  unfold failAt load
  split
  · next patch' h =>
      have hready : f.total patch'.ready = f.of line + f.total patch.ready := by
        rw [LineStream.ready_of_unread? h, Weight.total_cons]
      exact Nat.le_of_eq (congrArg (s.hunks + ·) hready)
  · exact Nat.add_le_add_left (Nat.le_add_left _ _) _

theorem load_emit_le (s : Splice) (patch : LineStream) (b : BodyLine)
    (ends : Tally) :
    (s.emit patch b ends).load f ≤
      s.hunks + (f.of b.text + f.total patch.ready) := by
  unfold emit
  split
  · exact load_handBack_le f s patch b.text .header
  · exact Nat.add_le_add_left (Nat.le_add_left _ _) _

theorem load_stepHeader_le (s : Splice) :
    (s.stepHeader settings).load f ≤ s.load f := by
  unfold stepHeader
  split
  · exact Nat.le_refl _
  · next line patch hn =>
      have hready := LineStream.ready_of_next? hn
      have hload : s.load f = s.hunks + (f.of line + f.total patch.ready) := by
        rw [load, hready, Weight.total_cons]
      rw [hload]
      split
      · exact Nat.add_le_add_left (Nat.le_add_left _ _) _
      · exact load_handBack_le f s patch line .trailing
      · next hunk hread =>
          -- The header is what the hunk is counted for.
          obtain ⟨r, hr, -⟩ := Hunk.runs_of_readHeader hread
          have hheader := f.header line (by rw [Hunk.isHeader, hr]; rfl)
          show s.hunks + 1 + f.total patch.ready ≤ _
          omega

theorem load_stepLeading (hunk : Hunk) (s : Splice) :
    (s.stepLeading name hunk).load f = s.load f := by
  unfold stepLeading
  split
  · rfl
  · split
    · rfl
    · simp only []
      split <;> rfl

theorem load_stepBody_le (hunk : Hunk) (ends seen : Tally) (s : Splice) :
    (s.stepBody settings name hunk ends seen).load f ≤ s.load f := by
  unfold stepBody
  split
  · exact Nat.le_refl _
  · next line patch hn =>
      have hready := LineStream.ready_of_next? hn
      have hload : s.load f = s.hunks + (f.of line + f.total patch.ready) := by
        rw [load, hready, Weight.total_cons]
      have hpast : s.hunks + f.total patch.ready ≤
          s.hunks + (f.of line + f.total patch.ready) :=
        Nat.add_le_add_left (Nat.le_add_left _ _) _
      rw [hload]
      split
      · exact load_handBack_le f s patch line .header
      · next b hread =>
          rw [← f.of_text hread] at hpast ⊢
          simp only []
          split
          · exact load_emit_le f _ patch b ends
          · split
            · exact load_handBack_le f s patch b.text .header
            · cases s.source.next? with
              | none =>
                  simp only [Option.map_none]
                  split
                  · split
                    · exact hpast
                    · exact load_emit_le f _ patch b ends
                  · split <;> exact hpast
              | some found =>
                  simp only [Option.map_some]
                  split
                  · split
                    · exact hpast
                    · exact load_emit_le f _ patch b ends
                  · split <;> exact hpast

theorem load_stepSkipping_le (hunk : Hunk) (seen : Tally) (s : Splice) :
    (s.stepSkipping settings hunk seen).load f ≤ s.load f := by
  unfold stepSkipping
  split
  · exact Nat.le_refl _
  · next line patch hn =>
      have hready := LineStream.ready_of_next? hn
      have hload : s.load f = s.hunks + (f.of line + f.total patch.ready) := by
        rw [load, hready, Weight.total_cons]
      rw [hload]
      split
      · exact load_failAt_le f s patch line
      · next b hread =>
          rw [← f.of_text hread]
          simp only []
          split
          · exact load_failAt_le f s patch b.text
          · exact Nat.add_le_add_left (Nat.le_add_left _ _) _

theorem load_step_le (s : Splice) :
    (s.step settings name).load f ≤ s.load f := by
  unfold step
  split
  · exact load_stepHeader_le f settings s
  · exact Nat.le_of_eq (load_stepLeading f name _ s)
  · exact load_stepBody_le f settings name _ _ _ s
  · exact load_stepSkipping_le f settings _ _ s
  · unfold stepTrailing
    simp only []
    split <;> exact Nat.le_refl _
  · exact Nat.le_refl _
  · exact Nat.le_refl _

theorem load_run_le (s : Splice) : (s.run settings name).load f ≤ s.load f := by
  fun_induction run settings name s with
  | case1 s _ ih => exact Nat.le_trans ih (load_step_le f settings name s)
  | case2 => exact Nat.le_refl _

end Splice

theorem Section.ready_of_next {level : Int} {s p : LineStream} {name : Bytes}
    (h : next level s = (.ok (some name), p)) :
    p.ready <:+ (seekOld s).2.ready := by
  unfold next at h
  split at h
  · simp at h
  · next line rest hseek =>
      rw [hseek]
      split at h
      · simp at h
      · next newLine more hnew =>
          split at h
          · simp at h
          · obtain ⟨-, rfl⟩ := Prod.mk.inj h
            rw [LineStream.ready_of_next? hnew]
            exact List.suffix_cons _ _

namespace Run

variable (f : Weight) {settings : Settings} {name : Bytes} {r : Run}

/-- The hunks of all files that were settled. -/
def hunkSum (r : Run) : Int := (r.files.toList.map FileResult.hunks).sum

theorem hunkSum_applySection_le {p : LineStream}
    (hfine : ((r.entering name p).applySection settings name).failure? = none) :
    ((r.entering name p).applySection settings name).hunkSum +
        f.total ((r.entering name p).applySection settings name).patch.ready ≤
      r.hunkSum + f.total p.ready := by
  obtain ⟨o, result, -, -, hleft, hfiles, -, hhunks⟩ :=
    exists_work_of_fine hfine
  have hload := Splice.load_run_le f settings name (Splice.start p o.source)
  rw [show (r.entering name p).patch = p from rfl] at hleft hhunks
  rw [Splice.load, Splice.load, ← hleft] at hload
  simp only [Splice.start, Nat.zero_add] at hload
  have hsum : ((r.entering name p).applySection settings name).hunkSum =
      r.hunkSum + result.hunks := by
    rw [hunkSum, hfiles]
    simp [hunkSum, entering, Run.say]
  rw [hsum, hhunks]
  simp only [Splice.start]
  omega

/-- A run counts no more hunks than the lines behind the next marker line have
headers. -/
theorem hunkSum_applySections_le
    (hfine : (r.applySections settings).failure? = none) :
    (r.applySections settings).hunkSum ≤
      r.hunkSum + f.total (Section.seekOld r.patch).2.ready := by
  fun_induction Run.applySections settings r with
  | case1 => exact absurd hfine (by simp [Run.fail])
  | case2 r p hfound =>
      show r.hunkSum ≤ _
      omega
  | case3 r name p hfound next why =>
      rename_i hwhy
      rw [hwhy] at hfine
      exact absurd hfine (by simp)
  | case4 r name p hfound next hnone =>
      rename_i ih
      have hsection := hunkSum_applySection_le f (r := r) (p := p) hnone
      have hrest := ih hfine
      have hbehind := f.total_le_of_suffix (Section.ready_of_next hfound)
      have hseek := f.total_le_of_suffix (Section.ready_seekOld next.patch)
      have hsame : (r.entering name p).applySection settings name = next := rfl
      rw [hsame] at hsection
      omega

end Run

end UnifiedPatch
