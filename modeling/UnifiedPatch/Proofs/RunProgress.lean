import UnifiedPatch.Proofs.HunkCount
import UnifiedPatch.Proofs.PatchHandedOn

/-!
# How far a patch can carry a run

A run is as long as its patch at most, whatever the numbers in the headers say.
Lines go back to the patch all the time, so it is not the place in the patch
that tells how far a run has come. What tells is what every line can be used for
only once: the two marker lines of a section and the header of a hunk are never
handed back, so two lines for each section and one for each hunk are gone for
good (`two_mul_visits_add_hunks_le`).

The machine goes through at most five phases for each line of the patch
(`stepCount_add_variant_le`), and since a section begins behind the lines of
those before it, this bounds the steps of all its machines together
(`sum_stepCount_le`). A step may copy many lines, as many as a header asks for,
but it copies only lines that are there: every line written is one of the source
that is gone, or one of the patch (`bulk_run_le`).
-/

namespace UnifiedPatch

namespace Splice

variable {settings : Settings} {name : Bytes} {s s' : Splice}

/-! ## Steps -/

/-- How many steps the machine takes to its end. -/
def stepCount (settings : Settings) (name : Bytes) (s : Splice) : Nat :=
  if s.phase.isLive then stepCount settings name (s.step settings name) + 1
  else 0
termination_by s.variant
decreasing_by exact variant_step_lt settings name (by assumption)

/-- Every step makes the variant smaller. -/
theorem stepCount_add_variant_le (settings : Settings) (name : Bytes)
    (s : Splice) :
    s.stepCount settings name + (s.run settings name).variant ≤ s.variant := by
  fun_induction stepCount settings name s with
  | case1 s hlive ih =>
      have hstep := variant_step_lt settings name hlive
      rw [run_step] at ih
      omega
  | case2 s hlive =>
      rw [Bool.not_eq_true] at hlive
      rw [run_of_not_isLive settings name hlive, Nat.zero_add]

theorem isLive_run (settings : Settings) (name : Bytes) (s : Splice) :
    (s.run settings name).phase.isLive = false := by
  fun_induction run settings name s with
  | case1 s hlive ih => exact ih
  | case2 s hlive => simpa using hlive

/-- The machine is at its end after that many steps. -/
theorem run_eq_steps_stepCount (settings : Settings) (name : Bytes)
    (s : Splice) :
    s.run settings name =
      s.steps settings name (s.stepCount settings name) := by
  fun_induction stepCount settings name s with
  | case1 s hlive ih =>
      rw [← run_step, ih, Nat.add_comm, steps_add]
      rfl
  | case2 s hlive =>
      rw [Bool.not_eq_true] at hlive
      exact run_of_not_isLive settings name hlive

/-! ## Lines -/

/-- What was written, and all that can still be. -/
def bulk (s : Splice) : Nat :=
  s.written.size + s.source.ready.length + s.patch.ready.length

theorem length_restoreFirst (lines : List Line) :
    (restoreFirst lines).length = lines.length := by
  cases lines with
  | nil => rfl
  | cons line more => rfl

/-- A line that is written is gone from the source or from the patch. -/
theorem Move.bulk_le (h : Move settings name s s') : s'.bulk ≤ s.bulk := by
  cases h with
  | noHeader phase back line => simp [bulk, back]
  | bodyLeft phase back line => simp [bulk, back, length_restoreFirst]
  | skippingLeft phase back line =>
      simp [bulk, fail, say, back, length_restoreFirst]
  | contextLeft phase ready read role room found full back =>
      simp only [bulk, back, length_restoreFirst, LineStream.ready_skip,
        List.length_drop]
      omega
  | @copied hunk count phase whole start there =>
      have hwritten := size_append_lines s.written (s.source.ready.take count)
      rw [List.length_take, Nat.min_eq_left there] at hwritten
      simp only [bulk, enterBody, hwritten, LineStream.ready_skip,
        List.length_drop]
      omega
  | @short hunk count phase whole start missing =>
      have hwritten := size_append_lines s.written s.source.ready
      simp only [bulk, stop, say, hwritten, LineStream.ready_skip,
        List.length_drop]
      omega
  | flushed phase flush =>
      have hwritten := size_append_lines s.written s.source.ready
      simp only [bulk, say, hwritten, LineStream.ready_skip, List.length_drop]
      omega
  | inserted phase ready read role room =>
      simp only [bulk, Array.size_push, LineStream.ready_skip, ready,
        List.drop_one, List.tail_cons, List.length_cons]
      omega
  | kept phase ready read role room found room' =>
      simp only [bulk, Array.size_push, LineStream.ready_skip, ready, found,
        List.drop_one, List.tail_cons, List.length_cons]
      omega
  | whole | behind | dropped => exact Nat.le_refl _
  | overlong | header | deleted | passed | missed | skipped =>
      simp only [bulk, say, LineStream.ready_skip, List.length_drop]
      omega

theorem bulk_run_le (settings : Settings) (name : Bytes) (s : Splice) :
    (s.run settings name).bulk ≤ s.bulk := by
  fun_induction run settings name s with
  | case1 s hlive ih =>
      exact Nat.le_trans ih (move_step settings name hlive).bulk_le
  | case2 => exact Nat.le_refl _

end Splice

/-- Every line weighs the same. -/
def Weight.lines : Weight where
  of _ := 1
  restoreBlank _ := rfl
  header _ _ := Nat.le_refl 1

theorem Weight.total_lines (lines : List Line) :
    Weight.lines.total lines = lines.length := by
  induction lines with
  | nil => rfl
  | cons line lines ih =>
      rw [total_cons, ih, List.length_cons, Nat.add_comm]
      rfl

/-! ## One section -/

theorem Section.length_of_seekOld {s p : LineStream} {line : Line}
    (h : seekOld s = (some line, p)) : p.ready.length + 1 ≤ s.ready.length := by
  fun_induction seekOld s with
  | case1 => simp at h
  | case2 s found rest hfound hmarked =>
      obtain ⟨-, rfl⟩ := Prod.mk.inj h
      exact Nat.le_of_eq (LineStream.length_ready_of_next? hfound)
  | case3 s found rest hfound hmarked ih =>
      have hrest := ih h
      have hone := LineStream.length_ready_of_next? hfound
      omega

/-- A section takes its two marker lines out of the patch. -/
theorem Section.length_of_next {level : Int} {s p : LineStream} {name : Bytes}
    (h : next level s = (.ok (some name), p)) :
    p.ready.length + 2 ≤ s.ready.length := by
  unfold next at h
  split at h
  · simp at h
  · next oldLine rest hseek =>
      have hold := length_of_seekOld hseek
      split at h
      · simp at h
      · next newLine behind hnext =>
          have hnew := LineStream.length_ready_of_next? hnext
          split at h
          · simp at h
          · obtain ⟨-, rfl⟩ := Prod.mk.inj h
            omega

namespace Visit

variable {v : Visit}

/-- How many hunks a section counts. -/
def hunks (v : Visit) : Nat :=
  match v.begun? with
  | some s => (s.run v.settings v.name).hunks
  | none => 0

/-- How many steps its machine takes. -/
def stepCount (v : Visit) : Nat :=
  match v.begun? with
  | some s => s.stepCount v.settings v.name
  | none => 0

/-- A counted hunk has used up a line. -/
theorem hunks_add_length_le (v : Visit) :
    v.hunks + v.after.patch.ready.length ≤ v.before.patch.ready.length := by
  cases hbegun : v.begun? with
  | none =>
      rw [patch_after_of_not_begun hbegun, hunks, hbegun]
      exact Nat.le_of_eq (Nat.zero_add _)
  | some s =>
      have hload := Splice.load_run_le Weight.lines v.settings v.name s
      rw [Splice.load, Splice.load, Weight.total_lines, Weight.total_lines,
        patch_of_begun? hbegun] at hload
      obtain ⟨o, -, rfl⟩ := exists_of_begun? hbegun
      rw [patch_after_of_begun? hbegun, hunks, hbegun]
      simpa [Splice.start] using hload

theorem stepCount_add_length_le (v : Visit) :
    v.stepCount + 5 * v.after.patch.ready.length ≤
      5 * v.before.patch.ready.length + 2 := by
  cases hbegun : v.begun? with
  | none =>
      rw [patch_after_of_not_begun hbegun, stepCount, hbegun]
      show 0 + 5 * v.before.patch.ready.length ≤ _
      omega
  | some s =>
      have hvariant := Splice.stepCount_add_variant_le v.settings v.name s
      obtain ⟨o, -, rfl⟩ := exists_of_begun? hbegun
      rw [patch_after_of_begun? hbegun, stepCount, hbegun]
      simp only [Splice.variant, Splice.start, Phase.rank] at hvariant ⊢
      omega

/-- A section that does not fail is settled with the hunks that it
has counted. -/
theorem settled_of_fine (hfine : v.after.failure? = none) :
    v.after.files.size = v.before.files.size + 1 ∧
      v.after.hunkSum = v.before.hunkSum + v.hunks := by
  obtain ⟨o, result, hopen, -, -, hfiles, -, hhunks⟩ :=
    Run.exists_work_of_fine hfine
  have hbegun : v.begun? = some (Splice.start v.before.patch o.source) := by
    rw [begun?, opened, hopen]
  have hcount : result.hunks = v.hunks := by
    rw [hhunks, hunks, hbegun]
  rw [after, Run.hunkSum, hfiles]
  simp [Run.hunkSum, hcount]

end Visit

/-! ## All sections -/

namespace Run

variable {settings : Settings} {r : Run} {v : Visit}

theorem Meets.length_add_two_le (h : Meets settings r v) :
    v.before.patch.ready.length + 2 ≤ r.patch.ready.length :=
  Section.length_of_next h.found

/-- Two lines for each section and one for each hunk. -/
theorem two_mul_visits_add_hunks_le (settings : Settings) (r : Run) :
    2 * (r.visits settings).length + ((r.visits settings).map Visit.hunks).sum ≤
      r.patch.ready.length := by
  induction r using visits_induction settings with
  | ended r hvisits => simp [hvisits]
  | last r v why hmeets hvisits =>
      have hmarks := hmeets.length_add_two_le
      have hhunks := v.hunks_add_length_le
      simp only [hvisits, List.length_singleton, List.map_cons, List.map_nil,
        List.sum_cons, List.sum_nil]
      omega
  | more r v hmeets hvisits _ _ ih =>
      have hmarks := hmeets.length_add_two_le
      have hhunks := v.hunks_add_length_le
      simp only [hvisits, List.length_cons, List.map_cons, List.sum_cons]
      omega

theorem sum_stepCount_le (settings : Settings) (r : Run) :
    ((r.visits settings).map Visit.stepCount).sum ≤
      5 * r.patch.ready.length := by
  induction r using visits_induction settings with
  | ended r hvisits => simp [hvisits]
  | last r v why hmeets hvisits =>
      have hmarks := hmeets.length_add_two_le
      have hsteps := v.stepCount_add_length_le
      simp only [hvisits, List.map_cons, List.map_nil, List.sum_cons,
        List.sum_nil]
      omega
  | more r v hmeets hvisits _ _ ih =>
      have hmarks := hmeets.length_add_two_le
      have hsteps := v.stepCount_add_length_le
      simp only [hvisits, List.map_cons, List.sum_cons]
      omega

/-- A run that is not given up has a result for every section that it
came to. -/
theorem settled_of_returned
    (hfine : (r.applySections settings).failure? = none) :
    (r.applySections settings).files.size =
      r.files.size + (r.visits settings).length ∧
      (r.applySections settings).hunkSum =
        r.hunkSum + ((r.visits settings).map Visit.hunks).sum := by
  induction r, hfine using returned_induction settings with
  | ended r p hfine hvisits hrun =>
      rw [hvisits, hrun]
      simp [Run.say, hunkSum]
  | more r v p hfine hmore hv hvisits hrun hafter ih =>
      have hbefore : v.before.files = r.files := by rw [← hv]; rfl
      obtain ⟨hsize, hsum⟩ := Visit.settled_of_fine hafter
      obtain ⟨hsizes, hsums⟩ := ih
      rw [hbefore] at hsize
      have hsame : v.before.hunkSum = r.hunkSum := by
        rw [hunkSum, hbefore, hunkSum]
      rw [hrun, hsizes, hsums, hsize, hsum, hsame, hvisits]
      simp only [List.length_cons, List.map_cons, List.sum_cons,
        Int.natCast_add]
      exact ⟨by omega, by omega⟩

end Run

/-- Progress. On a patch of `N` lines a run comes to so many sections, and
counts so many hunks in them, those of a section that is given up included,
that two lines for each section and one for each hunk are not more than `N`;
all its machines together take no more than `5 * N` steps, each of them as many
as it is said to take, and then it is at its end; and none of them writes more
lines than its source and the patch have. If the run is not given up, it has a
result for each of these sections, and the hunks of these results are the ones
that were counted. -/
theorem applyPatch_progress (settings : Settings) (patch : Bytes)
    (tree : FileTree) :
    2 * (Run.visits settings { tree, patch := .ofBytes patch }).length +
        ((Run.visits settings { tree, patch := .ofBytes patch }).map
          Visit.hunks).sum ≤
      patch.lines.length ∧
    ((Run.visits settings { tree, patch := .ofBytes patch }).map
      Visit.stepCount).sum ≤
      5 * patch.lines.length ∧
    (∀ v ∈ Run.visits settings { tree, patch := .ofBytes patch },
      ∀ s ∈ v.begun?,
      s.run settings v.name = s.steps settings v.name v.stepCount ∧
      (s.steps settings v.name v.stepCount).phase.isLive = false ∧
      (s.run settings v.name).written.size ≤
        s.source.ready.length + s.patch.ready.length) ∧
    ((applyPatch settings patch tree).failure? = none →
      (applyPatch settings patch tree).files.size =
          (Run.visits settings { tree, patch := .ofBytes patch }).length ∧
        (applyPatch settings patch tree).hunkSum =
          ((Run.visits settings { tree, patch := .ofBytes patch }).map
            Visit.hunks).sum) := by
  refine ⟨Run.two_mul_visits_add_hunks_le settings
    { tree, patch := .ofBytes patch },
    Run.sum_stepCount_le settings { tree, patch := .ofBytes patch },
    fun v hv s hs => ?_, fun hfine => ?_⟩
  · have hsame : v.settings = settings := Run.settings_of_mem_visits hv
    have hsteps : v.stepCount = s.stepCount settings v.name := by
      rw [Visit.stepCount, hs, hsame]
    have hrun := Splice.run_eq_steps_stepCount settings v.name s
    rw [hsteps]
    refine ⟨hrun, by rw [← hrun]; exact Splice.isLive_run settings v.name s, ?_⟩
    have hbulk := Splice.bulk_run_le settings v.name s
    obtain ⟨o, -, rfl⟩ := Visit.exists_of_begun? hs
    simp only [Splice.bulk, Splice.start] at hbulk ⊢
    simp only [List.size_toArray, List.length_nil] at hbulk
    omega
  · obtain ⟨hsize, hsum⟩ := Run.settled_of_returned hfine
    exact ⟨hsize.trans (Nat.zero_add _), hsum.trans (Int.zero_add _)⟩

/-- A hunk a million lines ahead. -/
def farAhead : Bytes := Bytes.ascii "--- a/f\n+++ b/f\n@@ -1000000 +1 @@\n-a\n"

/-- The hunk is counted, although the source ends before it, and no more
is written than there is. A run that is not given up has a result for
each section. -/
theorem applyPatch_progress_farAhead :
    (Run.visits { directory := ⟨.working, []⟩ }
        { tree := .oneFile, patch := .ofBytes farAhead }).map Visit.hunks =
        [1] ∧
      2 * (Run.visits { directory := ⟨.working, []⟩ }
          { tree := .oneFile, patch := .ofBytes farAhead }).length +
        ((Run.visits { directory := ⟨.working, []⟩ }
          { tree := .oneFile, patch := .ofBytes farAhead }).map
          Visit.hunks).sum ≤
        farAhead.lines.length ∧
      (∃ v ∈ Run.visits { directory := ⟨.working, []⟩ }
          { tree := .oneFile, patch := .ofBytes farAhead }, ∃ s ∈ v.begun?,
        (s.run { directory := ⟨.working, []⟩ } v.name).written.size ≤
          s.source.ready.length + s.patch.ready.length) ∧
      (applyPatch { directory := ⟨.working, []⟩ } blankBehind
        .oneFile).files.size =
        (Run.visits { directory := ⟨.working, []⟩ }
          { tree := .oneFile, patch := .ofBytes blankBehind }).length := by
  obtain ⟨hcounted, -, hmachines, -⟩ :=
    applyPatch_progress { directory := ⟨.working, []⟩ } farAhead .oneFile
  obtain ⟨-, -, -, hreturned⟩ :=
    applyPatch_progress { directory := ⟨.working, []⟩ } blankBehind .oneFile
  have hmem := List.getElem_mem
    (show 0 < (Run.visits { directory := ⟨.working, []⟩ }
    { tree := .oneFile, patch := .ofBytes farAhead }).length by decide +kernel)
  refine ⟨by decide +kernel, hcounted, ⟨_, hmem, ?_⟩,
    (hreturned (by decide +kernel)).1⟩
  exact (Option.isSome_iff_exists.1 (by decide +kernel)).imp fun s hs =>
    ⟨hs, (hmachines _ hmem s hs).2.2⟩

end UnifiedPatch
