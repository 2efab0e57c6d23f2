import UnifiedPatch.Proofs.RunFailures
import UnifiedPatch.Proofs.SectionHunkless

/-!
# The lines of a patch on their way through a run

The search for a section and the machine read from one stream in turns, and
inside the machine so do the headers, the bodies, and the rest of a hunk that
has failed. None of them knows beforehand where its part ends, so each may read
one line too far, and hands that line back. The lines that are left at any time
are therefore the last lines of the patch, and never more of them than before; a
line that was handed back stands in front as it was read, but for a bare newline
that was taken for a line of a body: it keeps the blank that it got there
(`LeftOf`). Nothing is lost, and nothing comes twice.

This needs no knowledge of where the readers stop. A step takes a line,
leaves the lines alone, or hands back what it has just read, and a line that
was just read leaves room for itself, so the machine never gives up for want
of it (`phase_steps_ne_alreadyHeld`).
-/

namespace UnifiedPatch

theorem BodyLine.restoreBlank_restoreBlank (line : Line) :
    restoreBlank (restoreBlank line) = restoreBlank line := by
  by_cases h : line = [10] ∨ line = [13, 10]
  · rcases h with rfl | rfl <;> rfl
  · have hsame : restoreBlank line = line := if_neg h
    rw [hsame, hsame]

theorem restoreFirst_restoreFirst (lines : List Line) :
    restoreFirst (restoreFirst lines) = restoreFirst lines := by
  cases lines with
  | nil => rfl
  | cons line more =>
      simp only [restoreFirst, BodyLine.restoreBlank_restoreBlank]

theorem tail_restoreFirst (lines : List Line) :
    (restoreFirst lines).tail = lines.tail := by
  cases lines with
  | nil => rfl
  | cons line more => rfl

/-! ## What is left of a list of lines -/

/-- What is left of lines that are read from the front: the last of them, the
first of which may have got its blank back. -/
def LeftOf (lines left : List Line) : Prop :=
  ∃ rest, rest <:+ lines ∧ (left = rest ∨ left = restoreFirst rest)

namespace LeftOf

variable {lines left more : List Line}

theorem refl (lines : List Line) : LeftOf lines lines :=
  ⟨lines, List.suffix_refl lines, .inl rfl⟩

/-- Behind its first line what is left is as it was. -/
theorem tail_suffix (h : LeftOf lines left) : left.tail <:+ lines := by
  obtain ⟨rest, hrest, rfl | rfl⟩ := h
  · exact (List.tail_suffix left).trans hrest
  · rw [tail_restoreFirst]
    exact (List.tail_suffix rest).trans hrest

theorem of_suffix (h : LeftOf lines left) (hmore : more <:+ left) :
    LeftOf lines more := by
  cases left with
  | nil =>
      obtain rfl := List.suffix_nil.1 hmore
      exact h
  | cons line left =>
      rcases List.suffix_cons_iff.1 hmore with rfl | hbehind
      · exact h
      · exact ⟨more, hbehind.trans h.tail_suffix, .inl rfl⟩

/-- Handing a line back restores no more than its blank. -/
theorem handedBack (h : LeftOf lines left) :
    LeftOf lines (restoreFirst left) := by
  obtain ⟨rest, hrest, rfl | rfl⟩ := h
  · exact ⟨left, hrest, .inr rfl⟩
  · exact ⟨rest, hrest, .inr (restoreFirst_restoreFirst rest)⟩

theorem trans (h : LeftOf lines left) (h' : LeftOf left more) :
    LeftOf lines more := by
  obtain ⟨rest, hrest, rfl | rfl⟩ := h'
  · exact h.of_suffix hrest
  · exact (h.of_suffix hrest).handedBack

end LeftOf

/-! ## The machine -/

namespace Splice

variable {settings : Settings} {name : Bytes} {s s' : Splice}

theorem Move.leftOf (h : Move settings name s s') :
    LeftOf s.patch.ready s'.patch.ready := by
  have hone : LeftOf s.patch.ready (s.patch.skip 1).ready := by
    rw [LineStream.ready_skip]
    exact (LeftOf.refl _).of_suffix (List.drop_suffix 1 _)
  cases h with
  | noHeader phase back line =>
      exact ⟨s.patch.ready, List.suffix_refl _, .inl back⟩
  | bodyLeft phase back line =>
      exact ⟨s.patch.ready, List.suffix_refl _, .inr back⟩
  | contextLeft phase ready read role room found full back =>
      exact ⟨s.patch.ready, List.suffix_refl _, .inr back⟩
  | skippingLeft phase back line =>
      exact ⟨s.patch.ready, List.suffix_refl _, .inr back⟩
  | whole | behind | copied | short | flushed | dropped => exact .refl _
  | overlong | header | inserted | deleted | kept | passed | missed
  | skipped => exact hone

theorem leftOf_steps (s : Splice) (n : Nat) :
    LeftOf s.patch.ready (s.steps settings name n).patch.ready := by
  induction n with
  | zero => exact .refl _
  | succ n ih =>
      rw [steps_succ]
      rcases step_eq_or_move settings name (s.steps settings name n) with
        hsame | hmove
      · rw [hsame]
        exact ih
      · exact ih.trans hmove.leftOf

/-- No line is handed back while another one is. -/
theorem phase_steps_ne_alreadyHeld (hs : s.failure? = none) (n : Nat) :
    (s.steps settings name n).phase ≠ .stopped .alreadyHeld := by
  induction n with
  | zero => exact failure?_eq_none_iff.1 hs .alreadyHeld
  | succ n ih =>
      rw [steps_succ]
      rcases step_eq_or_move settings name (s.steps settings name n) with
        hsame | hmove
      · rw [hsame]
        exact ih
      · intro hstopped
        rcases hmove.stopped hstopped with ⟨run, -, -, hwhy, -⟩ | hfatal
        · exact absurd hwhy (by simp)
        · exact absurd hfatal (by simp [Failure.isFatal])

end Splice

/-! ## The sections -/

namespace Visit

variable {v : Visit} {s : Splice}

/-- The machine that works a section off, before its first step; there is none
if the target cannot be opened. -/
def begun? (v : Visit) : Option Splice :=
  match v.opened.result with
  | .ok o => some (Splice.start v.before.patch o.source)
  | .error _ => none

theorem exists_of_begun? (h : v.begun? = some s) :
    ∃ o, v.opened.result = .ok o ∧
      s = Splice.start v.before.patch o.source := by
  unfold begun? at h
  split at h
  · next o hopen => exact ⟨o, hopen, (Option.some.inj h).symm⟩
  · exact absurd h (by simp)

theorem patch_of_begun? (h : v.begun? = some s) : s.patch = v.before.patch := by
  obtain ⟨o, -, rfl⟩ := exists_of_begun? h
  rfl

/-- What the machine leaves of the patch goes on to the next section. -/
theorem patch_after_of_begun? (h : v.begun? = some s) :
    v.after.patch = (s.run v.settings v.name).patch := by
  obtain ⟨o, hopen, rfl⟩ := exists_of_begun? h
  rw [after, Run.applySection_eq_of_ok hopen rfl]
  split
  · rfl
  · rw [Run.patch_finishSection]
    rfl

/-- A section whose target cannot be opened leaves the patch alone. -/
theorem patch_after_of_not_begun (h : v.begun? = none) :
    v.after.patch = v.before.patch := by
  unfold begun? at h
  split at h
  · exact absurd h (by simp)
  · next why hopen =>
      rw [after, Run.applySection_eq_of_error hopen]
      rfl

theorem leftOf_after (v : Visit) :
    LeftOf v.before.patch.ready v.after.patch.ready := by
  cases hbegun : v.begun? with
  | none =>
      rw [patch_after_of_not_begun hbegun]
      exact .refl _
  | some s =>
      obtain ⟨n, hn⟩ := Splice.exists_steps_eq_run v.settings v.name s
      rw [patch_after_of_begun? hbegun, hn, ← patch_of_begun? hbegun]
      exact Splice.leftOf_steps s n

end Visit

namespace Run

variable {settings : Settings} {r : Run} {v : Visit}

theorem Meets.suffix (h : Meets settings r v) :
    v.before.patch.ready <:+ r.patch.ready := by
  have hnext := Section.ready_next settings.stripLevel r.patch
  rw [h.found] at hnext
  exact hnext

/-- A run comes to each of its sections as the first in what is left of
its lines. -/
theorem exists_meets_of_mem_visits (h : v ∈ r.visits settings) :
    ∃ r' : Run, LeftOf r.patch.ready r'.patch.ready ∧ Meets settings r' v := by
  induction r using visits_induction settings with
  | ended r hvisits => exact absurd (hvisits ▸ h) (by simp)
  | last r w why hmeets hvisits =>
      rw [hvisits] at h
      rw [List.mem_singleton.1 h]
      exact ⟨r, .refl _, hmeets⟩
  | more r w hmeets hvisits _ _ ih =>
      rw [hvisits] at h
      rcases List.mem_cons.1 h with rfl | hmem
      · exact ⟨r, .refl _, hmeets⟩
      · obtain ⟨r', hleft, hfirst⟩ := ih hmem
        have hbefore := (LeftOf.refl _).of_suffix hmeets.suffix
        exact ⟨r', (hbefore.trans w.leftOf_after).trans hleft, hfirst⟩

theorem leftOf_visit (h : v ∈ r.visits settings) :
    LeftOf r.patch.ready v.before.patch.ready := by
  obtain ⟨r', hleft, hfirst⟩ := exists_meets_of_mem_visits h
  exact hleft.of_suffix hfirst.suffix

/-- Of the lines that a section leaves, later sections begin with what
is left. -/
theorem pairwise_leftOf_visits (settings : Settings) (r : Run) :
    (r.visits settings).Pairwise fun v w =>
      LeftOf v.after.patch.ready w.before.patch.ready := by
  induction r using visits_induction settings with
  | ended r hvisits =>
      rw [hvisits]
      exact .nil
  | last r v why hmeets hvisits =>
      rw [hvisits]
      exact List.pairwise_singleton _ v
  | more r v hmeets hvisits _ _ ih =>
      rw [hvisits]
      exact .cons (fun w hw => leftOf_visit hw) ih

theorem leftOf_applySections (settings : Settings) (r : Run) :
    LeftOf r.patch.ready (r.applySections settings).patch.ready := by
  have hnext : ∀ r : Run, LeftOf r.patch.ready
      (Section.next settings.stripLevel r.patch).2.ready :=
    fun r =>
      (LeftOf.refl _).of_suffix (Section.ready_next settings.stripLevel r.patch)
  fun_induction applySections settings r with
  | case1 r e p h =>
      have hfound := hnext r
      rw [h] at hfound
      exact hfound
  | case2 r p h =>
      have hfound := hnext r
      rw [h] at hfound
      exact hfound
  | case3 r name p h next why hwhy =>
      have hfound := hnext r
      rw [h] at hfound
      exact hfound.trans
        (Visit.leftOf_after ⟨settings, name, r.entering name p⟩)
  | case4 r name p h next hfine ih =>
      have hfound := hnext r
      rw [h] at hfound
      exact (hfound.trans
        (Visit.leftOf_after ⟨settings, name, r.entering name p⟩)).trans ih

end Run

/-- A run hands the lines of its patch on. What a section begins with, what is
left after each step of its machine, what it leaves, and what is left at the end
of the run, are the last lines of the patch, the first of which may have got its
blank back; and each is what is left of the lines at any time before it. A line
that is handed back is never refused. -/
theorem applyPatch_handsOn (settings : Settings) (patch : Bytes)
    (tree : FileTree) :
    (∀ v ∈ Run.visits settings { tree, patch := .ofBytes patch },
      LeftOf patch.lines v.before.patch.ready ∧
      LeftOf patch.lines v.after.patch.ready ∧
      ∀ s ∈ v.begun?, s.patch = v.before.patch ∧
        (∃ n, v.after.patch = (s.steps settings v.name n).patch) ∧
        ∀ n, LeftOf patch.lines (s.steps settings v.name n).patch.ready ∧
          (∀ m ≤ n, LeftOf (s.steps settings v.name m).patch.ready
            (s.steps settings v.name n).patch.ready) ∧
          (s.steps settings v.name n).phase ≠ .stopped .alreadyHeld) ∧
    (Run.visits settings { tree, patch := .ofBytes patch }).Pairwise
      (fun v w => LeftOf v.after.patch.ready w.before.patch.ready) ∧
    LeftOf patch.lines (applyPatch settings patch tree).patch.ready ∧
    (applyPatch settings patch tree).failure? ≠ some .alreadyHeld := by
  refine ⟨fun v hv => ?_, Run.pairwise_leftOf_visits settings _,
    Run.leftOf_applySections settings { tree, patch := .ofBytes patch },
    fun hheld => ?_⟩
  · have hbefore : LeftOf patch.lines v.before.patch.ready :=
      Run.leftOf_visit hv
    have hsame : v.settings = settings := Run.settings_of_mem_visits hv
    refine ⟨hbefore, hbefore.trans v.leftOf_after, fun s hs => ?_⟩
    have hstart := Visit.patch_of_begun? hs
    refine ⟨hstart, ?_, fun n => ⟨?_, fun m hle => ?_, ?_⟩⟩
    · obtain ⟨n, hn⟩ := Splice.exists_steps_eq_run settings v.name s
      refine ⟨n, ?_⟩
      rw [Visit.patch_after_of_begun? hs, hsame, hn]
    · rw [← hstart] at hbefore
      exact hbefore.trans (Splice.leftOf_steps s n)
    · obtain ⟨k, rfl⟩ := Nat.exists_eq_add_of_le hle
      rw [Splice.steps_add]
      exact Splice.leftOf_steps _ k
    · obtain ⟨o, -, rfl⟩ := Visit.exists_of_begun? hs
      exact Splice.phase_steps_ne_alreadyHeld rfl n
  · obtain ⟨v, -, hescapes⟩ :=
      (applyPatch_failure?_iff settings patch tree rfl).1 hheld
    exact hescapes

/-- A hunk that takes a bare newline for context of one line too many. -/
def blankBehind : Bytes :=
  Bytes.ascii "--- a/f\n+++ b/f\n@@ -1 +1 @@\n-a\n+b\n\n--- a/g\n+++ b/g\n"

/-- The newline behind the body is handed back with a blank, and the next
section is found behind it. -/
theorem applyPatch_handsOn_blankBehind :
    ∃ v ∈ Run.visits { directory := ⟨.working, []⟩ }
        { tree := .oneFile, patch := .ofBytes blankBehind },
      v.after.patch.ready =
        [[32, 10], Bytes.ascii "--- a/g\n", Bytes.ascii "+++ b/g\n"] ∧
        LeftOf blankBehind.lines v.after.patch.ready ∧
        ∃ s ∈ v.begun?, ∀ n, LeftOf blankBehind.lines
          (s.steps { directory := ⟨.working, []⟩ } v.name n).patch.ready := by
  obtain ⟨hvisits, -⟩ :=
    applyPatch_handsOn { directory := ⟨.working, []⟩ } blankBehind .oneFile
  have hmem := List.getElem_mem
    (show 0 < (Run.visits { directory := ⟨.working, []⟩ }
    { tree := .oneFile, patch := .ofBytes blankBehind }).length by
      decide +kernel)
  obtain ⟨-, hafter, hmachine⟩ := hvisits _ hmem
  refine ⟨_, hmem, by decide +kernel, hafter, ?_⟩
  exact (Option.isSome_iff_exists.1 (by decide +kernel)).imp fun s hs =>
    ⟨hs, fun n => ((hmachine s hs).2.2 n).1⟩

end UnifiedPatch
