import UnifiedPatch.Proofs.LineJoining
import UnifiedPatch.Proofs.PatchHandedOn
import UnifiedPatch.Proofs.SectionMarks
import UnifiedPatch.Proofs.SpliceCursors
import UnifiedPatch.Proofs.SpliceReverse
import UnifiedPatch.Proofs.TargetOpening

/-!
# What the counter of lines counts

The machine counts a line for each piece that it writes. The pieces are lines
of the source, and what the patch has behind the marker of an insertion
(`mem_written_run`). So each of them is a line if the text that it is from
ends in a newline. If it does not, its last line may join with the next piece,
and a bare marker at the end of the patch makes a piece of nothing. The
counter is the number of pieces all the same, and the lines of the result may
be fewer (`Counted`).

On that number hangs a file. A section without failed hunks takes its target
away if nothing was counted, and not if the result is empty. The two are the
same, but for the bare marker: that leaves an empty file.
-/

namespace UnifiedPatch

theorem Role.insertionMarker_ne_blank (reverse : Bool) :
    insertionMarker reverse ≠ 32 := by
  cases reverse <;> decide

theorem Role.insertionMarker_ne_newline (reverse : Bool) :
    insertionMarker reverse ≠ Bytes.newline := by
  cases reverse <;> decide

namespace BodyLine

variable {reverse : Bool} {line : Line} {b : BodyLine}

/-- The blank that a line gets back stands in front. -/
theorem restoreBlank_of_head? (h : (restoreBlank line).head? ≠ some 32) :
    restoreBlank line = line := by
  unfold restoreBlank at h ⊢
  split
  · next hbare =>
      rw [if_pos hbare] at h
      exact absurd rfl h
  · rfl

/-- An insertion is its marker and its content. -/
theorem eq_cons_of_insertion (h : ofLine? reverse line = some b)
    (role : b.role = .insertion) :
    line = Role.insertionMarker reverse :: b.content := by
  unfold ofLine? at h
  split at h
  · exact absurd h (by simp)
  · next marker content hline =>
      obtain ⟨found, hfound, rfl⟩ := Option.map_eq_some_iff.1 h
      obtain rfl : found = .insertion := role
      have hmarker : marker = Role.insertionMarker reverse := by
        unfold Role.ofMarker? at hfound
        split at hfound
        · exact absurd hfound (by simp)
        · split at hfound
          · exact absurd hfound (by simp)
          · split at hfound
            · assumption
            · exact absurd hfound (by simp)
      subst hmarker
      have hsame : restoreBlank line = line := by
        refine restoreBlank_of_head? ?_
        rw [hline, List.head?_cons]
        simpa using Role.insertionMarker_ne_blank reverse
      rw [← hsame]
      exact hline

end BodyLine

/-- A line that begins with no blank is left as it was. -/
theorem LeftOf.mem_of_head? {lines left : List Line} {line : Line}
    (h : LeftOf lines left) (hline : line ∈ left)
    (hblank : line.head? ≠ some 32) : line ∈ lines := by
  obtain ⟨rest, hrest, rfl | rfl⟩ := h
  · exact hrest.subset hline
  · refine hrest.subset ?_
    cases rest with
    | nil => exact hline
    | cons first more =>
        rcases List.mem_cons.1 hline with rfl | hmem
        · rw [BodyLine.restoreBlank_of_head? hblank]
          exact List.mem_cons_self
        · exact List.mem_cons_of_mem _ hmem

/-! ## Where the pieces are from -/

namespace Splice

variable {settings : Settings} {name : Bytes} {s s' : Splice} {piece : Line}

theorem Move.suffix_source (h : Move settings name s s') :
    s'.source.ready <:+ s.source.ready := by
  cases h with
  | copied | short | deleted | kept | contextLeft | passed | missed | flushed =>
      simp only [enterBody, say, stop, LineStream.ready_skip]
      exact List.drop_suffix _ _
  | _ => exact List.suffix_refl _

/-- A step writes lines of the source, or what the patch has behind the marker
of an insertion. -/
theorem Move.mem_written (h : Move settings name s s')
    (hpiece : piece ∈ s'.written.toList) :
    piece ∈ s.written.toList ∨ piece ∈ s.source.ready ∨
      Role.insertionMarker settings.reverse :: piece ∈ s.patch.ready := by
  cases h with
  | copied phase whole start there =>
      simp only [enterBody, Array.toList_appendList, List.mem_append] at hpiece
      exact hpiece.imp_right fun hmem => .inl (List.mem_of_mem_take hmem)
  | short phase whole start missing =>
      simp only [stop, say, Array.toList_appendList, List.mem_append] at hpiece
      exact hpiece.imp_right .inl
  | flushed phase flush =>
      simp only [say, Array.toList_appendList, List.mem_append] at hpiece
      exact hpiece.imp_right .inl
  | inserted phase ready read role room =>
      simp only [Array.toList_push, List.mem_append,
        List.mem_singleton] at hpiece
      refine hpiece.imp_right fun heq => .inr ?_
      rw [heq, ready, ← BodyLine.eq_cons_of_insertion read role]
      exact List.mem_cons_self
  | kept phase ready read role room found room' =>
      simp only [Array.toList_push, List.mem_append,
        List.mem_singleton] at hpiece
      refine hpiece.imp_right fun heq => .inl ?_
      rw [heq, found]
      exact List.mem_cons_self
  | _ => exact .inl hpiece

theorem suffix_source_steps (s : Splice) (n : Nat) :
    (s.steps settings name n).source.ready <:+ s.source.ready := by
  induction n with
  | zero => exact List.suffix_refl _
  | succ n ih =>
      rw [steps_succ]
      rcases step_eq_or_move settings name (s.steps settings name n) with
        hsame | hmove
      · rw [hsame]
        exact ih
      · exact hmove.suffix_source.trans ih

theorem mem_written_steps (n : Nat)
    (hpiece : piece ∈ (s.steps settings name n).written.toList) :
    piece ∈ s.written.toList ∨ piece ∈ s.source.ready ∨
      Role.insertionMarker settings.reverse :: piece ∈ s.patch.ready := by
  induction n with
  | zero => exact .inl hpiece
  | succ n ih =>
      rw [steps_succ] at hpiece
      rcases step_eq_or_move settings name (s.steps settings name n) with
        hsame | hmove
      · rw [hsame] at hpiece
        exact ih hpiece
      · rcases hmove.mem_written hpiece with hbefore | hsource | hpatch
        · exact ih hbefore
        · exact .inr (.inl ((suffix_source_steps s n).subset hsource))
        · refine .inr (.inr ((leftOf_steps s n).mem_of_head? hpatch ?_))
          rw [List.head?_cons]
          simpa using Role.insertionMarker_ne_blank settings.reverse

/-- All that a run writes is from the source, or from an insertion of
the patch. -/
theorem mem_written_run {patch source : LineStream}
    (hpiece : piece ∈ ((start patch source).run settings name).written.toList) :
    piece ∈ source.ready ∨
    Role.insertionMarker settings.reverse :: piece ∈ patch.ready := by
  obtain ⟨n, hn⟩ := exists_steps_eq_run settings name (start patch source)
  rw [hn] at hpiece
  exact (mem_written_steps n hpiece).resolve_left List.not_mem_nil

/-! ## The counter -/

/-- What the counter of a machine says that is done with its part of a patch and
with a source. It is the number of lines that were written. The text that they
make has no more lines, and it has as many exactly if the lines written stay
apart; they do if no newline is missing. And nothing but a bare marker at the
end of the patch makes a line that is empty. -/
structure Counted (reverse : Bool) (patch source : Bytes) (work : Splice) :
    Prop where
  produced : work.produced = work.written.size
  lines_le : work.output.lines.length ≤ work.produced
  lines_eq_iff : work.produced = work.output.lines.length ↔
    Separate work.written.toList
  separate : (∀ line ∈ patch.lines, line.Terminated) →
    (∀ line ∈ source.lines, line.Terminated) →
    Separate work.written.toList
  bare : [] ∈ work.written.toList →
    patch.lines.getLast? = some [Role.insertionMarker reverse]

theorem counted_run {patch : LineStream} {text source : Bytes}
    (hpatch : LeftOf text.lines patch.ready)
    (hfine : ((start patch (.ofBytes source)).run settings name).failure? =
      none) :
    Counted settings.reverse text source
      ((start patch (.ofBytes source)).run settings name) := by
  have horigin :
    ∀ piece ∈ ((start patch (.ofBytes source)).run settings
      name).written.toList,
      piece ∈ source.lines ∨
      Role.insertionMarker settings.reverse :: piece ∈ text.lines := by
    intro piece hpiece
    refine (mem_written_run hpiece).imp_right fun hmem =>
      hpatch.mem_of_head? hmem ?_
    rw [List.head?_cons]
    simpa using Role.insertionMarker_ne_blank settings.reverse
  have hproduced :
      ((start patch (.ofBytes source)).run settings name).produced =
      ((start patch (.ofBytes source)).run settings name).written.size := by
    obtain ⟨n, hn⟩ :=
      exists_steps_eq_run settings name (start patch (.ofBytes source))
    rw [hn] at hfine ⊢
    exact ((accounted_start patch source).steps n hfine).written.symm
  generalize (start patch (.ofBytes source)).run settings name =
    work at horigin hproduced
  have hsingle : ∀ piece ∈ work.written.toList, Line.Single piece := by
    intro piece hpiece
    rcases horigin piece hpiece with hsource | htext
    · exact Bytes.single_of_mem_lines hsource
    · exact (Bytes.single_of_mem_lines htext).tail
  obtain ⟨hle, hiff⟩ := Bytes.length_lines_flatten hsingle
  have hmarker : Role.insertionMarker settings.reverse ≠ Bytes.newline :=
    Role.insertionMarker_ne_newline settings.reverse
  have hsize : work.written.toList.length = work.produced := by
    rw [Array.length_toList, hproduced]
  rw [hsize] at hle hiff
  refine ⟨hproduced, hle, eq_comm.trans hiff, fun htext hsource => ?_,
    fun hempty => ?_⟩
  · refine separate_of_terminated fun piece hpiece => ?_
    rcases horigin piece hpiece with hmem | hmem
    · exact hsource piece hmem
    · exact (htext _ hmem).of_cons hmarker
  · rcases horigin [] hempty with hmem | hmem
    · exact absurd rfl (Bytes.ne_nil_of_mem_lines hmem)
    · refine Bytes.getLast?_lines_of_not_terminated hmem fun hline => ?_
      exact hmarker (Option.some.inj hline.1)

/-- A result of no bytes is one of no lines, but for a bare marker. -/
theorem Counted.of_output_nil {reverse : Bool} {patch source : Bytes}
    {work : Splice} (h : Counted reverse patch source work)
    (hempty : work.output = []) :
    work.written = #[] ∨ patch.lines.getLast? = some
      [Role.insertionMarker reverse] := by
  rw [output, List.flatten_eq_nil_iff] at hempty
  cases hwritten : work.written.toList with
  | nil => exact .inl (Array.toList_eq_nil_iff.1 hwritten)
  | cons piece more =>
      have hmem : piece ∈ work.written.toList := by
        rw [hwritten]
        exact List.mem_cons_self
      refine .inr (h.bare ?_)
      rwa [← hempty piece hmem]

end Splice

/-! ## The target -/

namespace FileTree

variable {t : FileTree} {loc : Location}

theorem node?_fill_ne_none (h : t.node? loc ≠ none) (output : Bytes) :
    (t.fill loc output).node? loc ≠ none := by
  unfold fill
  split
  · simp [node?_put]
  · exact h

end FileTree

/-- What is read of a target is the lines of some bytes. -/
theorem Target.Acquired.exists_source {name : Bytes} {path : Path}
    {tree after : FileTree} {o : OpenTarget}
    (h : Acquired name path tree o after) :
    ∃ content, o.source = .ofBytes content := by
  cases h with
  | existing => exact ⟨_, rfl⟩
  | new => exact ⟨[], rfl⟩

namespace Visit

open FileTree Target

variable {v : Visit} {work : Splice}

/-- The machine of a section at the end of its work. -/
def ended? (v : Visit) : Option Splice :=
  v.begun?.map fun s => s.run v.settings v.name

theorem exists_of_ended? (h : v.ended? = some work) :
    ∃ o, v.opened.result = .ok o ∧
      (Splice.start v.before.patch o.source).run v.settings v.name = work := by
  obtain ⟨s, hbegun, rfl⟩ := Option.map_eq_some_iff.1 h
  obtain ⟨o, hopen, rfl⟩ := exists_of_begun? hbegun
  exact ⟨o, hopen, rfl⟩

theorem counted_of_ended? {patch : Bytes} (hdry : v.settings.dryRun = false)
    (hpatch : LeftOf patch.lines v.before.patch.ready)
    (h : v.ended? = some work) (hdone : work.failure? = none) :
    ∃ content, Splice.Counted v.settings.reverse patch content work := by
  obtain ⟨o, hopen, rfl⟩ := exists_of_ended? h
  obtain ⟨content, hcontent⟩ := (acquired_of_ok hdry hopen).2.exists_source
  rw [hcontent] at hdone ⊢
  exact ⟨content, Splice.counted_run hpatch hdone⟩

/-- A section without failed hunks reports what its machine has counted, and
that its target is gone if that was nothing. -/
theorem reported_of_clean (hdry : v.settings.dryRun = false)
    (hfine : v.after.failure? = none) (h : v.ended? = some work)
    (hclean : work.failed = 0) :
    work.failure? = none ∧ ∃ result : FileResult,
      v.after.files = v.before.files.push result ∧
      result.produced = work.produced ∧
      (result.deleted = true ↔ work.produced = 0) := by
  obtain ⟨o, hopen, hwork⟩ := exists_of_ended? h
  obtain ⟨hdone, hsettled, -, -, hfiles⟩ :=
    Run.settled_of_fine hopen hwork rfl hfine
  have hresult := result_settle_of_fine hdry rfl rfl hsettled
  rw [Run.hasFailed_spliced, hclean, if_neg (by simp)] at hresult
  refine ⟨hdone, _, hfiles, ?_⟩
  rw [hresult]
  simp [Run.spliced]

/-- And it is gone in that case, and only then. -/
theorem node?_target_of_clean (hdry : v.settings.dryRun = false)
    (htree : v.before.tree.WellFormed) (hfine : v.after.failure? = none)
    (h : v.ended? = some work) (hclean : work.failed = 0) :
    v.after.tree.node? (v.before.tree.place v.path) = none ↔
      work.produced = 0 := by
  obtain ⟨o, hopen, hwork⟩ := exists_of_ended? h
  obtain ⟨hdone, hsettled, hafter, -, -⟩ :=
    Run.settled_of_fine hopen hwork rfl hfine
  rcases find_of_acquire hopen with ⟨loc, content, mode, hfind⟩ | hfind
  · have hready :=
      ready_of_moved? hdry htree (moved?_eq_some_iff.2 ⟨⟨o, hopen⟩, hfind⟩)
    rw [opened, hready.acquire_eq hdry] at hopen
    obtain rfl := Except.ok.inj hopen
    have hend := hready.outcome hdry
    rw [show v.before.tree.place v.path = loc from place_of_find hfind]
    change (Splice.start v.before.patch (.ofBytes content)).run v.settings
      v.name = work at hwork
    rw [hwork] at hend
    rcases Nat.eq_zero_or_pos work.produced with hzero | hpos
    · obtain ⟨hgone, -⟩ := hend.empty hdone hclean hzero
      exact ⟨fun _ => hzero, fun _ => hgone⟩
    · obtain ⟨hthere, -⟩ := hend.produced hdone hclean hpos
      refine ⟨fun hgone => ?_, fun hzero => absurd hzero (Nat.ne_of_gt hpos)⟩
      exact absurd (hthere.symm.trans hgone) (by simp)
  · obtain ⟨made, hmade, hcreate, rfl⟩ :=
      new_of_notFound hfind (acquired_of_ok hdry hopen).2
    have hworking : ((acquire v.settings v.name v.before.tree).tree.fill
        (v.before.tree.place v.path) work.output).working =
        v.before.tree.working := by
      rw [working_fill, (create_eq_ok hcreate).2.1, hmade.working]
    rw [after, hafter, tree_settle_of_created hdry rfl hsettled,
      Run.hasFailed_spliced, hclean]
    split
    · next hnothing =>
        rw [node?_remove, if_pos]
        · exact iff_of_true rfl (by simpa [Run.spliced] using hnothing.2)
        · exact (place_congr hworking v.path).symm
    · next hsome =>
        refine iff_of_false ?_ fun hzero =>
          hsome ⟨rfl, by simp [Run.spliced, hzero]⟩
        obtain ⟨node, hfind', -⟩ := find_of_create hcreate
        refine node?_fill_ne_none ?_ work.output
        rw [(find_eq_ok_iff.1 hfind').2]
        simp

end Visit

/-- Lines are counted as they are written. When a run of the machine ends as it
should, it has counted the lines that it wrote; the text that they make may have
fewer, where they lack their newlines. A section without failed hunks that is
not tried only takes its target away exactly if it wrote no line. Then the
result is empty, and an empty result that is not taken away comes from a bare
marker at the end of the patch. -/
theorem counts_written_lines (settings : Settings) (patch : Bytes) :
    (∀ name source : Bytes,
      (Splice.runOn settings name patch source).phase = .done →
      Splice.Counted settings.reverse patch source
        (Splice.runOn settings name patch source)) ∧
    ∀ tree : FileTree, settings.dryRun = false → tree.WellFormed →
      ∀ v ∈ Run.visits settings { tree, patch := .ofBytes patch },
        v.after.failure? = none →
        ∀ work ∈ v.ended?, work.failed = 0 →
          (∃ result : FileResult, v.after.files = v.before.files.push result ∧
            result.produced = work.written.size ∧
            (result.deleted = true ↔ work.written = #[])) ∧
          (v.after.tree.node? (v.before.tree.place v.path) = none ↔
            work.written = #[]) ∧
          (work.written = #[] → work.output = []) ∧
          (work.output = [] → work.written = #[] ∨
            patch.lines.getLast? =
              some [Role.insertionMarker settings.reverse]) := by
  refine ⟨fun name source hdone => ?_,
    fun tree hdry htree v hv hfine work hwork hclean => ?_⟩
  · have hfine : (Splice.runOn settings name patch source).failure? = none := by
      rw [Splice.failure?, hdone]
    exact Splice.counted_run (LeftOf.refl _) hfine
  · have hsame : v.settings = settings := Run.settings_of_mem_visits hv
    subst hsame
    have hbefore : v.before.tree.WellFormed :=
      ((Run.leads_visits _ _).wellFormed htree).1 v hv
    obtain ⟨hdone, result, hfiles, hproduced, hdeleted⟩ :=
      v.reported_of_clean hdry hfine hwork hclean
    obtain ⟨content, hcounted⟩ :=
      v.counted_of_ended? hdry (Run.leftOf_visit hv) hwork hdone
    have hnothing : work.produced = 0 ↔ work.written = #[] := by
      rw [hcounted.produced, Array.size_eq_zero_iff]
    rw [← hnothing]
    refine ⟨⟨result, hfiles, ?_, hdeleted⟩,
      v.node?_target_of_clean hdry hbefore hfine hwork hclean, fun hzero => ?_,
      fun hempty => (hcounted.of_output_nil hempty).imp_left hnothing.2⟩
    · rw [hproduced, hcounted.produced]
    · rw [Splice.output, hnothing.1 hzero]
      rfl

/-- The last line of a patch, without its newline, in front of what is left of
a file. -/
def unended : Bytes := Bytes.ascii "@@ -1 +1 @@\n-a\n+b"

/-- A file whose only line is taken away. -/
def emptied : Bytes := Bytes.ascii "--- a/f\n+++ b/f\n@@ -1 +0,0 @@\n-a\n"

/-- The counter is right about the one, and the other is gone. -/
theorem counts_written_lines_emptied :
    Splice.Counted false unended (Bytes.ascii "a\nc\n")
        (Splice.runOn { directory := ⟨.working, []⟩ } [] unended
          (Bytes.ascii "a\nc\n")) ∧
      ∃ v ∈ Run.visits { directory := ⟨.working, []⟩ }
        { tree := .oneFile, patch := .ofBytes emptied },
        v.after.tree.node? (v.before.tree.place v.path) = none := by
  obtain ⟨hruns, -⟩ :=
    counts_written_lines { directory := ⟨.working, []⟩ } unended
  obtain ⟨-, hsections⟩ :=
    counts_written_lines { directory := ⟨.working, []⟩ } emptied
  refine ⟨hruns [] _ (by decide +kernel), ?_⟩
  obtain ⟨v, hv⟩ : ∃ v, (Run.visits { directory := ⟨.working, []⟩ }
      { tree := .oneFile, patch := .ofBytes emptied }).head? = some v :=
    Option.isSome_iff_exists.1 (by decide +kernel)
  have hend : ((Run.visits { directory := ⟨.working, []⟩ }
      { tree := .oneFile, patch := .ofBytes emptied }).head?.bind fun v =>
      v.ended?.map fun work =>
        (v.after.failure?.isNone, work.failed, work.written.size)) =
      some (true, 0, 0) := by
    decide +kernel
  rw [hv, Option.bind_some] at hend
  obtain ⟨work, hwork, hcounts⟩ := Option.map_eq_some_iff.1 hend
  simp only [Prod.mk.injEq, Option.isNone_iff_eq_none,
    Array.size_eq_zero_iff] at hcounts
  obtain ⟨hfine, hclean, hnothing⟩ := hcounts
  have hmem := List.mem_of_head? hv
  obtain ⟨-, hgone, -⟩ :=
    hsections .oneFile rfl (by decide) v hmem hfine work hwork hclean
  exact ⟨v, hmem, hgone.2 hnothing⟩

/-- A bare marker is counted and makes no line. -/
theorem not_forall_counts_lines :
    ¬ ∀ (settings : Settings) (name patch source : Bytes),
      (Splice.runOn settings name patch source).phase = .done →
      (Splice.runOn settings name patch source).produced =
        (Splice.runOn settings name patch source).output.lines.length := by
  intro h
  have hcount := h { directory := ⟨.working, []⟩ } []
    (Bytes.ascii "@@ -0,0 +1 @@\n+") [] (by decide +kernel)
  exact absurd hcount (by decide +kernel)

end UnifiedPatch
