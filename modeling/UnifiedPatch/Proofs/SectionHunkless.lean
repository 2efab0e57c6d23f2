import UnifiedPatch.Proofs.SectionContract
import UnifiedPatch.Proofs.SpliceBody

/-!
# Sections without hunks

The rest of a source is copied only after a hunk was placed by its line number.
A section without hunks therefore copies nothing, counts no line, and has no
failed hunk; settling takes it for one whose result is empty and removes the
target together with the backup just made of it. So a patch without hunks takes
away the files that its sections name, unless the run is a dry one. It keeps
every file of the tree exactly if the run is dry or it names none of them.

The argument is one about files alone. A section adds none and changes none,
none is left at its target, and it takes one away only if its target was one
(`Cleared`). These statements hold of a list of sections as they hold of one,
with the targets of all of them.
-/

namespace UnifiedPatch

/-- Whether a line reads as a hunk header. -/
def Hunk.isReadable (line : Line) : Bool :=
  match readHeader line with
  | .ok (some _) => true
  | _ => false

/-- No line of a patch reads as a hunk header. -/
def Hunkless (lines : List Line) : Prop :=
  ∀ line ∈ lines, Hunk.isReadable line = false

instance (lines : List Line) : Decidable (Hunkless lines) :=
  inferInstanceAs (Decidable (∀ line ∈ lines, _))

theorem Hunkless.of_suffix {lines more : List Line} (h : Hunkless lines)
    (hmore : more <:+ lines) : Hunkless more :=
  fun line hline => h line (hmore.subset hline)

theorem Hunk.isHeader_of_readHeader {line : Line}
    (h : readHeader line = .ok none) :
    isHeader line = false := by
  unfold readHeader at h
  unfold isHeader
  split at h
  · next hruns =>
      rw [hruns]
      rfl
  · next runs _ =>
      cases hnumbers : ofRuns runs with
      | ok hunk =>
          rw [hnumbers] at h
          nomatch h
      | error overlong =>
          rw [hnumbers] at h
          nomatch h

/-! ## The work of such a section -/

namespace Splice

variable {settings : Settings} {name : Bytes} {patch source : LineStream}

theorem failure?_run_of_overlong {line : Line} {rest : List Line}
    {overlong : Hunk.OverlongRun} (hready : patch.ready = line :: rest)
    (hread : Hunk.readHeader line = .error overlong) :
    ((start patch source).run settings name).failure? =
      some (.overlong overlong) := by
  have hstep : (start patch source).step settings name =
      { start patch source with
          patch := patch.skip 1, phase := .stopped (.overlong overlong) } := by
    simp only [step, start, stepHeader, LineStream.next?_eq_skip hready, hread]
  rw [← run_step, hstep, run_of_not_isLive settings name rfl]
  rfl

/-- Without a header nothing is copied and nothing counted. -/
theorem run_of_hunkless (h : Hunkless patch.ready)
    (hfine : ((start patch source).run settings name).failure? = none) :
    ((start patch source).run settings name).output = [] ∧
      ((start patch source).run settings name).failed = 0 ∧
      ((start patch source).run settings name).produced = 0 ∧
      ((start patch source).run settings name).patch.ready = patch.ready := by
  have hhead : ∀ line ∈ patch.ready.head?, Hunk.isHeader line = false := by
    intro line hline
    obtain ⟨rest, hready⟩ := List.head?_eq_some_iff.1 hline
    have hnot := h line (by rw [hready]; exact List.mem_cons_self)
    unfold Hunk.isReadable at hnot
    cases hread : Hunk.readHeader line with
    | error overlong =>
        rw [failure?_run_of_overlong hready hread] at hfine
        exact absurd hfine (by simp)
    | ok found =>
        cases found with
        | none => exact Hunk.isHeader_of_readHeader hread
        | some hunk =>
            rw [hread] at hnot
            exact absurd hnot (by simp)
  obtain ⟨p, hp, hrun⟩ :=
    run_header_end settings name (s := start patch source) rfl hhead
  rw [hrun, ← run_step, run_of_not_isLive settings name rfl]
  exact ⟨rfl, rfl, rfl, hp⟩

end Splice

namespace Section

theorem ready_seekOld (s : LineStream) : (seekOld s).2.ready <:+ s.ready := by
  fun_induction seekOld s with
  | case1 => exact List.suffix_refl _
  | case2 s line rest h _ =>
      rw [LineStream.ready_of_next? h]
      exact List.suffix_cons _ _
  | case3 s line rest h _ ih =>
      rw [LineStream.ready_of_next? h]
      exact ih.trans (List.suffix_cons _ _)

theorem ready_next (level : Int) (s : LineStream) :
    (next level s).2.ready <:+ s.ready := by
  have hseek := ready_seekOld s
  unfold next
  split
  · next hs =>
      rw [hs] at hseek
      exact hseek
  · next hs =>
      rw [hs] at hseek
      split
      · exact hseek
      · next hn =>
          have hrest := LineStream.ready_of_next? hn
          have hsuffix := (hrest ▸ List.suffix_cons _ _).trans hseek
          split <;> exact hsuffix

end Section

/-! ## Trees from which files have gone -/

namespace FileTree

/-- The content and the mode of the regular file at a location. -/
def file? (t : FileTree) (loc : Location) : Option (Bytes × Nat) :=
  match t.node? loc with
  | some (.file content mode) => some (content, mode)
  | _ => none

theorem file?_congr {t t' : FileTree} {loc loc' : Location}
    (h : t.node? loc = t'.node? loc') :
    t.file? loc = t'.file? loc' := by
  rw [file?, file?, h]

theorem file?_eq_none {t : FileTree} {loc : Location}
    (h : ∀ content mode, t.node? loc ≠ some (.file content mode)) :
    t.file? loc = none := by
  unfold file?
  split
  · next hnode => exact absurd hnode (h _ _)
  · rfl

/-- Directories that were made are no files. -/
theorem DirectoriesMade.file?_eq {t t' : FileTree} (h : t.DirectoriesMade t')
    (loc : Location) :
    t'.file? loc = t.file? loc := by
  rcases h.node? loc with heq | ⟨hnone, hdir⟩
  · exact file?_congr heq
  · rw [file?, file?, hnone, hdir]

/-- Files have gone: those at `goals`, and others only if there was one. -/
structure Cleared (t t' : FileTree) (goals : List Location) : Prop where
  working : t'.working = t.working
  file? : ∀ loc, t'.file? loc = t.file? loc ∨ t'.file? loc = none
  gone : ∀ goal ∈ goals, t'.file? goal = none
  spared : (∀ goal ∈ goals, t.file? goal = none) →
    ∀ loc, t'.file? loc = t.file? loc

theorem Cleared.refl (t : FileTree) : t.Cleared t [] :=
  ⟨rfl, fun _ => .inl rfl, by simp, fun _ _ => rfl⟩

theorem Cleared.file?_eq_none {t t' : FileTree} {goals : List Location}
    (h : t.Cleared t' goals) {loc : Location} (hnone : t.file? loc = none) :
    t'.file? loc = none := by
  rcases h.file? loc with heq | heq
  · exact heq.trans hnone
  · exact heq

theorem Cleared.trans {t t' t'' : FileTree} {goals goals' : List Location}
    (h : t.Cleared t' goals) (h' : t'.Cleared t'' goals') :
    t.Cleared t'' (goals ++ goals') := by
  refine ⟨h'.working.trans h.working, fun loc => ?_, fun goal hgoal => ?_,
    fun hnone loc => ?_⟩
  · rcases h'.file? loc with heq | heq
    · rw [heq]
      exact h.file? loc
    · exact .inr heq
  · rcases List.mem_append.1 hgoal with hmem | hmem
    · exact h'.file?_eq_none (h.gone goal hmem)
    · exact h'.gone goal hmem
  · have hspared :=
      h.spared (fun goal hgoal => hnone goal (List.mem_append_left _ hgoal)) loc
    rw [← hspared]
    refine h'.spared (fun goal hgoal => ?_) loc
    exact h.file?_eq_none (hnone goal (List.mem_append_right _ hgoal))

theorem cleared_singleton {t t' : FileTree} {goal : Location}
    (hworking : t'.working = t.working) (hgone : t'.node? goal = none)
    (helse : ∀ loc, loc ≠ goal →
      t'.file? loc = t.file? loc ∨ t'.file? loc = none ∧ t.file? goal ≠ none) :
    t.Cleared t' [goal] := by
  have hnone : t'.file? goal = none := by
    rw [FileTree.file?, hgone]
  refine ⟨hworking, fun loc => ?_, fun place hplace => ?_, fun hempty loc => ?_⟩
  · by_cases hloc : loc = goal
    · exact .inr (hloc ▸ hnone)
    · exact (helse loc hloc).imp_right And.left
  · rw [List.mem_singleton.1 hplace]
    exact hnone
  · have hfree := hempty goal (List.mem_singleton_self goal)
    by_cases hloc : loc = goal
    · rw [hloc, hnone, hfree]
    · exact (helse loc hloc).resolve_right fun h => h.2 hfree

end FileTree

/-! ## One section -/

namespace Run

open FileTree Target

variable {settings : Settings} {name : Bytes} {path : Path}
  {tree tree' : FileTree} {loc : Location} {result : FileResult}

theorem cleared_of_patched {aside : Location} {content : Bytes} {mode : Nat}
    (hdry : settings.dryRun = false) (hnull : path.hasNull = false)
    (found : tree.find path = .ok (loc, .file content mode))
    (room : tree.locate (path.withSuffix backupEnding) = .ok aside)
    (free : tree.node? aside ≠ some .directory)
    (hclean : result.hasFailed = false) (hproduced : result.produced = 0)
    (hfine : ((patched name path).settle settings result
      (tree.kept loc aside content mode [])).failure? = none) :
    tree.Cleared ((patched name path).settle settings result
      (tree.kept loc aside content mode [])).tree [tree.place path] := by
  have hsettle : (patched name path).settle settings result
      (tree.kept loc aside content mode []) =
        (patched name path).dropEmpty settings { result with backup := none }
          ((tree.kept loc aside content mode []).remove aside) :=
    settle_patched hnull found room free [] hclean
  rw [hsettle] at hfine ⊢
  rw [tree_dropEmpty hdry
    (show ({ result with backup := none } : FileResult).produced = 0
    from hproduced) hfine]
  have hplace :
      ((tree.kept loc aside content mode []).remove aside).place path =
        tree.place path := rfl
  have hloc := place_of_find found
  have hfile : tree.file? loc = some (content, mode) := by
    rw [file?, (find_eq_ok_iff.1 found).2]
  rw [show (patched name path).path = path from rfl, hplace, hloc]
  refine cleared_singleton rfl ?_ fun place hne => ?_
  · rw [node?_remove, if_pos rfl]
  · by_cases heq : place = aside
    · refine .inr ⟨file?_eq_none ?_, by rw [hfile]; simp⟩
      intro c m
      rw [node?_remove, if_neg hne, node?_remove, if_pos heq]
      simp
    · refine .inl (file?_congr ?_)
      rw [node?_remove, if_neg hne, node?_remove, if_neg heq, node?_kept,
        if_neg hne, if_neg heq]

theorem cleared_of_created {made : FileTree} {target : Target}
    (hdry : settings.dryRun = false) (hpath : target.path = path)
    (hbackup : target.backup = none) (parents : tree.DirectoriesMade made)
    (created : made.create path newFileMode = .ok (tree', loc))
    (hclean : result.hasFailed = false) (hproduced : result.produced = 0)
    (hfine : (target.settle settings result (tree'.fill loc [])).failure? =
      none) :
    tree.Cleared (target.settle settings result (tree'.fill loc [])).tree
      [tree.place path] := by
  obtain ⟨hlocate, hworking, helse⟩ := create_eq_ok created
  have hworking' : (tree'.fill loc []).working = tree.working :=
    (working_fill ..).trans (hworking.trans parents.working)
  have hloc : tree.place path = loc :=
    (place_congr parents.working path).symm.trans (place_of_locate hlocate)
  have hdrop : target.dropBackup result (tree'.fill loc []) =
      { tree := tree'.fill loc [], result } := dropBackup_of_none hbackup
  rw [settle_of_dropBackup hclean (by rw [hdrop]), hdrop] at hfine ⊢
  rw [tree_dropEmpty hdry hproduced hfine, hpath, place_congr hworking', hloc]
  refine cleared_singleton hworking' ?_ fun place hne => .inl ?_
  · rw [node?_remove, if_pos rfl]
  · have hnode : ((tree'.fill loc []).remove loc).node? place =
        made.node? place := by
      rw [node?_remove, if_neg hne, node?_fill_of_ne hne, helse place hne]
    rw [file?_congr hnode]
    exact parents.file?_eq place

/-- A section without hunks clears its target. -/
theorem applySection_of_hunkless {r : Run} (hdry : settings.dryRun = false)
    (hpatch : Hunkless r.patch.ready)
    (hfine : (r.applySection settings name).failure? = none) :
    ∃ result : FileResult,
      (r.applySection settings name).files = r.files.push result ∧
      (r.applySection settings name).patch.ready = r.patch.ready ∧
      r.tree.Cleared (r.applySection settings name).tree
        [r.tree.place result.path] := by
  obtain ⟨o, hopen⟩ := exists_open_of_fine hfine
  obtain ⟨hnull, hacquired⟩ := acquired_of_ok hdry hopen
  obtain ⟨hdone, hsettled, htree, hrest, hfiles⟩ :=
    settled_of_fine hopen rfl rfl hfine
  obtain ⟨houtput, hfailed, hproduced, hleft⟩ :=
    Splice.run_of_hunkless hpatch hdone
  refine ⟨_, hfiles, by rw [hrest, hleft], ?_⟩
  rw [htree, path_settle]
  have hclean : (spliced o.target
      ((Splice.start r.patch o.source).run settings name)).hasFailed =
      false := by
    rw [hasFailed_spliced, hfailed]
    rfl
  have hnone : (spliced o.target
      ((Splice.start r.patch o.source).run settings name)).produced = 0 := by
    simp [spliced, hproduced]
  rw [houtput] at hsettled ⊢
  generalize (acquire settings name r.tree).tree = tree' at hacquired hsettled ⊢
  cases hacquired with
  | @existing content mode loc aside found room free =>
      have hclose : OpenTarget.close
          { target := patched name (settings.directory.join name)
            source := .ofBytes content, sink := some loc } []
          (r.tree.moved loc aside content mode) =
            r.tree.kept loc aside content mode [] :=
        fill_moved ..
      rw [hclose] at hsettled ⊢
      exact cleared_of_patched hdry hnull found room free hclean hnone hsettled
  | new parents created =>
      exact cleared_of_created hdry rfl rfl parents created hclean
        hnone hsettled

/-! ## All sections -/

/-- Sections without hunks, one after another, clear the targets of all
of them. -/
theorem applySections_of_hunkless {r : Run} (hdry : settings.dryRun = false)
    (hpatch : Hunkless r.patch.ready)
    (hfine : (r.applySections settings).failure? = none) :
    ∃ results : List FileResult,
      (r.applySections settings).files.toList = r.files.toList ++ results ∧
      r.tree.Cleared (r.applySections settings).tree
        (results.map fun result => r.tree.place result.path) := by
  fun_induction applySections settings r with
  | case1 r e patch h => exact absurd hfine (by simp [fail])
  | case2 r patch h => exact ⟨[], by simp [say], .refl _⟩
  | case3 r name patch h next why hwhy =>
      exact absurd (hwhy.symm.trans hfine) (by simp)
  | case4 r name patch h next hnext ih =>
      have hsuffix := Section.ready_next settings.stripLevel r.patch
      rw [h] at hsuffix
      obtain ⟨result, hfiles, hrest, hcleared⟩ :=
        applySection_of_hunkless hdry (hpatch.of_suffix hsuffix) hnext
      obtain ⟨results, hall, hmore⟩ :=
        ih (hrest ▸ hpatch.of_suffix hsuffix) hfine
      have hplaces : (results.map fun result => next.tree.place result.path) =
          results.map fun result => r.tree.place result.path :=
        List.map_congr_left fun result _ => place_congr hcleared.working _
      refine ⟨result :: results, ?_, ?_⟩
      · rw [hall, hfiles]
        simp [say]
      · rw [List.map_cons, ← hplaces]
        exact hcleared.trans hmore

/-- A dry section leaves the tree as it is. -/
theorem tree_applySection_of_dryRun {r : Run} (hdry : settings.dryRun = true) :
    (r.applySection settings name).tree = r.tree := by
  obtain ⟨htree, hopened⟩ := acquire_of_dryRun name r.tree hdry
  cases hopen : (acquire settings name r.tree).result with
  | error why => exact (applySection_of_error hopen).1.trans htree
  | ok o =>
      obtain ⟨hsink, hbackup⟩ := hopened o hopen
      have hclose : ∀ output,
          o.close output (acquire settings name r.tree).tree = r.tree := by
        intro output
        rw [OpenTarget.close, hsink]
        exact htree
      cases hdone :
        ((Splice.start r.patch o.source).run settings name).failure? with
      | some why =>
          exact (applySection_of_stopped hopen rfl hdone).1.trans (hclose _)
      | none =>
          refine (applySection_of_settled hopen rfl hdone rfl).1.trans ?_
          rw [settle_of_dryRun hdry hbackup, hclose]

theorem tree_applySections_of_dryRun {r : Run} (hdry : settings.dryRun = true) :
    (r.applySections settings).tree = r.tree := by
  fun_induction applySections settings r with
  | case1 => rfl
  | case2 => rfl
  | case3 r name patch h next why hwhy => exact tree_applySection_of_dryRun hdry
  | case4 r name patch h next hnext ih =>
      exact ih.trans (tree_applySection_of_dryRun hdry)

end Run

/-- A patch without hunks that is applied without failure keeps every file of
the tree exactly if the run is dry or no file is there for a section to apply
to. -/
theorem applyPatch_keeps_iff (settings : Settings) (patch : Bytes)
    (tree : FileTree) (hpatch : Hunkless patch.lines)
    (hfine : (applyPatch settings patch tree).failure? = none) :
    (∀ loc file, tree.file? loc = some file →
        (applyPatch settings patch tree).tree.file? loc = some file) ↔
      settings.dryRun = true ∨
        ∀ result ∈ (applyPatch settings patch tree).files,
          tree.file? (tree.place result.path) = none := by
  unfold applyPatch at hfine ⊢
  cases hdry : settings.dryRun with
  | true =>
      rw [Run.tree_applySections_of_dryRun hdry]
      simp
  | false =>
      obtain ⟨results, hfiles, hcleared⟩ :=
        Run.applySections_of_hunkless hdry hpatch hfine
      have hmem : ∀ result, result ∈ (Run.applySections settings
          { tree, patch := .ofBytes patch }).files ↔ result ∈ results := by
        intro result
        rw [← Array.mem_toList_iff, hfiles]
        simp
      constructor
      · intro hkept
        refine .inr fun result hresult => ?_
        have hgone :=
          hcleared.gone _ (List.mem_map_of_mem ((hmem result).1 hresult))
        cases hfile : tree.file? (tree.place result.path) with
        | none => rfl
        | some file =>
            exact absurd ((hkept _ file hfile).symm.trans hgone) (by simp)
      · rintro (hdry' | hnone) loc file hfile
        · exact absurd hdry' (by simp)
        · rw [hcleared.spared ?_ loc, hfile]
          intro goal hgoal
          obtain ⟨result, hresult, rfl⟩ := List.mem_map.1 hgoal
          exact hnone result ((hmem result).2 hresult)

/-- A section without hunks on a file that is not there harms no other. -/
theorem applyPatch_keeps_other :
    (applyPatch { directory := ⟨.working, []⟩ }
      (Bytes.ascii "--- a/g\n+++ b/g\n")
      .oneFile).tree.file? [Bytes.ascii "f", Bytes.ascii "w"] =
        some (Bytes.ascii "a\n", 0o600) :=
  (applyPatch_keeps_iff _ _ _ (by decide) (by decide +kernel)).2
    (.inr (by decide +kernel))
    _ _ (by decide)

/-- A section without hunks on a file that is there takes it away. -/
theorem not_forall_hunkless_keeps :
    ¬ ∀ (settings : Settings) (patch : Bytes)
      (tree : FileTree), Hunkless patch.lines →
      (applyPatch settings patch tree).failure? = none →
      ∀ loc file, tree.file? loc = some file →
        (applyPatch settings patch tree).tree.file? loc = some file := by
  intro h
  have hkept := h { directory := ⟨.working, []⟩ }
    (Bytes.ascii "--- a/f\n+++ b/f\n") .oneFile
    (by decide) (by decide +kernel) [Bytes.ascii "f", Bytes.ascii "w"]
    (Bytes.ascii "a\n", 0o600) (by decide)
  exact absurd hkept (by decide +kernel)

end UnifiedPatch
