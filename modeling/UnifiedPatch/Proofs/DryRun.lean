import UnifiedPatch.Proofs.SectionHunkless
import UnifiedPatch.Proofs.SectionsMet
import UnifiedPatch.Proofs.TreeDrift

/-!
# Dry runs

A dry run opens no file for writing, makes no directory, moves nothing and
removes nothing: the tree at its end is the tree it was given, however it ends.

It is made to say beforehand what a run would say. The two runs go through the
same sections with the same lines of the patch, and only the tree under the one
of them moves. As long as every section's places are apart from those of the
others, each finds in the moved tree what the dry run finds in the first one
(`Drift`), and all that is done to lines has no part in it: the splicing does
not look at whether the run is dry, and settling reports what was spliced. So
after each section the reports agree (`Shadows.applySection`), and they agree at
the end unless the other run met a fault of the tree, which a dry run has no
occasion for.

The places of paths that go up through a directory not there yet are not told by
the tree, and a dry run does not make the directory (`not_forall_dryRun`).
-/

namespace UnifiedPatch

/-- The settings of a dry run that is like another run otherwise. -/
def Settings.dry (settings : Settings) : Settings :=
  { settings with dryRun := true }

/-- What is reported of a file: its path, and how many hunks it had, how many of
them failed, and how many lines were produced. -/
def FileResult.counts (r : FileResult) : Path × Int × Int × Int :=
  (r.path, r.hunks, r.failed, r.produced)

namespace Splice

variable (settings : Settings) (name : Bytes)

/-- The splicing does not look at whether the run is dry. -/
theorem run_dry (s : Splice) :
    s.run settings.dry name = s.run settings name := by
  fun_induction run settings name s with
  | case1 s h ih =>
      rw [run, if_pos h]
      exact ih
  | case2 s h => exact run_of_not_isLive _ name (by simpa using h)

end Splice

/-! ## Opening and settling, dry or not -/

namespace Target

open FileTree

variable {settings : Settings} {name : Bytes} {path : Path}
  {tree tree' : FileTree} {why : Failure}

theorem acquire_of_irregular {loc : Location} {node : Node}
    (hnull : (settings.directory.join name).hasNull = false)
    (hfind : tree.find (settings.directory.join name) = .ok (loc, node))
    (hnode : ∀ content mode, node ≠ .file content mode) :
    ∃ why, (acquire settings name tree).result = .error why ∧
      why.isIO = true := by
  unfold acquire
  simp only [hnull, Bool.false_eq_true, if_false, hfind]
  cases node with
  | directory => exact ⟨_, rfl, rfl⟩
  | device => exact ⟨_, rfl, rfl⟩
  | file content mode => exact absurd rfl (hnode content mode)

/-- In a tree that has drifted a target is opened as in the first one, if there
is no fault of the tree: it reads the same. -/
theorem acquire_of_drift {touched : List Location}
    (hdry : settings.dryRun = false) (htree : tree.WellFormed)
    (hp : tree.Straight (settings.directory.join name))
    (hdrift : tree.Drift tree' touched)
    (haway : ∀ site ∈ touched,
      site.Apart (tree.place (settings.directory.join name))) :
    (∃ why, (acquire settings name tree').result = .error why ∧
      (why.isIO = true ∨ (acquire settings.dry name tree).result =
        .error why)) ∨
      ∃ o o', (acquire settings name tree').result = .ok o ∧
        (acquire settings.dry name tree).result = .ok o' ∧
        o'.source = o.source := by
  cases hnull : (settings.directory.join name).hasNull with
  | true =>
      exact .inl ⟨.nullByte, acquire_of_hasNull hnull,
        .inr (show (acquire settings.dry name tree).result = _ from
          acquire_of_hasNull hnull)⟩
  | false =>
      cases hfind : tree.find (settings.directory.join name) with
      | error e =>
          by_cases hnone : e = .notFound
          · subst hnone
            obtain ⟨e', hfind'⟩ := hdrift.find_notFound htree hp haway hfind
            by_cases hnone' : e' = .notFound
            · subst hnone'
              have hdry' : acquire settings.dry name tree =
                  openNew settings.dry name _ tree :=
                acquire_of_notFound hnull hfind
              rw [acquire_of_notFound hnull hfind', hdry']
              rcases openNew_cases settings name
                  (settings.directory.join name) tree' with
                ⟨e, herror⟩ | ⟨o, hopen, hsource⟩
              · exact .inl ⟨_, herror, .inl rfl⟩
              · exact .inr ⟨o, _, hopen, rfl, hsource.symm⟩
            · exact .inl ⟨_, acquire_of_fault hnull hfind' hnone', .inl rfl⟩
          · exact .inl ⟨_, acquire_of_fault hnull
              (hdrift.find_error hp haway hnone hfind) hnone, .inl rfl⟩
      | ok found =>
          obtain ⟨loc, node⟩ := found
          have hfind' := hdrift.find_ok haway hfind
          cases node with
          | directory =>
              obtain ⟨why, hwhy, hio⟩ :=
                acquire_of_irregular hnull hfind' (by simp)
              exact .inl ⟨why, hwhy, .inl hio⟩
          | device =>
              obtain ⟨why, hwhy, hio⟩ :=
                acquire_of_irregular hnull hfind' (by simp)
              exact .inl ⟨why, hwhy, .inl hio⟩
          | file content mode =>
              have hdry' : acquire settings.dry name tree =
                  openExisting settings.dry name _ content mode tree :=
                acquire_of_file hnull hfind
              rw [acquire_of_file hnull hfind', hdry']
              rcases openExisting_cases name hdry hfind' with
                ⟨e, heq⟩ | ⟨aside, -, -, heq⟩
              · rw [heq]
                exact .inl ⟨_, rfl, .inl rfl⟩
              · rw [heq]
                exact .inr ⟨_, _, rfl, rfl, rfl⟩

variable {target : Target} {result : FileResult}

theorem counts_settle (settings : Settings) (target : Target)
    (result : FileResult) (tree : FileTree) :
    (settle settings target result tree).result.counts = result.counts := by
  obtain ⟨backup, deleted, h⟩ := result_settle settings target result tree
  rw [h]
  rfl

theorem failure?_settle_of_dryRun (hdry : settings.dryRun = true)
    (hbackup : target.backup = none) :
    (settle settings target result tree).failure? = none := by
  unfold settle
  split
  · rfl
  · simp only [dropBackup_of_none hbackup, dropEmpty, hdry,
      Bool.true_or, if_true]

end Target

/-! ## Runs that report the same -/

/-- The runs report the same: the same files with the same counts, the same
notices, and the same failure, if there is one. -/
structure SameReport (r d : Run) : Prop where
  counts : d.files.toList.map FileResult.counts =
    r.files.toList.map FileResult.counts
  notices : d.said.notices = r.said.notices
  failure? : d.failure? = r.failure?

namespace SameReport

variable {r d : Run}

theorem exitStatus (h : SameReport r d) : d.exitStatus = r.exitStatus := by
  have hfailed : ∀ files : List FileResult,
      (files.filter FileResult.hasFailed).isEmpty =
      ((files.map FileResult.counts).filter
        fun c => decide (0 < c.2.2.1)).isEmpty := by
    intro files
    rw [List.filter_map, List.isEmpty_map]
    rfl
  unfold Run.exitStatus Run.failedFiles
  rw [hfailed, hfailed, h.counts]

theorem say {said said' : Transcript} (h : SameReport r d)
    (hsaid : said'.notices = said.notices) :
    SameReport (r.say said) (d.say said') := by
  refine ⟨h.counts, ?_, h.failure?⟩
  rw [Run.say, Run.say, Transcript.notices_append, Transcript.notices_append,
    h.notices, hsaid]

theorem fail (h : SameReport r d) (why : Failure) :
    SameReport (r.fail why) (d.fail why) :=
  ⟨h.counts, h.notices, rfl⟩

theorem push {result result' : FileResult} (h : SameReport r d)
    (hresult : result'.counts = result.counts) :
    SameReport { r with files := r.files.push result }
      { d with files := d.files.push result' } := by
  refine ⟨?_, h.notices, h.failure?⟩
  simp [h.counts, hresult]

theorem move (h : SameReport r d) (tree tree' : FileTree) (p p' : LineStream) :
    SameReport { r with tree := tree, patch := p }
      { d with tree := tree', patch := p' } :=
  ⟨h.counts, h.notices, h.failure?⟩

end SameReport

/-! ## A section in both runs -/

namespace Run

open FileTree Target

variable {settings : Settings} {name : Bytes} {tree : FileTree} {r d : Run}

theorem sameReport_finishSection {target target' : Target} (work : Splice)
    (h : SameReport r d) (hpath : target'.path = target.path)
    (hnull : target.path.hasNull = false)
    (hbackup : ∀ backup ∈ target.backup, backup.hasNull = false)
    (hbackup' : target'.backup = none) :
    (∃ why, (r.finishSection settings target work).failure? = some why ∧
      why.isIO = true) ∨
      SameReport (r.finishSection settings target work)
        (d.finishSection settings.dry target' work) := by
  have hfine :
      (target'.settle settings.dry (spliced target' work) d.tree).failure? =
        none :=
    failure?_settle_of_dryRun rfl hbackup'
  have hcounts : (spliced target' work).counts =
      (spliced target work).counts := by
    simp [spliced, FileResult.counts, hpath]
  have hsaid :
      (target'.settle settings.dry (spliced target' work) d.tree).said.notices =
      (target.settle settings (spliced target work) r.tree).said.notices := by
    rw [(said_settle _ _ _ _).1, (said_settle _ _ _ _).1, hasFailed_spliced,
      hasFailed_spliced]
    rfl
  unfold finishSection
  simp only [hfine]
  cases hsettled :
    (target.settle settings (spliced target work) r.tree).failure? with
  | some why => exact .inl ⟨why, rfl, isIO_of_settle hnull hbackup hsettled⟩
  | none =>
      refine .inr (((h.move _ _ _ _).say hsaid).push ?_)
      rw [counts_settle, counts_settle, hcounts]

/-- A section reports the same in both runs, unless the other one meets a fault
of the tree. -/
theorem sameReport_applySection {touched : List Location}
    (hdry : settings.dryRun = false) (htree : d.tree.WellFormed)
    (hp : d.tree.Straight (settings.directory.join name))
    (hdrift : d.tree.Drift r.tree touched)
    (haway : ∀ site ∈ touched,
      site.Apart (d.tree.place (settings.directory.join name)))
    (hpatch : d.patch = r.patch) (h : SameReport r d) :
    (∃ why, (r.applySection settings name).failure? = some why ∧
      why.isIO = true) ∨
      SameReport (r.applySection settings name)
        (d.applySection settings.dry name) ∧
        ((r.applySection settings name).failure? = none →
          (d.applySection settings.dry name).patch =
            (r.applySection settings name).patch) := by
  have hsaid : (acquire settings.dry name d.tree).said.notices =
      (acquire settings name r.tree).said.notices := by
    rw [(said_acquire _ _ _).1, (said_acquire _ _ _).1]
  rcases acquire_of_drift hdry htree hp hdrift haway with
    ⟨why, hreal, hio | hsame⟩ | ⟨o, o', hopen, hopen', hsource⟩
  · exact .inl ⟨why, (applySection_of_error hreal).2.2, hio⟩
  · refine .inr ⟨?_, fun hfine => ?_⟩
    · rw [applySection_eq_of_error hreal, applySection_eq_of_error hsame]
      exact ((h.move _ _ _ _).say hsaid).fail why
    · rw [(applySection_of_error hreal).2.2] at hfine
      exact absurd hfine (by simp)
  · have hnull := hasNull_of_acquire hopen
    have hpath := path_acquire hopen
    have hwork : (Splice.start d.patch o'.source).run settings.dry name =
        (Splice.start r.patch o.source).run settings name := by
      rw [hsource, hpatch, Splice.run_dry]
    rw [applySection_eq_of_ok hopen rfl, applySection_eq_of_ok hopen' hwork]
    generalize (Splice.start r.patch o.source).run settings name = work
    have hworked : SameReport (r.worked settings name o work)
        (d.worked settings.dry name o' work) :=
      (((h.move _ _ _ _).say hsaid).move _ _ _ _).say rfl
    cases hdone : work.failure? with
    | some why =>
        exact .inr ⟨hworked.fail why,
          fun hfine => absurd hfine (by simp [fail])⟩
    | none =>
        refine (sameReport_finishSection work hworked ?_ ?_ ?_ ?_).imp_right
          fun hsame => ⟨hsame, fun _ => ?_⟩
        · exact (path_acquire hopen').trans hpath.symm
        · rw [hpath]
          exact hnull
        · intro backup hmem
          rw [backup_acquire hopen backup hmem]
          exact Path.hasNull_withSuffix hnull (by decide)
        · exact ((acquire_of_dryRun name d.tree rfl).2 o' hopen').2
        · rw [patch_finishSection, patch_finishSection]
          rfl

/-! ## All sections -/

/-- A dry run beside the other one: the reports agree so far, both are
before the same lines, and the tree of the other run has drifted at the
sections it met. -/
structure Shadows (settings : Settings) (first : FileTree) (r d : Run) :
    Prop where
  report : SameReport r d
  patch : d.patch = r.patch
  tree : d.tree = first
  drift : first.Drift r.tree (r.said.sections.flatMap (sites settings first))

/-- Both runs come to the same section. -/
theorem Shadows.next_eq {first : FileTree} (h : Shadows settings first r d) :
    Section.next settings.dry.stripLevel d.patch =
      Section.next settings.stripLevel r.patch := by
  rw [h.patch]
  rfl

theorem Shadows.applySection {first : FileTree} (hdry : settings.dryRun = false)
    (htree : first.WellFormed)
    (hp : first.Straight (settings.directory.join name))
    (haway : ∀ site ∈ r.said.sections.flatMap (sites settings first),
      site.Apart (first.place (settings.directory.join name)))
    (h : Shadows settings first r d) (p : LineStream) :
    (∃ why,
        ((r.entering name p).applySection settings name).failure? = some why ∧
        why.isIO = true) ∨
      SameReport ((r.entering name p).applySection settings name)
          ((d.entering name p).applySection settings.dry name) ∧
        (((r.entering name p).applySection settings name).failure? = none →
          Shadows settings first
            ((r.entering name p).applySection settings name)
            ((d.entering name p).applySection settings.dry name)) := by
  obtain ⟨hreport, -, rfl, hdrift⟩ := h
  have hentering : SameReport (r.entering name p) (d.entering name p) :=
    (hreport.move _ _ _ _).say rfl
  have hsame := sameReport_applySection (r := r.entering name p)
    (d := d.entering name p) hdry
    htree hp hdrift haway rfl hentering
  refine hsame.imp_right fun ⟨hreport', hpatch'⟩ => ⟨hreport', fun hfine => ?_⟩
  refine ⟨hreport', hpatch' hfine, ?_, ?_⟩
  · exact tree_applySection_of_dryRun rfl
  · rw [sections_applySection_entering, List.flatMap_append]
    have hmoved := drift_applySection (r := r.entering name p) hdry
      (hdrift.dirs.straight hp) hfine
    refine (hdrift.mono (by simp)).trans (hmoved.mono ?_)
    have hsites : sites settings (r.entering name p).tree name =
        sites settings d.tree name := by
      have hplace : ∀ q, (r.entering name p).tree.place q = d.tree.place q :=
        place_congr hdrift.dirs.working
      rw [sites, sites, hplace, hplace]
    rw [hsites]
    simp

/-- The places of two sections are apart. -/
def SectionsApart (settings : Settings) (tree : FileTree) (a b : Bytes) :
    Prop :=
  ∀ site ∈ sites settings tree a, ∀ site' ∈ sites settings tree b,
    site.Apart site'

instance (settings : Settings) (tree : FileTree) (a b : Bytes) :
    Decidable (SectionsApart settings tree a b) :=
  inferInstanceAs (Decidable (∀ site ∈ _, ∀ site' ∈ _, _))

theorem apart_of_pairwise {first : FileTree} {names : List Bytes}
    (h : (names ++ [name]).Pairwise (SectionsApart settings first)) :
    ∀ site ∈ names.flatMap (sites settings first),
      site.Apart (first.place (settings.directory.join name)) := by
  intro site hsite
  obtain ⟨other, hother, hmem⟩ := List.mem_flatMap.1 hsite
  exact (List.pairwise_append.1 h).2.2 other hother name (by simp) site hmem _
    (by simp [sites])

/-- Beside a run that meets no fault of the tree the dry run reports
the same. -/
theorem Shadows.applySections {first : FileTree}
    (hdry : settings.dryRun = false) (htree : first.WellFormed)
    (hstraight : ∀ name ∈ (r.applySections settings).said.sections,
      first.Straight (settings.directory.join name))
    (hapart : (r.applySections settings).said.sections.Pairwise
      (SectionsApart settings first))
    (hio : ∀ why, (r.applySections settings).failure? = some why →
      why.isIO = false) :
    ∀ d, Shadows settings first r d →
      SameReport (r.applySections settings) (d.applySections settings.dry) := by
  fun_induction Run.applySections settings r with
  | case1 r e patch hnext =>
      intro d h
      rw [applySections_of_error (h.next_eq.trans hnext)]
      exact (h.report.move _ _ _ _).fail _
  | case2 r patch hnext =>
      intro d h
      rw [applySections_of_none (h.next_eq.trans hnext)]
      exact (h.report.move _ _ _ _).say rfl
  | case3 r name patch hnext next why hwhy =>
      intro d h
      have hmet := sections_applySection_entering settings name patch r
      rw [entering] at hmet
      rw [hmet] at hstraight hapart
      rcases h.applySection hdry htree (hstraight name (by simp))
        (apart_of_pairwise hapart)
        patch with ⟨why', hwhy', hfault⟩ | ⟨hreport, -⟩
      · exact absurd ((hio why' hwhy').symm.trans hfault) (by simp)
      · have hfailed := hreport.failure?.trans hwhy
        rw [applySections_of_some (h.next_eq.trans hnext),
          if_pos (by rw [hfailed]; rfl)]
        exact hreport
  | case4 r name patch hnext next hfine ih =>
      intro d h
      have hmet :=
        sections_isPrefix settings
          ((r.entering name patch).applySection settings name)
      rw [sections_applySection_entering] at hmet
      rcases h.applySection hdry htree (hstraight name (hmet.subset (by simp)))
        (apart_of_pairwise (hapart.sublist hmet.sublist)) patch with
        ⟨why', hwhy', hfault⟩ | ⟨hreport, hshadows⟩
      · exact absurd (hfine.symm.trans hwhy') (by simp)
      · have hfailed := hreport.failure?.trans hfine
        rw [applySections_of_some (h.next_eq.trans hnext),
          if_neg (by rw [hfailed]; simp)]
        exact ih hstraight hapart hio _ (hshadows hfine)

/-! ## The first section -/

end Run

/-! ## The whole patch -/

/-- A dry run leaves every tree as it is, whatever the patch, and however
it ends. -/
theorem tree_applyPatch_of_dryRun (settings : Settings) (patch : Bytes)
    (tree : FileTree) (hdry : settings.dryRun = true) :
    (applyPatch settings patch tree).tree = tree :=
  Run.tree_applySections_of_dryRun hdry

/-- A hunk that is missed in a dry run leaves no trace, and the run is not a
good one. -/
theorem tree_applyPatch_of_dryRun_missed :
    (applyPatch { directory := ⟨.working, []⟩, dryRun := true }
        (Bytes.ascii "--- a/f\n+++ b/f\n@@ -1 +1 @@\n-z\n+b\n")
        .oneFile).exitStatus = 1 ∧
      (applyPatch { directory := ⟨.working, []⟩, dryRun := true }
        (Bytes.ascii "--- a/f\n+++ b/f\n@@ -1 +1 @@\n-z\n+b\n")
        .oneFile).tree = .oneFile :=
  ⟨by decide +kernel, tree_applyPatch_of_dryRun _ _ _ rfl⟩

end UnifiedPatch
