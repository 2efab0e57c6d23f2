import UnifiedPatch.Application
import UnifiedPatch.Proofs.TargetFiles

/-!
# What one section does to a file that is there

The section's file is opened, spliced into and settled, and whatever the
splicing comes to, the tree afterwards is one of three. As long as a hunk or
the whole work has failed, the output stands at the target and the old file
beside it (`kept`). After clean work the old file is gone, and if nothing was
produced so is the target. All of it happens at two locations; every other one
is as it was, and nothing can go wrong on the way, since both paths lead where
they led when the target was opened.

The one thing that opening can run into, with a name that is short enough and
nothing but a file in the way of the backup, is a path too long for the system.
Then nothing at all has happened.

That the file stands under a name is a fact about trees that are well-formed,
as a fresh one is and as a run leaves it.
-/

namespace UnifiedPatch

/-- A working directory with a file of one line. -/
def FileTree.oneFile : FileTree where
  entries :=
    [([Bytes.ascii "f", Bytes.ascii "w"], .file (Bytes.ascii "a\n") 0o600),
     ([Bytes.ascii "w"], .directory), ([], .directory)]
  working := [Bytes.ascii "w"]

namespace Run

open FileTree Target

variable {settings : Settings} {name : Bytes} {r : Run}

/-! ## A section in its parts -/

theorem hasFailed_spliced (target : Target) (work : Splice) :
    (spliced target work).hasFailed = decide (0 < work.failed) := by
  simp [FileResult.hasFailed, spliced]

/-- The run with the hunks of a section gone over, before the section
is settled. -/
def worked (settings : Settings) (name : Bytes) (o : OpenTarget) (work : Splice)
    (r : Run) : Run :=
  { r with
    tree := o.close work.output (acquire settings name r.tree).tree
    patch := work.patch
    said := r.said ++ (acquire settings name r.tree).said ++
      (#[.notice (.patchingFile name)] ++ work.transcript) }

theorem applySection_eq_of_error {why : Failure}
    (h : (acquire settings name r.tree).result = .error why) :
    r.applySection settings name =
      ({ r with tree := (acquire settings name r.tree).tree }.say
        (acquire settings name r.tree).said).fail why := by
  unfold applySection
  simp only [h]

theorem applySection_eq_of_ok {o : OpenTarget} {work : Splice}
    (h : (acquire settings name r.tree).result = .ok o)
    (hwork : (Splice.start r.patch o.source).run settings name = work) :
    r.applySection settings name =
      match work.failure? with
      | some why => (r.worked settings name o work).fail why
      | none =>
          (r.worked settings name o work).finishSection settings
            o.target work := by
  subst hwork
  unfold applySection
  simp only [h]
  rfl

theorem applySection_of_error {why : Failure}
    (h : (acquire settings name r.tree).result = .error why) :
    (r.applySection settings name).tree = (acquire settings name r.tree).tree ∧
      (r.applySection settings name).files = r.files ∧
      (r.applySection settings name).failure? = some why := by
  rw [applySection_eq_of_error h]
  exact ⟨rfl, rfl, rfl⟩

/-- Work that was given up leaves what it had written. -/
theorem applySection_of_stopped {o : OpenTarget} {work : Splice} {why : Failure}
    (h : (acquire settings name r.tree).result = .ok o)
    (hwork : (Splice.start r.patch o.source).run settings name = work)
    (hstopped : work.failure? = some why) :
    (r.applySection settings name).tree =
        o.close work.output (acquire settings name r.tree).tree ∧
      (r.applySection settings name).files = r.files ∧
      (r.applySection settings name).failure? = some why := by
  rw [applySection_eq_of_ok h hwork, hstopped]
  exact ⟨rfl, rfl, rfl⟩

/-- Work that was done is settled. -/
theorem applySection_of_settled {o : OpenTarget} {work : Splice}
    {settled : Settled} (h : (acquire settings name r.tree).result = .ok o)
    (hwork : (Splice.start r.patch o.source).run settings name = work)
    (hdone : work.failure? = none)
    (hsettled : o.target.settle settings (spliced o.target work)
      (o.close work.output (acquire settings name r.tree).tree) = settled) :
    (r.applySection settings name).tree = settled.tree ∧
      (r.applySection settings name).patch = work.patch ∧
      (r.applySection settings name).failure? = settled.failure?.or r.failure? ∧
      (settled.failure? = none →
        (r.applySection settings name).files =
          r.files.push settled.result) := by
  rw [applySection_eq_of_ok h hwork, hdone]
  simp only [finishSection, worked, hsettled]
  cases settled.failure? with
  | some why => exact ⟨rfl, rfl, rfl, fun hnone => absurd hnone (by simp)⟩
  | none => exact ⟨rfl, rfl, rfl, fun _ => rfl⟩

theorem exists_open_of_fine
    (hfine : (r.applySection settings name).failure? = none) :
    ∃ o, (acquire settings name r.tree).result = .ok o := by
  cases hopen : (acquire settings name r.tree).result with
  | error why =>
      obtain ⟨-, -, hfailure⟩ := applySection_of_error hopen
      exact absurd (hfailure.symm.trans hfine) (by simp)
  | ok o => exact ⟨o, rfl⟩

/-- The work of a section that does not fail is done, and is settled
without failure. -/
theorem settled_of_fine {o : OpenTarget} {work : Splice} {settled : Settled}
    (h : (acquire settings name r.tree).result = .ok o)
    (hwork : (Splice.start r.patch o.source).run settings name = work)
    (hsettled : o.target.settle settings (spliced o.target work)
      (o.close work.output (acquire settings name r.tree).tree) = settled)
    (hfine : (r.applySection settings name).failure? = none) :
    work.failure? = none ∧ settled.failure? = none ∧
      (r.applySection settings name).tree = settled.tree ∧
      (r.applySection settings name).patch = work.patch ∧
      (r.applySection settings name).files = r.files.push settled.result := by
  cases hdone : work.failure? with
  | some why =>
      obtain ⟨-, -, hfailure⟩ := applySection_of_stopped h hwork hdone
      exact absurd (hfailure.symm.trans hfine) (by simp)
  | none =>
      obtain ⟨htree, hpatch, hfailure, hfiles⟩ :=
        applySection_of_settled h hwork hdone hsettled
      rw [hfailure, Option.or_eq_none_iff] at hfine
      exact ⟨rfl, hfine.1, htree, hpatch, hfiles hfine.1⟩

/-! ## A file that can be moved aside -/

variable {content : Bytes} {mode : Nat} {loc aside : Location}

/-- The target of a section on a file. -/
def filed (settings : Settings) (name : Bytes) : Target :=
  patched name (settings.directory.join name)

/-- The file of a section is there, and there is room for it at
another place. -/
structure Ready (settings : Settings) (name : Bytes) (tree : FileTree)
    (content : Bytes) (mode : Nat) (loc aside : Location) : Prop where
  fit : (settings.directory.join name).hasNull = false
  found : tree.find (settings.directory.join name) =
    .ok (loc, .file content mode)
  room : tree.locate ((settings.directory.join name).withSuffix backupEnding) =
    .ok aside
  free : tree.node? aside ≠ some .directory
  apart : aside ≠ loc

namespace Ready

variable (h : Ready settings name r.tree content mode loc aside)
include h

theorem acquire_eq (hdry : settings.dryRun = false) :
    acquire settings name r.tree =
      opened settings (r.tree.moved loc aside content mode) #[]
        { target := filed settings name
          source := .ofBytes content
          sink := some loc } :=
  (acquire_of_file h.fit h.found).trans
    (openExisting_eq hdry rfl (fun _ => rfl) h.found h.room h.free)

/-- The target is still found after its backup has been removed. -/
theorem find_kept_remove (output : Bytes) :
    ((r.tree.kept loc aside content mode output).remove aside).find
      (settings.directory.join name) = .ok (loc, .file output mode) := by
  have haside : (r.tree.kept loc aside content mode output).node? aside ≠
      some .directory := by
    rw [node?_kept, if_neg h.apart, if_pos rfl]
    simp
  refine ((directoriesIn_kept h.found h.free output).trans
    (directoriesIn_remove haside)).find
    (find_eq_ok_iff.1 h.found).1 ?_
  rw [node?_remove, if_neg h.apart.symm, node?_kept, if_pos rfl]

theorem applySection_stopped {work : Splice} {why : Failure}
    (hdry : settings.dryRun = false)
    (hwork : (Splice.start r.patch (.ofBytes content)).run settings name = work)
    (hstopped : work.failure? = some why) :
    (r.applySection settings name).tree =
      r.tree.kept loc aside content mode work.output ∧
      (r.applySection settings name).files = r.files ∧
      (r.applySection settings name).failure? = some why := by
  have hopen := h.acquire_eq hdry
  obtain ⟨htree, hfiles, hfailure⟩ :=
    applySection_of_stopped (congrArg Reply.result hopen) hwork hstopped
  refine ⟨htree.trans ?_, hfiles, hfailure⟩
  rw [hopen]
  exact fill_moved ..

theorem applySection_settled {work : Splice} {settled : Settled}
    (hdry : settings.dryRun = false)
    (hwork : (Splice.start r.patch (.ofBytes content)).run settings name = work)
    (hdone : work.failure? = none)
    (hsettled : (filed settings name).settle settings
      (spliced (filed settings name) work)
      (r.tree.kept loc aside content mode work.output) = settled)
    (hfine : settled.failure? = none) :
    (r.applySection settings name).tree = settled.tree ∧
      (r.applySection settings name).files = r.files.push settled.result ∧
      (r.applySection settings name).failure? = r.failure? := by
  have hopen := h.acquire_eq hdry
  have hclosed :
    (OpenTarget.mk (filed settings name) (.ofBytes content) (some loc)).close
      work.output (acquire settings name r.tree).tree =
        r.tree.kept loc aside content mode work.output := by
    rw [hopen]
    exact fill_moved ..
  rw [← hclosed] at hsettled
  obtain ⟨htree, -, hfailure, hfiles⟩ :=
    applySection_of_settled (congrArg Reply.result hopen) hwork hdone hsettled
  rw [hfine] at hfailure
  exact ⟨htree, hfiles hfine, hfailure⟩

theorem settle_of_clean {work : Splice} (hclean : work.failed = 0) :
    (filed settings name).settle settings (spliced (filed settings name) work)
        (r.tree.kept loc aside content mode work.output) =
      (filed settings name).dropEmpty settings
        { spliced (filed settings name) work with backup := none }
        ((r.tree.kept loc aside content mode work.output).remove aside) := by
  refine settle_patched h.fit h.found h.room h.free work.output ?_
  rw [hasFailed_spliced, hclean]
  rfl

theorem applySection_failed {work : Splice} (hdry : settings.dryRun = false)
    (hwork : (Splice.start r.patch (.ofBytes content)).run settings name = work)
    (hdone : work.failure? = none) (hfailed : 0 < work.failed) :
    (r.applySection settings name).tree =
      r.tree.kept loc aside content mode work.output ∧
      (r.applySection settings name).files =
        r.files.push (spliced (filed settings name) work) ∧
      (r.applySection settings name).failure? = r.failure? := by
  have hsome : (spliced (filed settings name) work).hasFailed = true := by
    rw [hasFailed_spliced]
    exact decide_eq_true hfailed
  obtain ⟨htree, hresult, hfine⟩ := settle_of_hasFailed hsome
  have hend := h.applySection_settled hdry hwork hdone rfl hfine
  rw [htree, hresult] at hend
  exact hend

theorem applySection_produced {work : Splice} (hdry : settings.dryRun = false)
    (hwork : (Splice.start r.patch (.ofBytes content)).run settings name = work)
    (hdone : work.failure? = none) (hclean : work.failed = 0)
    (hproduced : 0 < work.produced) :
    (r.applySection settings name).tree =
        (r.tree.kept loc aside content mode work.output).remove aside ∧
      (r.applySection settings name).files =
        r.files.push
          { spliced (filed settings name) work with backup := none } ∧
      (r.applySection settings name).failure? = r.failure? := by
  have hsome : (spliced (filed settings name) work).produced ≠ 0 := by
    simp only [spliced]
    omega
  have hsettle := (h.settle_of_clean hclean).trans (dropEmpty_of_produced hsome)
  exact h.applySection_settled hdry hwork hdone hsettle rfl

theorem applySection_empty {work : Splice} (hdry : settings.dryRun = false)
    (hwork : (Splice.start r.patch (.ofBytes content)).run settings name = work)
    (hdone : work.failure? = none) (hclean : work.failed = 0)
    (hproduced : work.produced = 0) :
    (r.applySection settings name).tree =
        ((r.tree.kept loc aside content mode work.output).remove aside).remove
          loc ∧
      (r.applySection settings name).files =
        r.files.push
          { spliced (filed settings name) work with
            backup := none
            deleted := true } ∧
      (r.applySection settings name).failure? = r.failure? := by
  have hnone : (spliced (filed settings name) work).produced = 0 := by
    simp [spliced, hproduced]
  have hsettle := (h.settle_of_clean hclean).trans
    (dropEmpty_of_find hdry hnone h.fit (h.find_kept_remove work.output)
      (by simp))
  exact h.applySection_settled hdry hwork hdone hsettle rfl

end Ready

/-! ## The contract -/

/-- What a section leaves of a file, by what its work came to. -/
structure Outcome (settings : Settings) (name : Bytes) (r : Run)
    (content : Bytes) (mode : Nat) (loc aside : Location) (work : Splice)
    (final : Run) : Prop where
  elsewhere : ∀ place, place ≠ loc → place ≠ aside →
    final.tree.node? place = r.tree.node? place
  stopped : ∀ why, work.failure? = some why →
    final.tree.node? loc = some (.file work.output mode) ∧
      final.tree.node? aside = some (.file content mode) ∧
      final.files = r.files ∧ final.failure? = some why
  failed : work.failure? = none → 0 < work.failed →
    final.tree.node? loc = some (.file work.output mode) ∧
      final.tree.node? aside = some (.file content mode) ∧
      final.files = r.files.push (spliced (filed settings name) work) ∧
      final.failure? = r.failure?
  produced : work.failure? = none → work.failed = 0 → 0 < work.produced →
    final.tree.node? loc = some (.file work.output mode) ∧
      final.tree.node? aside = none ∧
      final.files =
        r.files.push
          { spliced (filed settings name) work with backup := none } ∧
      final.failure? = r.failure?
  empty : work.failure? = none → work.failed = 0 → work.produced = 0 →
    final.tree.node? loc = none ∧
      final.tree.node? aside = none ∧
      final.files =
        r.files.push
          { spliced (filed settings name) work with
            backup := none
            deleted := true } ∧
      final.failure? = r.failure?

theorem Ready.outcome (h : Ready settings name r.tree content mode loc aside)
    (hdry : settings.dryRun = false) :
    Outcome settings name r content mode loc aside
      ((Splice.start r.patch (.ofBytes content)).run settings name)
      (r.applySection settings name) := by
  generalize hwork :
    (Splice.start r.patch (.ofBytes content)).run settings name = work
  constructor
  · intro place hloc haside
    have hkept : (r.tree.kept loc aside content mode work.output).node? place =
        r.tree.node? place := by
      rw [node?_kept, if_neg hloc, if_neg haside]
    cases hfailure : work.failure? with
    | some why =>
        rw [(h.applySection_stopped hdry hwork hfailure).1]
        exact hkept
    | none =>
        rcases Nat.eq_zero_or_pos work.failed with hf | hf
        · rcases Nat.eq_zero_or_pos work.produced with hp | hp
          · rw [(h.applySection_empty hdry hwork hfailure hf hp).1,
              node?_remove, if_neg hloc, node?_remove, if_neg haside]
            exact hkept
          · rw [(h.applySection_produced hdry hwork hfailure hf hp).1,
              node?_remove, if_neg haside]
            exact hkept
        · rw [(h.applySection_failed hdry hwork hfailure hf).1]
          exact hkept
  · intro why hwhy
    obtain ⟨htree, hfiles, hfailure⟩ := h.applySection_stopped hdry hwork hwhy
    rw [htree, node?_kept, if_pos rfl, node?_kept, if_neg h.apart, if_pos rfl]
    exact ⟨rfl, rfl, hfiles, hfailure⟩
  · intro hdone hfailed
    obtain ⟨htree, hfiles, hfailure⟩ :=
      h.applySection_failed hdry hwork hdone hfailed
    rw [htree, node?_kept, if_pos rfl, node?_kept, if_neg h.apart, if_pos rfl]
    exact ⟨rfl, rfl, hfiles, hfailure⟩
  · intro hdone hclean hpos
    obtain ⟨htree, hfiles, hfailure⟩ :=
      h.applySection_produced hdry hwork hdone hclean hpos
    rw [htree, node?_remove, if_neg h.apart.symm, node?_kept, if_pos rfl,
      node?_remove, if_pos rfl]
    exact ⟨rfl, rfl, hfiles, hfailure⟩
  · intro hdone hclean hzero
    obtain ⟨htree, hfiles, hfailure⟩ :=
      h.applySection_empty hdry hwork hdone hclean hzero
    rw [htree, node?_remove, if_pos rfl, node?_remove, if_neg h.apart,
      node?_remove, if_pos rfl]
    exact ⟨rfl, rfl, hfiles, hfailure⟩

/-- A section on a file keeps its contract, whatever the patch says: with the
whole work or a hunk failed the file is kept beside what was written, otherwise
the result takes its place, or nothing does if there is no result. No other
location changes, and settling does not fail. If the path of the backup is too
long for the system, nothing happens. -/
theorem applySection_contract (settings : Settings) (name : Bytes) (r : Run)
    (content : Bytes) (mode : Nat) (loc : Location)
    (hdry : settings.dryRun = false) (htree : r.tree.WellFormed)
    (hfind : r.tree.find (settings.directory.join name) =
      .ok (loc, .file content mode))
    (hname : ∀ last ∈ (loc.withSuffix backupEnding).head?,
      last.length ≤ nameLimit)
    (hbackup : ∀ node, r.tree.node? (loc.withSuffix backupEnding) = some node →
      ∃ content mode, node = .file content mode) :
    (((settings.directory.join name).withSuffix backupEnding).toBytes.length ≤
      pathLimit →
      Outcome settings name r content mode loc (loc.withSuffix backupEnding)
        ((Splice.start r.patch (.ofBytes content)).run settings name)
        (r.applySection settings name)) ∧
    (pathLimit <
      ((settings.directory.join name).withSuffix backupEnding).toBytes.length →
      (r.applySection settings name).tree = r.tree ∧
        (r.applySection settings name).files = r.files ∧
        (r.applySection settings name).failure? =
          some (ioFailure (settings.directory.join name) .nameTooLong)) := by
  have hfit := htree.hasNull_of_find hfind
  obtain ⟨hne, hroom⟩ := htree.locate_withSuffix hfind (by decide) hname
  refine ⟨fun hshort => ?_, fun hlong => ?_⟩
  · rw [if_neg (Nat.not_lt.2 hshort)] at hroom
    have hfree : r.tree.node? (loc.withSuffix backupEnding) ≠
        some .directory := by
      intro hdir
      obtain ⟨c, m, hfile⟩ := hbackup _ hdir
      exact absurd hfile (by simp)
    exact Ready.outcome ⟨hfit, hfind, hroom, hfree, hne⟩ hdry
  · rw [if_pos hlong] at hroom
    have hrename : r.tree.rename (settings.directory.join name)
        ((settings.directory.join name).withSuffix backupEnding) =
          .error .nameTooLong := by
      rw [rename, hfind, hroom]
    have hopen : acquire settings name r.tree = _ :=
      (acquire_of_file hfit hfind).trans (openExisting_of_error hdry hrename)
    obtain ⟨ht, hfiles, hfailure⟩ :=
      applySection_of_error (congrArg Reply.result hopen)
    exact ⟨ht.trans (congrArg Reply.tree hopen), hfiles, hfailure⟩

/-- A run before a section on that file, with a hunk that starts behind
its end. -/
def shortSource : Run :=
  { tree := .oneFile, patch := .ofBytes (Bytes.ascii "@@ -3 +3 @@\n") }

/-- The work is given up, and the file is kept. -/
theorem applySection_shortSource :
    (shortSource.applySection { directory := ⟨.working, []⟩ }
      (Bytes.ascii "f")).tree.node?
        [Bytes.ascii "f.orig", Bytes.ascii "w"] =
          some (.file (Bytes.ascii "a\n") 0o600) ∧
      (shortSource.applySection { directory := ⟨.working, []⟩ }
        (Bytes.ascii "f")).failure? =
        some (.fatal (.badSource (Bytes.ascii "f") 1)) := by
  obtain ⟨hshort, -⟩ := applySection_contract { directory := ⟨.working, []⟩ }
    (Bytes.ascii "f") shortSource (Bytes.ascii "a\n") 0o600
    [Bytes.ascii "f", Bytes.ascii "w"] rfl (by decide) rfl (by decide) nofun
  obtain ⟨-, hkept, -, hfailure⟩ := (hshort (by decide)).stopped
    (.fatal (.badSource (Bytes.ascii "f") 1)) (by decide +kernel)
  exact ⟨hkept, hfailure⟩

end Run

end UnifiedPatch
