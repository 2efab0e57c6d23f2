import UnifiedPatch.Section
import UnifiedPatch.Splice
import UnifiedPatch.Target

/-!
# Applying a patch

A patch is applied section by section: the next section is looked for, its
target opened, its hunks spliced into what the target held, and the target
settled. Failed hunks are recorded and the work goes on; a failure ends the run
where it stands, after the output made so far has reached the target.

The lines of the patch pass from the search for a section to the splicing and
back, so that each section starts where the one before it ended.

A run is the superuser's: no file is kept from it. What it reads and writes goes
through streams that do not fail once they are open.
-/

namespace UnifiedPatch

/-- The state of a run: the tree, the lines of the patch that are left, what was
said, what became of each file, and the failure that ended the run. -/
structure Run where
  tree : FileTree
  patch : LineStream
  said : Transcript := #[]
  files : Array FileResult := #[]
  failure? : Option Failure := none

namespace Run

/-- The files with failed hunks. -/
def failedFiles (r : Run) : List FileResult :=
  r.files.toList.filter FileResult.hasFailed

/-- The exit status of a run that was not cut short. -/
def exitStatus (r : Run) : Nat := if r.failedFiles.isEmpty then 0 else 1

/-- The run after it said more. -/
def say (r : Run) (said : Transcript) : Run := { r with said := r.said ++ said }

/-- The run, ended by a failure. -/
def fail (r : Run) (why : Failure) : Run := { r with failure? := some why }

/-- The result of a section as the splicing leaves it. -/
def spliced (target : Target) (s : Splice) : FileResult :=
  { path := target.path
    hunks := s.hunks
    failed := s.failed
    produced := s.produced
    backup := target.backup }

/-- Settles the target of a section whose hunks are all done. -/
def finishSection (settings : Settings) (target : Target) (s : Splice)
    (r : Run) : Run :=
  let settled := target.settle settings (spliced target s) r.tree
  let r := { r with tree := settled.tree }.say settled.said
  match settled.failure? with
  | some why => r.fail why
  | none => { r with files := r.files.push settled.result }

/-- Applies the section whose marker lines were just read. -/
def applySection (settings : Settings) (name : Bytes) (r : Run) : Run :=
  let acquired := Target.acquire settings name r.tree
  let r := { r with tree := acquired.tree }.say acquired.said
  match acquired.result with
  | .error why => r.fail why
  | .ok o =>
      let work := (Splice.start r.patch o.source).run settings name
      let r :=
        { r with tree := o.close work.output r.tree, patch := work.patch }.say
          (#[Event.notice (.patchingFile name)] ++ work.transcript)
      match work.failure? with
      | some why => r.fail why
      | none => r.finishSection settings o.target work

/-! ## The run ends -/

@[simp] theorem patch_say (r : Run) (said : Transcript) :
    (r.say said).patch = r.patch := rfl

@[simp] theorem patch_fail (r : Run) (why : Failure) :
    (r.fail why).patch = r.patch := rfl

@[simp] theorem patch_finishSection (settings : Settings) (target : Target)
    (s : Splice) (r : Run) :
    (r.finishSection settings target s).patch = r.patch := by
  unfold finishSection
  simp only []
  split <;> rfl

/-- Applying a section hands on no more lines of the patch than it was given. -/
theorem length_patch_applySection_le (settings : Settings) (name : Bytes)
    (r : Run) :
    (r.applySection settings name).patch.ready.length ≤
      r.patch.ready.length := by
  unfold applySection
  simp only []
  split
  · exact Nat.le_refl _
  · split
    · exact Splice.length_patch_run_start_le ..
    · rw [patch_finishSection]
      exact Splice.length_patch_run_start_le ..

/-- Applies all sections that are left. -/
def applySections (settings : Settings) (r : Run) : Run :=
  match _h : Section.next settings.stripLevel r.patch with
  | (.error e, patch) => { r with patch }.fail (.fatal e)
  | (.ok none, patch) =>
      { r with patch }.say
        #[.remark (.patchDone r.files.size r.failedFiles.length)]
  | (.ok (some name), patch) =>
      let next :=
        ({ r with patch }.say #[.remark (.sectionFound name)]).applySection
          settings name
      match next.failure? with
      | some _ => next
      | none => applySections settings next
termination_by r.patch.ready.length
decreasing_by
  exact Nat.lt_of_le_of_lt (length_patch_applySection_le ..)
    (Section.length_next_lt _h)

end Run

/-- Applies a patch to a tree. -/
def applyPatch (settings : Settings) (patch : Bytes) (tree : FileTree) : Run :=
  Run.applySections settings { tree, patch := .ofBytes patch }

/-- The path that stands for standard input. -/
def standardInput : Bytes := Bytes.ascii "-"

/-- Whether a patch comes from standard input: no path is given, or `-`. -/
def fromStandardInput (path : Option Path) : Bool :=
  match path with
  | none => true
  | some path => path.toBytes == standardInput

/-- The bytes of the patch that a path of the tree holds. -/
def readPatch (path : Path) (tree : FileTree) : Except Failure Bytes :=
  if path.hasNull then .error .nullByte
  else (tree.read path).mapError (Target.refusal path)

/-- Applies the patch that a file of the tree holds, or the one on standard
input. -/
def applyPatchFile (settings : Settings) (path : Option Path) (stdin : Bytes)
    (tree : FileTree) : Run :=
  match path with
  | none => applyPatch settings stdin tree
  | some path =>
      if fromStandardInput path then applyPatch settings stdin tree
      else
        match readPatch path tree with
        | .error why => Run.fail { tree, patch := .empty } why
        | .ok patch => applyPatch settings patch tree

end UnifiedPatch
