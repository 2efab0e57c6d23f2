import UnifiedPatch.Event
import UnifiedPatch.Failure
import UnifiedPatch.FileTree
import UnifiedPatch.LineStream
import UnifiedPatch.Settings

/-!
# The target of a section

Before a section is applied its target is opened. Only a regular file is
patched: it is moved aside under its name followed by `.orig`, read from there,
and a new file of the same mode takes its place. A target that is not there
reads as empty; the directories above it are made, and so is the file. Whatever
else stands at the path is refused before anything is moved. A dry run reads
the target in place and writes nothing: its output goes to the null device,
which takes it all.

Whether a user may read a file is found out when it is opened for reading. In a
dry run that is before anything is done. Otherwise the file has been moved
aside by then, and stays there if it may not be read. Where no user is named it
is the superuser, who may read and write every file.

Once the section is done the target is settled:

* a hunk failed: target and backup stay;
* no hunk failed: the backup is removed;
* no hunk failed and nothing was produced: the target is removed too, unless
  the run is a dry one.
-/

namespace UnifiedPatch

/-- What an operation on a file tree comes to: the tree, what was said on the
way, and a value or a failure. -/
structure Reply (α : Type) where
  tree : FileTree
  said : Transcript := #[]
  result : Except Failure α

/-- The target of a section: its name in the patch, its path, where the file
that was there is kept, and whether there was one. -/
structure Target where
  name : Bytes
  path : Path
  backup : Option Path
  existed : Bool
  deriving DecidableEq, Repr

/-- A target in use: the lines of the file that was there, and where the output
goes, if it goes anywhere. -/
structure OpenTarget where
  target : Target
  source : LineStream
  sink : Option Location

/-- What became of one file. A caller may fill in counts of its own, so they
are integers. -/
structure FileResult where
  path : Path
  hunks : Int := 0
  failed : Int := 0
  produced : Int := 0
  backup : Option Path := none
  deleted : Bool := false
  deriving DecidableEq, Repr

/-- The tree after the output has reached the file it goes to. -/
def OpenTarget.close (o : OpenTarget) (output : Bytes) (tree : FileTree) :
    FileTree :=
  match o.sink with
  | none => tree
  | some loc => tree.fill loc output

/-- Whether a hunk failed. -/
def FileResult.hasFailed (r : FileResult) : Bool := 0 < r.failed

namespace Target

/-- What the name of a backup ends in. -/
def backupEnding : Bytes := Bytes.ascii ".orig"

/-- The mode of a file that the patch creates: `rw-r--r--`. -/
def newFileMode : Nat := 0o644

/-- The failure of a target's path with a fault of the tree. -/
def ioFailure (path : Path) (e : Fault) : Failure :=
  .fatal (.io path (.ofFault e))

/-- The failure of a path that is not opened. -/
def refusal (path : Path) (r : Refusal) : Failure :=
  .fatal (.io path (.ofRefusal r))

/-- A target was opened. -/
def opened (settings : Settings) (tree : FileTree) (said : Transcript)
    (o : OpenTarget) :
    Reply OpenTarget :=
  { tree
    said :=
      said.push
        (.remark (.targetOpened o.target.path o.target.backup settings.dryRun))
    result := .ok o }

/-- Opens a target that is not there. -/
def openNew (settings : Settings) (name : Bytes) (path : Path)
    (tree : FileTree) (user : User := .superuser) : Reply OpenTarget :=
  let target : Target := { name, path, backup := none, existed := false }
  if settings.dryRun then
    opened settings tree #[] { target, source := .empty, sink := none }
  else
    match tree.makeDirectories path.parent with
    | (tree, .error e) => { tree, result := .error (ioFailure path e) }
    | (tree, .ok ()) =>
        let said : Transcript := #[.remark (.directoryEnsured path.parent)]
        match tree.create path newFileMode user with
        | .error r => { tree, said, result := .error (refusal path r) }
        | .ok (tree, loc) =>
            opened settings tree said
              { target, source := .empty, sink := some loc }

/-- Opens a target that is a regular file of the given content and mode. -/
def openExisting (settings : Settings) (name : Bytes) (path : Path)
    (content : Bytes) (mode : Nat) (tree : FileTree)
    (user : User := .superuser) : Reply OpenTarget :=
  if settings.dryRun then
    if user.mayRead mode then
      opened settings tree #[]
        { target := { name, path, backup := none, existed := true }
          source := .ofBytes content
          sink := none }
    else { tree, result := .error (refusal path .denied) }
  else
    let backup := path.withSuffix backupEnding
    match tree.rename path backup with
    | .error e => { tree, result := .error (ioFailure path e) }
    | .ok tree =>
        match tree.read backup user with
        | .error r => { tree, result := .error (refusal path r) }
        | .ok content =>
            match tree.create path mode user with
            | .error r => { tree, result := .error (refusal path r) }
            | .ok (tree, loc) =>
                opened settings tree #[]
                  { target :=
                      { name, path, backup := some backup, existed := true }
                    source := .ofBytes content
                    sink := some loc }

/-- Opens the target of a section by its name in the patch. -/
def acquire (settings : Settings) (name : Bytes) (tree : FileTree)
    (user : User := .superuser) : Reply OpenTarget :=
  let path := settings.directory.join name
  if path.hasNull then { tree, result := .error .nullByte }
  else
    match tree.find path with
    | .error .notFound => openNew settings name path tree user
    | .error e => { tree, result := .error (ioFailure path e) }
    | .ok (_, .directory) =>
        { tree
          result := .error (.fatal (.io path (.notRegular .isDirectory))) }
    | .ok (_, .device) =>
        { tree
          result := .error (.fatal (.io path (.notRegular .invalid))) }
    | .ok (_, .file content mode) =>
        openExisting settings name path content mode tree user

/-! ## Settling -/

/-- What settling comes to: the tree, what was said, the result as far as it
was brought up to date, and the failure if there was one. -/
structure Settled where
  tree : FileTree
  said : Transcript := #[]
  result : FileResult
  failure? : Option Failure := none

/-- Removes a file at a path. -/
def discard (path : Path) (tree : FileTree) : Except (Option Fault) FileTree :=
  if path.hasNull then .error none else (tree.unlink path).mapError some

/-- The failure of a removal: a fault of the tree counts against the target. -/
def discardFailure (target : Target) : Option Fault → Failure
  | none => .nullByte
  | some e => ioFailure target.path e

/-- Removes the backup of a target without failed hunks; one that is gone
already is no fault. -/
def dropBackup (target : Target) (result : FileResult) (tree : FileTree) :
    Settled :=
  match target.backup with
  | none => { tree, result }
  | some backup =>
      match discard backup tree with
      | .ok tree => { tree, result := { result with backup := none } }
      | .error (some .notFound) =>
          { tree, result := { result with backup := none } }
      | .error e => { tree, result, failure? := some (discardFailure target e) }

/-- Removes a target for which nothing was produced. -/
def dropEmpty (settings : Settings) (target : Target) (result : FileResult)
    (tree : FileTree) : Settled :=
  if settings.dryRun || result.produced != 0 then { tree, result }
  else
    match discard target.path tree with
    | .error e => { tree, result, failure? := some (discardFailure target e) }
    | .ok tree =>
        { tree
          said := #[.remark (.targetRemoved target.path)]
          result := { result with deleted := true } }

/-- Settles a target whose output is complete. -/
def settle (settings : Settings) (target : Target) (result : FileResult)
    (tree : FileTree) : Settled :=
  if result.hasFailed then
    { tree
      said :=
        #[.notice (.fileFailed result.failed result.hunks),
          .remark <|
            if target.existed then .targetKept target.path target.backup
              result.failed
            else .newTargetKept target.path result.failed]
      result }
  else
    let dropped := dropBackup target result tree
    match dropped.failure? with
    | some _ => dropped
    | none => dropEmpty settings target dropped.result dropped.tree

end Target

end UnifiedPatch
