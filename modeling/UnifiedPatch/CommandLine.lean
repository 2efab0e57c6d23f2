import UnifiedPatch.Application
import UnifiedPatch.CommandLine.Arguments
import UnifiedPatch.Logging
import UnifiedPatch.Text.Integer

/-!
# The command line

The arguments are split into options, their values are read, and the patch is
applied with the settings that they make. Asking for help takes precedence over
values that cannot be read and over arguments left over, but not over options
that cannot be split. Of an option given twice the last value counts, and the
others are not read.

The exit status is 0 if every hunk applied, 1 if some failed, and 2 after a
fatal error or a bad command line. A failure that is no fatal error is not
caught: nothing is reported, and the status is 1.
-/

namespace UnifiedPatch

namespace CommandLine

/-- What the options ask for. Options without effect are left out. -/
structure Parameters where
  input : Option Path := none
  strip : Int := 1
  reverse : Bool := false
  forward : Bool := false
  dryRun : Bool := false
  directory : Option Path := none
  verbose : Bool := false
  deriving DecidableEq, Repr

/-- What a command line asks for. -/
inductive Request where
  | help
  | usageError
  | apply (p : Parameters)
  deriving DecidableEq, Repr

/-- The value that counts for an option. -/
def lastValue? (options : List Occurrence) (switch : Switch) : Option Bytes :=
  (options.reverse.find? fun o => o.switch == switch).bind Occurrence.value

/-- The integer that a text means. -/
def readInteger? (s : Bytes) : Option Int :=
  (Text.asciiForm? s).bind fun s => (Text.integer s).toOption

/-- The path that a text names; one with a zero byte cannot be looked at. -/
def readPath? (s : Bytes) : Option Path :=
  let path := Path.ofBytes s
  if path.hasNull then none else some path

/-- The parameters with one option taken in; `none` if its value cannot
be read. -/
def Parameters.set? (options : List Occurrence) (p : Parameters)
    (switch : Switch) :
    Option Parameters :=
  let integer := (lastValue? options switch).bind readInteger?
  let path := (lastValue? options switch).bind readPath?
  match switch with
  | .input => path.map fun path => { p with input := some path }
  | .strip => integer.map fun strip => { p with strip }
  | .reverse => some { p with reverse := true }
  | .forward => some { p with forward := true }
  | .dryRun => some { p with dryRun := true }
  | .directory => path.map fun path => { p with directory := some path }
  | .get => integer.map fun _ => p
  | .verbose => some { p with verbose := true }
  | .force | .removeEmptyFiles | .backupIfMismatch | .noBackupIfMismatch
  | .help => some p

/-- Reads the values of all options. -/
def readParameters? (options : List Occurrence) : Option Parameters :=
  options.foldlM (fun p o => p.set? options o.switch) {}

/-- What a command line asks for. -/
def readArguments (args : List Bytes) : Request :=
  match split args with
  | none => .usageError
  | some s =>
      if s.options.any fun o => o.switch == .help then .help
      else
        match readParameters? s.options with
        | none => .usageError
        | some p => if s.operands.isEmpty then .apply p else .usageError

/-- The text that help shows: each option that has an effect, and what
it does. -/
def helpText : String :=
  "Apply a unified diff to the files it names.\n\n" ++
  "  -i, --input FILE      Read the patch from FILE instead of stdin\n" ++
  "  -p, --strip N         Strip N leading path components from file names\n" ++
  "  -R, --reverse         Apply the patch in reverse\n" ++
  "  -N, --forward         Skip lines that look already applied\n" ++
  "      --dry-run         Report results without changing any files\n" ++
  "  -d, --directory DIR   Resolve file names relative to DIR\n" ++
  "  -v, --verbose         Log debug diagnostics to stderr\n" ++
  "      --help            Show this message and exit\n"

/-- The text that a command line is refused with. -/
def usageText : String :=
  "Usage: hunkpatch [OPTIONS]\nTry 'hunkpatch --help' for help.\n"

/-- Where a command ends: the status, what was written to the two streams, the
tree, and the failure that no one caught. -/
structure Ending where
  status : Nat
  out : Bytes := []
  err : Bytes := []
  tree : FileTree
  uncaught? : Option Failure := none

/-- The path of the working directory. -/
def workingPath (tree : FileTree) : Path :=
  { anchor := .root, segments := tree.working.reverse }

/-- The level of the log: everything if asked to be verbose, or else the level
that the environment names. -/
def logLevel (p : Parameters) (environment : Option Bytes) :
    Except Failure Int :=
  if p.verbose then .ok Logging.debug
  else
    let name := Logging.requestedLevel environment Logging.defaultName
    match Logging.levelNumber? name with
    | some level => .ok level
    | none => .error (.unknownLevel name)

/-- The settings that the options make. -/
def Parameters.settings (p : Parameters) (tree : FileTree) : Settings :=
  { stripLevel := p.strip
    reverse := p.reverse
    skipApplied := p.forward
    dryRun := p.dryRun
    directory := p.directory.getD (workingPath tree) }

/-- The line that reports a fatal error. -/
def report (e : FatalError) : Bytes :=
  Text.stripControls (Bytes.ascii "hunkpatch: " ++ e.message ++ [Bytes.newline])

/-- Whether the patch comes from standard input. -/
def Parameters.readsStandardInput (p : Parameters) : Bool :=
  fromStandardInput p.input

/-- The patch that is applied; empty if it cannot be read. -/
def Parameters.patch (p : Parameters) (stdin : Bytes) (tree : FileTree) :
    Bytes :=
  if p.readsStandardInput then stdin
  else (p.input.map fun path => (readPatch path tree).toOption.getD []).getD []

/-- Every path that applying a patch as the options ask may use. -/
def Parameters.paths (p : Parameters) (patch : Bytes) (tree : FileTree) :
    List Path :=
  let settings := p.settings tree
  let targets := (Section.mentioned settings.stripLevel patch.lines).map
    settings.directory.join
  targets ++ targets.map fun path => path.withSuffix Target.backupEnding

/-- Applies a patch as the options ask. -/
def Parameters.execute (p : Parameters) (environment : Option Bytes)
    (stamp stdin : Bytes) (tree : FileTree) : Ending :=
  match logLevel p environment with
  | .error why => { status := 1, tree, uncaught? := some why }
  | .ok level =>
      let run := applyPatchFile (p.settings tree) p.input stdin tree
      let out := run.said.written .out
      let err := run.said.standardError stamp level
      match run.failure? with
      | none => { status := run.exitStatus, out, err, tree := run.tree }
      | some (.fatal e) =>
          { status := e.exitStatus
            out
            err := err ++ report e
            tree := run.tree }
      | some why =>
          { status := 1, out, err, tree := run.tree, uncaught? := some why }

end CommandLine

end UnifiedPatch
