import UnifiedPatch.Decimal
import UnifiedPatch.Path
import UnifiedPatch.Text.Terminal
import UnifiedPatch.Value

/-!
# What a run says

A run speaks in two ways. A `Notice` is for the user: what is patched goes to
standard output, what failed to standard error. A `Remark` is for the log: it
has a severity and the name of the logger that makes it. Both are values here,
and a run keeps them in one list in the order in which they were made, so that
each stream, the log, and their interleaving are read off one record.
-/

namespace UnifiedPatch

/-- A message to the user. -/
inductive Notice where
  | patchingFile (name : Bytes)
  | hunkFailed (number line : Int)
  | fileFailed (failed total : Int)
  deriving DecidableEq, Repr

/-- The two streams that notices go to. -/
inductive Channel where
  | out
  | err
  deriving DecidableEq, Repr

namespace Notice

/-- The stream that a notice goes to. -/
def channel : Notice → Channel
  | patchingFile _ => .out
  | hunkFailed _ _ | fileFailed _ _ => .err

/-- The line that a notice is. -/
def text : Notice → Bytes
  | patchingFile name => Bytes.ascii "patching file " ++ name ++ [Bytes.newline]
  | hunkFailed number line =>
      Bytes.ascii "hunk #" ++ Decimal.ofInt number ++
        Bytes.ascii " FAILED at " ++ Decimal.ofInt line ++ [Bytes.newline]
  | fileFailed failed total =>
      Decimal.ofInt failed ++ Bytes.ascii " out of " ++ Decimal.ofInt total ++
        Bytes.ascii " hunk FAILED" ++ [Bytes.newline]

/-- The line as it is written to a stream that is no terminal. -/
def shown (n : Notice) : Bytes := Text.stripControls n.text

end Notice

/-- How much a remark matters. -/
inductive Severity where
  | debug
  | info
  deriving DecidableEq, Repr

namespace Severity

/-- The number that log levels are compared by. -/
def number : Severity → Int
  | debug => 10
  | info => 20

/-- The name that a severity has in the log. -/
def name : Severity → Bytes
  | debug => Bytes.ascii "DEBUG"
  | info => Bytes.ascii "INFO"

end Severity

/-- A record for the log. -/
inductive Remark where
  /-- a source ended while lines were still to be copied -/
  | sourceExhausted (missing : Int)
  /-- a line that was not found counts as applied already -/
  | lineSkipped (name : Bytes) (hunk : Nat)
  /-- the hunks of a file are done -/
  | hunksDone (name : Bytes) (hunks failed produced : Nat)
  /-- a file section starts -/
  | sectionFound (name : Bytes)
  /-- a directory is there or has been made -/
  | directoryEnsured (path : Path)
  /-- a target is open -/
  | targetOpened (path : Path) (backup : Option Path) (dryRun : Bool)
  /-- a target with failed hunks stays, and so does its backup -/
  | targetKept (path : Path) (backup : Option Path) (failed : Int)
  /-- a new target with failed hunks stays -/
  | newTargetKept (path : Path) (failed : Int)
  /-- a target without content was removed -/
  | targetRemoved (path : Path)
  /-- the patch is done -/
  | patchDone (files failed : Nat)
  deriving DecidableEq, Repr

namespace Remark

/-- How much a remark matters. -/
def severity : Remark → Severity
  | targetKept .. | newTargetKept .. | targetRemoved .. | patchDone .. => .info
  | _ => .debug

/-- The logger that makes a remark. -/
def logger : Remark → Bytes
  | sourceExhausted .. => Bytes.ascii "hunkpatch.patching.lines"
  | lineSkipped .. | hunksDone .. => Bytes.ascii "hunkpatch.patching.hunks"
  | sectionFound ..
  | targetOpened .. => Bytes.ascii "hunkpatch.patching.resolver"
  | directoryEnsured .. => Bytes.ascii "hunkpatch.util.paths"
  | targetKept .. | newTargetKept .. | targetRemoved .. =>
      Bytes.ascii "hunkpatch.patching.finalize"
  | patchDone .. => Bytes.ascii "hunkpatch.patching.engine"

/-- The text of a path that may be absent. -/
def optionalPath : Option Path → Bytes
  | none => Bytes.ascii "None"
  | some path => path.toBytes

/-- The wording of a remark. -/
def message : Remark → Bytes
  | sourceExhausted missing =>
      Bytes.ascii "Source exhausted with " ++ Decimal.ofInt missing ++
        Bytes.ascii " lines still requested"
  | lineSkipped name hunk =>
      name ++ Bytes.ascii ": hunk #" ++ Decimal.ofNat hunk ++
        Bytes.ascii " line treated as already applied"
  | hunksDone name hunks failed produced =>
      name ++ Bytes.ascii ": " ++ Decimal.ofNat hunks ++
        Bytes.ascii " hunks, " ++ Decimal.ofNat failed ++
          Bytes.ascii " failed, " ++ Decimal.ofNat produced ++
        Bytes.ascii " lines produced"
  | sectionFound name => Bytes.ascii "Found file section for " ++ name
  | directoryEnsured path => Bytes.ascii "Ensured directory " ++ path.toBytes
  | targetOpened path backup dryRun =>
      Bytes.ascii "Opened " ++ path.toBytes ++ Bytes.ascii " (backup=" ++
        optionalPath backup ++ Bytes.ascii ", dry_run=" ++
          Value.truthText dryRun ++ Bytes.ascii ")"
  | targetKept path backup failed =>
      Bytes.ascii "Keeping " ++ path.toBytes ++ Bytes.ascii " and backup " ++
        optionalPath backup ++ Bytes.ascii " after " ++ Decimal.ofInt failed ++
        Bytes.ascii " failed hunks"
  | newTargetKept path failed =>
      Bytes.ascii "Keeping new file " ++ path.toBytes ++
        Bytes.ascii " after " ++ Decimal.ofInt failed ++
          Bytes.ascii " failed hunks"
  | targetRemoved path =>
      Bytes.ascii "Removed " ++ path.toBytes ++
        Bytes.ascii ": patched result is empty"
  | patchDone files failed =>
      Bytes.ascii "Patched " ++ Decimal.ofNat files ++ Bytes.ascii " files, " ++
        Decimal.ofNat failed ++ Bytes.ascii " with failed hunks"

end Remark

/-- One thing that a run said. -/
inductive Event where
  | notice (n : Notice)
  | remark (r : Remark)
  deriving DecidableEq, Repr

/-- Everything that a run said, in order. -/
abbrev Transcript := Array Event

namespace Transcript

/-- The notices of a transcript. -/
def notices (t : Transcript) : List Notice :=
  t.toList.filterMap fun
    | .notice n => some n
    | .remark _ => none

/-- The remarks of a transcript. -/
def remarks (t : Transcript) : List Remark :=
  t.toList.filterMap fun
    | .notice _ => none
    | .remark r => some r

/-- What the notices write to one of the streams. -/
def written (t : Transcript) (c : Channel) : Bytes :=
  (t.notices.filter fun n => n.channel == c).flatMap Notice.shown

end Transcript

end UnifiedPatch
