import UnifiedPatch.Decimal
import UnifiedPatch.FileTree
import UnifiedPatch.Hunk.Header
import UnifiedPatch.LineStream
import UnifiedPatch.Text.Quoted

/-!
# Failures

A run can end before its patch does. A *fatal error* is a fault of the patch,
of a file it names, or of the file tree; the command line reports it and exits
with status 2. A *failure* is a fatal error or one of the few faults that no
one has foreseen a report for: a number too long to be read, a zero byte in a
path, a second line handed back, the unknown name of a log level.

Every failure is its cause, with what the cause is about; the wording is made
from it in one place.
-/

namespace UnifiedPatch

/-- Why a patch cannot be followed. -/
inductive InvalidReason where
  /-- no reason is given -/
  | unspecified
  /-- the patch ends after the marker line of an old file -/
  | endAfterOldMarker
  /-- hunk `number` starts at source line `start`, but the lines before line
  `cursor` are used up -/
  | hunkBehind (number start cursor : Nat)
  /-- a reason in a caller's own words -/
  | described (text : Bytes)
  deriving DecidableEq, Repr

/-- The wording of a reason. -/
def InvalidReason.message : InvalidReason → Bytes
  | unspecified => Bytes.ascii "invalid patch"
  | endAfterOldMarker =>
      Bytes.ascii "invalid patch: unexpected end after '---' line"
  | hunkBehind number start cursor =>
      Bytes.ascii "invalid patch: hunk #" ++ Decimal.ofNat number ++
        Bytes.ascii " starts at line " ++ Decimal.ofNat start ++
        Bytes.ascii ", before line " ++ Decimal.ofNat cursor
  | described text => text

/-- What went wrong with a file: a number, if the system gave one, and words. -/
structure IOCause where
  code : Option Int
  words : Bytes
  deriving DecidableEq, Repr

namespace IOCause

/-- A fault of the file tree. -/
def ofFault (e : Fault) : IOCause := { code := some e.code, words := e.message }

/-- A file that is not opened. -/
def ofRefusal (r : Refusal) : IOCause :=
  { code := some r.code, words := r.message }

/-- A target that is there and is no regular file. -/
def notRegular (e : Fault) : IOCause :=
  { code := some e.code, words := Bytes.ascii "not a regular file" }

/-- A cause given by its number and words; without words the number is shown. -/
def numbered (code : Int) (words : Bytes) : IOCause :=
  { code := some code
    words :=
      if words = [] then
        Bytes.ascii "[Errno " ++ Decimal.ofInt code ++ Bytes.ascii "] "
      else words }

/-- A cause given in words alone. -/
def unnumbered (words : Bytes) : IOCause := { code := none, words }

end IOCause

/-- The kinds of fatal errors. -/
inductive FatalKind where
  | invalidPatch
  | badSource
  | io
  deriving DecidableEq, Repr

namespace FatalKind

/-- The name of a kind. -/
def name : FatalKind → Bytes
  | invalidPatch => Bytes.ascii "invalid_patch"
  | badSource => Bytes.ascii "bad_source_file"
  | io => Bytes.ascii "io_error"

/-- The kind that a name names. -/
def ofName? (s : Bytes) : Option FatalKind :=
  [invalidPatch, badSource, io].find? fun kind => kind.name == s

/-- The wording for a name that is no kind's. -/
def unknownMessage (name : Bytes) : Bytes :=
  Text.quoted name ++ Bytes.ascii " is not a valid PatchErrorType"

theorem ofName?_name (kind : FatalKind) : ofName? kind.name = some kind := by
  cases kind <;> decide

end FatalKind

/-- An error that ends the whole run. -/
inductive FatalError where
  /-- the patch cannot be followed; the line at fault is kept if there is one -/
  | invalidPatch (reason : InvalidReason) (line : Option Line)
  /-- the file `name` is `missing` lines too short for the lines before
  a hunk -/
  | badSource (name : Bytes) (missing : Int)
  /-- a file or directory cannot be used -/
  | io (path : Path) (cause : IOCause)
  /-- an error of a caller, with the caller's message -/
  | other (kind : FatalKind) (message : Bytes)
  deriving DecidableEq, Repr

namespace FatalError

/-- The kind of a fatal error. -/
def kind : FatalError → FatalKind
  | invalidPatch _ _ => .invalidPatch
  | badSource _ _ => .badSource
  | io _ _ => .io
  | other kind _ => kind

/-- The wording of a fatal error. -/
def message : FatalError → Bytes
  | invalidPatch reason _ => reason.message
  | badSource name _ => Bytes.ascii "bad src file: " ++ name
  | io path cause => path.toBytes ++ Bytes.ascii ": " ++ cause.words
  | other _ message => message

/-- The exit status that a fatal error leads to. -/
def exitStatus (_ : FatalError) : Nat := 2

end FatalError

/-- What can end a run before its patch does. -/
inductive Failure where
  | fatal (error : FatalError)
  /-- a run of digits in a hunk header is too long to be read -/
  | overlong (run : Hunk.OverlongRun)
  /-- a path holds a zero byte -/
  | nullByte
  /-- a line was handed back while another one was held -/
  | alreadyHeld
  /-- no log level has this name -/
  | unknownLevel (name : Bytes)
  deriving DecidableEq, Repr

/-- The wording of a failure. -/
def Failure.message : Failure → Bytes
  | fatal error => error.message
  | overlong run =>
      Bytes.ascii "Exceeds the limit (" ++ Decimal.ofNat Hunk.digitLimit ++
        Bytes.ascii " digits) for integer string conversion: value has " ++
        Decimal.ofNat run.digits ++
        Bytes.ascii
          " digits; use sys.set_int_max_str_digits() to increase the limit"
  | nullByte => Bytes.ascii "embedded null byte"
  | alreadyHeld => Bytes.ascii "only one line can be pushed back"
  | unknownLevel name => Bytes.ascii "Unknown level: " ++ Text.quoted name

end UnifiedPatch
