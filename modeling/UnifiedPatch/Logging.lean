import UnifiedPatch.Event
import UnifiedPatch.Failure
import UnifiedPatch.Value

/-!
# The log

The log has one logger for the whole program, with a level below which remarks
are not written. A level is a number or the name of one. Setting the log up
again replaces the handler that was installed before and leaves handlers of
others alone; a level that does not exist is found out after the handler is in
place, and before the logger is cut off from the loggers above it.
-/

namespace UnifiedPatch

namespace Logging

/-- The names of levels. -/
def levelNames : List (Bytes × Int) :=
  [("CRITICAL", 50), ("FATAL", 50), ("ERROR", 40), ("WARNING", 30),
    ("WARN", 30), ("INFO", 20), ("DEBUG", 10), ("NOTSET", 0)].map
    fun (name, n) => (Bytes.ascii name, n)

/-- The number of a named level. Capital letters count. -/
def levelNumber? (name : Bytes) : Option Int := levelNames.lookup name

/-- The level of a log that is not told otherwise. -/
def warning : Int := 30

/-- The level that lets every remark through. -/
def debug : Int := 10

/-- An ASCII letter in its capital form. -/
def upper (b : UInt8) : UInt8 := if 97 ≤ b && b ≤ 122 then b - 32 else b

/-- The name of the level that is asked for if no one asks. -/
def defaultName : Bytes := Bytes.ascii "WARNING"

/-- The name of the level that the environment asks for, or else the default, in
capitals. -/
def requestedLevel (environment : Option Bytes) (default : Bytes) : Bytes :=
  (environment.getD default).map upper

/-- The name of the program's logger. -/
def loggerName : Bytes := Bytes.ascii "hunkpatch"

/-- The logger: its level, how many handlers of others it has, whether the
program's own handler is installed, and whether its records go on to the logger
above. -/
structure Logger where
  level : Int := 0
  otherHandlers : Nat := 0
  installed : Bool := false
  propagates : Bool := true
  deriving DecidableEq, Repr

/-- How many handlers a logger has. -/
def Logger.handlers (l : Logger) : Nat := l.otherHandlers + l.installed.toNat

/-- Why a level cannot be set: no level has the name, or the value, given as it
is shown, is neither a number nor a name. -/
inductive LevelFault where
  | unknown (name : Bytes)
  | wrongType (shown : Bytes)
  deriving DecidableEq, Repr

/-- The wording of a level fault. -/
def LevelFault.message : LevelFault → Bytes
  | unknown name => (Failure.unknownLevel name).message
  | wrongType shown =>
      Bytes.ascii "Level not an integer or a valid string: " ++ shown

/-- The number of the level that a value asks for. A truth value counts as 0
or 1. -/
def requestedNumber : Value → Except LevelFault Int
  | .whole n => .ok n
  | .truth b => .ok b.toInt
  | .text name =>
      match levelNumber? name with
      | some n => .ok n
      | none => .error (.unknown name)
  | v => .error (.wrongType v.shown)

/-- Sets a logger up; what was done before a fault stays. -/
def Logger.setUp (l : Logger) (request : Value) :
    Logger × Except LevelFault Unit :=
  let l := { l with installed := true }
  match requestedNumber request with
  | .ok level => ({ l with level, propagates := false }, .ok ())
  | .error e => (l, .error e)

/-- The level that decides what is written: a logger of level 0 leaves it to the
one above, which writes warnings. -/
def effectiveLevel (level : Int) : Int := if level = 0 then warning else level

/-- Whether a remark is written by a logger of the given level. -/
def admits (level : Int) (r : Remark) : Bool :=
  effectiveLevel level ≤ r.severity.number

/-- The line that a remark is in the log, after a time stamp. -/
def line (stamp : Bytes) (r : Remark) : Bytes :=
  stamp ++ Bytes.ascii " " ++ r.severity.name ++ Bytes.ascii " " ++ r.logger ++
    Bytes.ascii ": " ++ r.message ++ [Bytes.newline]

end Logging

/-- What a run writes to standard error: notices and the remarks that the level
admits, as they come. -/
def Transcript.standardError (stamp : Bytes) (level : Int) (t : Transcript) :
    Bytes :=
  t.toList.flatMap fun
    | .notice n => if n.channel = .err then n.shown else []
    | .remark r => if Logging.admits level r then Logging.line stamp r else []

end UnifiedPatch
