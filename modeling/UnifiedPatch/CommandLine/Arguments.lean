import UnifiedPatch.Bytes

/-!
# Arguments of the command line

The command line is a list of options. An option has a long name, most have a
short one too; some take a value. Short options may stand together behind one
dash, and the value of the last of them may follow directly or be the next
argument, whatever that looks like. A long option takes its value after an
equals sign or from the next argument; one that takes none refuses the equals
sign. `--` ends the options.

Splitting comes first and knows nothing of the values: it yields the options in
the order given, with their values as texts, and the arguments that are left
over.
-/

namespace UnifiedPatch

namespace CommandLine

/-- The options of the program. -/
inductive Switch where
  | input
  | strip
  | reverse
  | forward
  | dryRun
  | directory
  | force
  | removeEmptyFiles
  | get
  | backupIfMismatch
  | noBackupIfMismatch
  | verbose
  | help
  deriving DecidableEq, Repr

namespace Switch

/-- Every option. -/
def all : List Switch :=
  [input, strip, reverse, forward, dryRun, directory, force,
    removeEmptyFiles, get, backupIfMismatch, noBackupIfMismatch, verbose, help]

/-- The letter of an option, if it has one. -/
def letter? : Switch → Option Char
  | input => some 'i'
  | strip => some 'p'
  | reverse => some 'R'
  | forward => some 'N'
  | directory => some 'd'
  | force => some 'f'
  | removeEmptyFiles => some 'E'
  | get => some 'g'
  | verbose => some 'v'
  | dryRun | backupIfMismatch | noBackupIfMismatch | help => none

/-- The long name of an option. -/
def longName : Switch → String
  | input => "input"
  | strip => "strip"
  | reverse => "reverse"
  | forward => "forward"
  | dryRun => "dry-run"
  | directory => "directory"
  | force => "force"
  | removeEmptyFiles => "remove-empty-files"
  | get => "get"
  | backupIfMismatch => "backup-if-mismatch"
  | noBackupIfMismatch => "no-backup-if-mismatch"
  | verbose => "verbose"
  | help => "help"

/-- Whether an option takes a value. -/
def takesValue : Switch → Bool
  | input | strip | directory | get => true
  | _ => false

/-- The option with a letter. -/
def ofLetter? (b : UInt8) : Option Switch :=
  all.find? fun switch => switch.letter?.any fun c => c.toNat.toUInt8 == b

/-- The option with a long name. -/
def ofLongName? (name : Bytes) : Option Switch :=
  all.find? fun switch => Bytes.ascii switch.longName == name

end Switch

/-- An option as it was given, with its value if it takes one. -/
structure Occurrence where
  switch : Switch
  value : Option Bytes := none
  deriving DecidableEq, Repr

/-- The options in the order given, and the arguments left over. -/
structure Split where
  options : List Occurrence := []
  operands : List Bytes := []

/-- One argument's options; the last may still want its value. -/
structure Cluster where
  options : List Occurrence
  wanting : Option Switch := none

/-- The options of the letters behind one dash; `none` if a letter is unknown.
-/
def readLetters : Bytes → Option Cluster
  | [] => some { options := [] }
  | b :: rest =>
      match Switch.ofLetter? b with
      | none => none
      | some switch =>
          if switch.takesValue then
            if rest.isEmpty then some { options := [], wanting := some switch }
            else some { options := [{ switch, value := some rest }] }
          else
            (readLetters rest).map fun cluster =>
              { cluster with options := { switch } :: cluster.options }

/-- The option behind two dashes, with its value if there is an equals sign. -/
def readLong (s : Bytes) : Option Cluster :=
  let name := s.takeWhile (· != 61)
  match Switch.ofLongName? name, s.dropWhile (· != 61) with
  | none, _ => none
  | some switch, [] =>
      if switch.takesValue then some { options := [], wanting := some switch }
      else some { options := [{ switch }] }
  | some switch, _ :: value =>
      if switch.takesValue then some
        { options := [{ switch, value := some value }] }
      else none

/-- How an argument is to be read. -/
inductive ArgumentKind where
  | endOfOptions
  | options (cluster : Option Cluster)
  | operand

/-- The kind of an argument: a dash alone is an operand. -/
def kindOf : Bytes → ArgumentKind
  | [45, 45] => .endOfOptions
  | 45 :: 45 :: s => .options (readLong s)
  | 45 :: b :: s => .options (readLetters (b :: s))
  | _ => .operand

/-- Splits a command line; `none` if an option is unknown, lacks its value, or
is given one it does not take. -/
def split : List Bytes → Option Split
  | [] => some {}
  | arg :: rest =>
      match kindOf arg with
      | .endOfOptions => some { operands := rest }
      | .operand =>
          (split rest).map fun s => { s with operands := arg :: s.operands }
      | .options none => none
      | .options (some cluster) =>
          match cluster.wanting with
          | none =>
              (split rest).map fun s =>
                { s with options := cluster.options ++ s.options }
          | some switch =>
              match rest with
              | [] => none
              | value :: rest =>
                  (split rest).map fun s =>
                    { s with
                      options :=
                        cluster.options ++
                          { switch, value := some value } :: s.options }

end CommandLine

end UnifiedPatch
