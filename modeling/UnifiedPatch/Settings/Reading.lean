import UnifiedPatch.Settings
import UnifiedPatch.Text.Integer
import UnifiedPatch.Value

/-!
# Settings from loosely typed values

Settings may come from a table of named values of any type, as a configuration
file gives them. A value is taken if it can only mean one thing: a whole number
may be written with a fraction of zeros or as a text, a truth value as a word
or as 0 or 1. All faults of a table are reported together, each with its kind
and the field that it is about, in the order of their names.
-/

namespace UnifiedPatch

namespace Settings

/-- The kinds of faults that a table of settings can have. -/
inductive FaultKind where
  | unknownField
  | intText
  | intType
  | intFraction
  | intSize
  | truthText
  | truthType
  | pathType
  | readOnly
  deriving DecidableEq, Repr

/-- The name of a kind of fault. -/
def FaultKind.name : FaultKind → Bytes
  | unknownField => Bytes.ascii "extra_forbidden"
  | intText => Bytes.ascii "int_parsing"
  | intType => Bytes.ascii "int_type"
  | intFraction => Bytes.ascii "int_from_float"
  | intSize => Bytes.ascii "int_parsing_size"
  | truthText => Bytes.ascii "bool_parsing"
  | truthType => Bytes.ascii "bool_type"
  | pathType => Bytes.ascii "path_type"
  | readOnly => Bytes.ascii "frozen_instance"

/-- A fault and the field it is about. -/
structure FieldFault where
  kind : FaultKind
  field : Bytes
  deriving DecidableEq, Repr

/-! ## Numbers and truth values -/

/-- The whole number that a number with a fraction or an exponent is, if it is
whole. -/
def wholeReal? (negative : Bool) (digits : Nat) (exponent : Int) : Option Int :=
  let size : Nat := digits * Nat.pow 10 exponent.toNat
  let unit : Nat := Nat.pow 10 (-exponent).toNat
  if size % unit = 0 then some (if negative then -(size / unit : Nat)
  else (size / unit : Nat))
  else none

/-- The numbers of a machine word with a sign. -/
def isWord (n : Int) : Bool := -Int.pow 2 63 ≤ n && n < Int.pow 2 63

/-- A whole number from a value. One that is written with a fraction or an
exponent has to fit a machine word. -/
def wholeValue : Value → Except FaultKind Int
  | .truth b => .ok b.toInt
  | .whole n => .ok n
  | .real negative digits exponent =>
      match wholeReal? negative digits exponent with
      | none => .error .intFraction
      | some n => if isWord n then .ok n else .error .intSize
  | .text s =>
      match Text.integer s with
      | .ok n => .ok n
      | .error .malformed => .error .intText
      | .error .tooLong => .error .intSize
  | .absent | .list _ | .table _ => .error .intType

/-- The words for true and for false. -/
def truthWords : List (Bytes × Bool) :=
  [("1", true), ("t", true), ("true", true), ("on", true), ("y", true),
    ("yes", true), ("0", false), ("f", false), ("false", false), ("off", false),
    ("n", false), ("no", false)].map fun (word, b) => (Bytes.ascii word, b)

/-- An ASCII letter in its small form. -/
def lower (b : UInt8) : UInt8 := if 65 ≤ b && b ≤ 90 then b + 32 else b

/-- A truth value from a whole number. A number other than 0 and 1 is one
in a wrong form if it fits a machine word, and no truth value at all if it
does not. -/
def truthOfWhole (n : Int) : Except FaultKind Bool :=
  if n = 0 then .ok false
  else if n = 1 then .ok true
  else .error (if isWord n then .truthText else .truthType)

/-- A truth value from a value. -/
def truthValue : Value → Except FaultKind Bool
  | .truth b => .ok b
  | .whole n => truthOfWhole n
  | .real negative digits exponent =>
      match wholeReal? negative digits exponent with
      | none => .error .truthType
      | some n => truthOfWhole n
  | .text s =>
      match truthWords.lookup (s.map lower) with
      | some b => .ok b
      | none => .error .truthText
  | .absent | .list _ | .table _ => .error .truthType

/-- A path from a value. -/
def pathValue : Value → Except FaultKind Path
  | .text s => .ok (Path.ofBytes s)
  | _ => .error .pathType

/-! ## The table -/

/-- The settings with one field set from a value. -/
def setField (settings : Settings) (field : Bytes) (v : Value) :
    Except FaultKind Settings :=
  if field = Bytes.ascii "strip_level" then
    (wholeValue v).map fun stripLevel => { settings with stripLevel }
  else if field = Bytes.ascii "reverse" then
    (truthValue v).map fun reverse => { settings with reverse }
  else if field = Bytes.ascii "skip_applied" then
    (truthValue v).map fun skipApplied => { settings with skipApplied }
  else if field = Bytes.ascii "dry_run" then
    (truthValue v).map fun dryRun => { settings with dryRun }
  else if field = Bytes.ascii "directory" then
    (pathValue v).map fun directory => { settings with directory }
  else .error .unknownField

/-- Sets fields one after the other and collects the faults. -/
def setFields (settings : Settings) :
    List (Bytes × Value) → Settings × List FieldFault
  | [] => (settings, [])
  | (field, v) :: fields =>
      match settings.setField field v with
      | .ok settings => setFields settings fields
      | .error kind =>
          let (settings, faults) := setFields settings fields
          (settings, { kind, field } :: faults)

/-- The order of faults: by the name of the kind, then by field. -/
def FieldFault.le (a b : FieldFault) : Bool :=
  if a.kind.name = b.kind.name then a.field ≤ b.field
  else a.kind.name ≤ b.kind.name

/-- Settings from a table; a field that is not in it has its default, and the
default directory is the one given. -/
def ofFields (directory : Path) (fields : List (Bytes × Value)) :
    Except (List FieldFault) Settings :=
  match setFields { directory } fields with
  | (settings, []) => .ok settings
  | (_, faults) => .error (faults.mergeSort FieldFault.le)

/-- The settings after an assignment to a name. Settings do not change once they
are made, so that it is a fault, whatever the value; a name that starts with an
underscore is no field's, and the settings stay as they are. -/
def assign (settings : Settings) (name : Bytes) (_ : Value) :
    Except FieldFault Settings :=
  if name.head? = some 95 then .ok settings
  else .error { kind := .readOnly, field := name }

end Settings

end UnifiedPatch
