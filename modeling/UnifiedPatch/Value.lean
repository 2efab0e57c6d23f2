import UnifiedPatch.Decimal
import UnifiedPatch.Text.Quoted

/-!
# Loosely typed values

A configuration holds values whose types it does not declare: nothing, a truth
value, a number, a text, a list, or a table of named values. A number keeps
whether it was written as a whole one, since `2` and `2.0` are shown differently
and not taken by the same fields.

A value that cannot be used is shown in a message. Numbers that are not whole
are shown with all their digits, positionally from 10^-4 up to 10^16 and with an
exponent of at least two digits beyond, and always with something after the
point where there is one.
-/

namespace UnifiedPatch

/-- A value as a configuration gives it. -/
inductive Value where
  | absent
  | truth (b : Bool)
  | whole (n : Int)
  /-- a number written with a fraction or an exponent: `digits` times ten to the
  power `exponent`, below zero if `negative` -/
  | real (negative : Bool) (digits : Nat) (exponent : Int)
  | text (s : Bytes)
  | list (items : List Value)
  | table (entries : List (Bytes × Value))
  deriving Repr

namespace Value

/-! ## Numbers that are not whole -/

/-- The same number with its last digit no zero, unless it is zero. -/
def dropLastZeros (digits : Nat) (exponent : Int) : Nat × Int :=
  if _h : digits = 0 then (0, 0)
  else if digits % 10 = 0 then dropLastZeros (digits / 10) (exponent + 1)
  else (digits, exponent)
termination_by digits

/-- A number of zeros. -/
def zeros (n : Nat) : Bytes := List.replicate n 48

/-- Digits with a point after the first `before` of them. -/
def pointed (digits : Bytes) (before : Int) : Bytes :=
  if before ≤ 0 then Bytes.ascii "0." ++ zeros (-before).toNat ++ digits
  else
    let filled := digits ++ zeros (before.toNat - digits.length)
    filled.take before.toNat ++ Bytes.ascii "." ++
      (if filled.length ≤ before.toNat then Bytes.ascii "0"
        else filled.drop before.toNat)

/-- Digits with a point after the first of them, if there are more, and the
exponent of that one. -/
def scientific (digits : Bytes) (exponent : Int) : Bytes :=
  let size := Decimal.ofNat exponent.natAbs
  digits.take 1 ++ (if digits.length ≤ 1 then [] else 46 :: digits.drop 1) ++
    Bytes.ascii (if exponent < 0 then "e-" else "e+") ++
      zeros (2 - size.length) ++ size

/-- A number that is not whole, as it is shown. -/
def realText (negative : Bool) (digits : Nat) (exponent : Int) : Bytes :=
  let (digits, exponent) := dropLastZeros digits exponent
  let run := Decimal.ofNat digits
  let leading := exponent + run.length - 1
  (if negative then Bytes.ascii "-" else []) ++
    if -4 ≤ leading ∧ leading < 16 then pointed run (leading + 1)
    else scientific run leading

/-! ## All values -/

/-- The text of a truth value. -/
def truthText (b : Bool) : Bytes := Bytes.ascii (if b then "True" else "False")

/-- Texts with a comma and a blank between each two of them. -/
def commaSeparated : List Bytes → Bytes
  | [] => []
  | [piece] => piece
  | piece :: pieces => piece ++ Bytes.ascii ", " ++ commaSeparated pieces

mutual

/-- A value as it is shown in a message. -/
def shown : Value → Bytes
  | absent => Bytes.ascii "None"
  | truth b => truthText b
  | whole n => Decimal.ofInt n
  | real negative digits exponent => realText negative digits exponent
  | text s => Text.quoted s
  | list items =>
      Bytes.ascii "[" ++ commaSeparated (shownItems items) ++ Bytes.ascii "]"
  | table entries =>
      Bytes.ascii "\x7b" ++ commaSeparated (shownEntries entries) ++
        Bytes.ascii "\x7d"

/-- The items of a list as they are shown. -/
def shownItems : List Value → List Bytes
  | [] => []
  | item :: items => item.shown :: shownItems items

/-- The entries of a table as they are shown, in the order given. -/
def shownEntries : List (Bytes × Value) → List Bytes
  | [] => []
  | (name, value) :: entries =>
      (Text.quoted name ++ Bytes.ascii ": " ++ value.shown) ::
        shownEntries entries

end

end Value

end UnifiedPatch
