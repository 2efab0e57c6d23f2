import UnifiedPatch.Decimal

/-!
# Integers written by hand

An integer in an argument or a configuration is read with some tolerance. It is
brought to its plain form, a minus sign or none and digits without a leading
zero, in five steps: blanks around it go; a plus sign goes; the zeros in front
go, with underscores among them; a fraction of zeros goes; underscores that
stand singly between other characters go.

Only the plain form is checked. A minus sign ends the zeros in front as a digit
does, so `0-5` stands for minus five; `0-05` stands for nothing, since the zero
that is left is no longer in front.
-/

namespace UnifiedPatch

namespace Text

/-- Why a text is not read as an integer. -/
inductive IntegerFault where
  /-- it is none -/
  | malformed
  /-- its plain form has too many digits -/
  | tooLong
  deriving DecidableEq, Repr

/-- The most digits of a plain form that are read; the minus sign is none. -/
def integerLimit : Nat := 4300

/-- White space at the ends of a text. -/
def isBlank (b : UInt8) : Bool := b == 32 || (9 ≤ b && b ≤ 13)

/-- A text without the blanks at its ends. -/
def trim (s : Bytes) : Bytes :=
  ((s.dropWhile isBlank).reverse.dropWhile isBlank).reverse

/-- A text without its plus sign; no minus sign may follow one. -/
def dropPlus? : Bytes → Option Bytes
  | 43 :: 45 :: _ => none
  | 43 :: s => some s
  | s => some s

/-- What is left of a number after zeros and underscores of which `last` was the
latest. If nothing is left, or only a fraction, the latest one stays. -/
def afterZeros? (last : UInt8) : Bytes → Option Bytes
  | [] => some [last]
  | b :: s =>
      if b = 48 || b = 95 then afterZeros? b s
      else if b = 46 then some (last :: b :: s)
      else if b = 45 || Decimal.isDigit b then some (b :: s)
      else none

/-- A number without the zeros in front of it, but with the minus signs. -/
def dropZeros? : Bytes → Option Bytes
  | [] => none
  | b :: s =>
      if b = 45 then (dropZeros? s).map (b :: ·)
      else if b = 48 then afterZeros? b s
      else if Decimal.isDigit b then some (b :: s)
      else none

/-- A text without a point and the zeros after it, if it ends so. -/
def dropZeroFraction (s : Bytes) : Bytes :=
  match s.dropWhile (· != 46) with
  | _ :: b :: more =>
      if (b :: more).all (· == 48) then s.takeWhile (· != 46) else s
  | _ => s

/-- A text without its underscores, if each stands between other characters. -/
def joinGroups (s : Bytes) : Bytes :=
  let groups := Bytes.splitOn 95 s
  if groups.contains [] then s else groups.flatten

/-- Whether a text starts with a minus sign, and the text after it. -/
def splitMinus : Bytes → Bool × Bytes
  | 45 :: s => (true, s)
  | s => (false, s)

/-- The integer that a plain form stands for. The digits are counted before
what follows them is looked at. -/
def plainInteger (s : Bytes) : Except IntegerFault Int :=
  let (negative, s) := splitMinus s
  let run := s.takeWhile Decimal.isDigit
  if run = [] || (run.head? = some 48 && run != [48]) then .error .malformed
  else if integerLimit < run.length then .error .tooLong
  else if run != s then .error .malformed
  else .ok (if negative then -(Decimal.value run : Int) else Decimal.value run)

/-- The integer that a text of ASCII characters means. -/
def integer (s : Bytes) : Except IntegerFault Int :=
  match (dropPlus? (trim s)).bind dropZeros? with
  | none => .error .malformed
  | some s => plainInteger (joinGroups (dropZeroFraction s))

/-- The code points of white space beyond ASCII. -/
def wideBlanks : List Nat :=
  [0x85, 0xa0, 0x1680, 0x2000, 0x2001, 0x2002, 0x2003, 0x2004, 0x2005,
    0x2006, 0x2007, 0x2008, 0x2009, 0x200a, 0x2028, 0x2029, 0x202f,
    0x205f, 0x3000]

/-- The ASCII byte that a character counts as when an integer is read: white
space of all scripts is a blank, and a question mark, which no integer holds,
stands for what is not ASCII otherwise. -/
def asciiByte (c : Char) : UInt8 :=
  let n := c.toNat
  if n < 128 then n.toUInt8 else if wideBlanks.contains n then 32 else 63

/-- The ASCII form of a text in UTF-8; `none` if the bytes are not UTF-8. -/
def asciiForm? (s : Bytes) : Option Bytes :=
  (String.fromUTF8? (ByteArray.mk s.toArray)).map fun text =>
    text.toList.map asciiByte

end Text

end UnifiedPatch
