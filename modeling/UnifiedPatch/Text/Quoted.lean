import UnifiedPatch.Bytes

/-!
# Quoted texts

A text shown inside a message stands in quotes, so that its ends can be seen.
Single quotes are used unless the text holds one and no double quote. The
quote in use and the backslash get a backslash before them; tab, newline and
carriage return are written as letters. All other characters that cannot be
seen are written by their number in hexadecimal digits, and so is a byte that
belongs to no character. All else is shown as it is.
-/

namespace UnifiedPatch

namespace Text

/-- The quote that a text is shown in. -/
def quoteFor (s : Bytes) : UInt8 :=
  if s.contains 39 && !s.contains 34 then 34 else 39

/-- The lower-case hexadecimal digit of a number below sixteen. -/
def hexDigit (n : Nat) : UInt8 := (if n < 10 then 48 + n else 87 + n).toUInt8

/-- The last `width` hexadecimal digits of a number. -/
def hexDigits : (width : Nat) → Nat → Bytes
  | 0, _ => []
  | width + 1, n => hexDigits width (n / 16) ++ [hexDigit (n % 16)]

/-- Ranges of code points beyond ASCII that cannot be seen: controls,
separators, format characters and those for private use. Code points that no
character has yet are not among them. -/
def unseen : List (Nat × Nat) :=
  [(0x80, 0xa0), (0xad, 0xad), (0x600, 0x605), (0x61c, 0x61c), (0x6dd, 0x6dd),
    (0x70f, 0x70f), (0x890, 0x891), (0x8e2, 0x8e2), (0x1680, 0x1680),
    (0x180e, 0x180e), (0x2000, 0x200f), (0x2028, 0x202f), (0x205f, 0x2064),
    (0x2066, 0x206f), (0x3000, 0x3000), (0xe000, 0xf8ff), (0xfeff, 0xfeff),
    (0xfff9, 0xfffb), (0x110bd, 0x110bd), (0x110cd, 0x110cd),
    (0x13430, 0x1343f), (0x1bca0, 0x1bca3), (0x1d173, 0x1d17a),
    (0xe0001, 0xe0001), (0xe0020, 0xe007f), (0xf0000, 0xffffd),
    (0x100000, 0x10fffd)]

/-- Whether a character can be seen. -/
def isSeen (c : Char) : Bool :=
  let n := c.toNat
  32 ≤ n && n != 127 && !unseen.any fun range => range.1 ≤ n && n ≤ range.2

/-- A character by its number, in the shortest of three forms. -/
def numbered (c : Char) : Bytes :=
  let n := c.toNat
  if n < 0x100 then Bytes.ascii "\\x" ++ hexDigits 2 n
  else if n < 0x10000 then Bytes.ascii "\\u" ++ hexDigits 4 n
  else Bytes.ascii "\\U" ++ hexDigits 8 n

/-- How a character, given with its bytes, is shown between two quotes. -/
def escape (quote : UInt8) (c : Char) (bytes : Bytes) : Bytes :=
  if bytes = [quote] || c = '\\' then 92 :: bytes
  else if c = '\t' then Bytes.ascii "\\t"
  else if c = '\n' then Bytes.ascii "\\n"
  else if c = '\r' then Bytes.ascii "\\r"
  else if isSeen c then bytes
  else numbered c

/-- How a byte that belongs to no character is shown. -/
def stray (b : UInt8) : Bytes := Bytes.ascii "\\udc" ++ hexDigits 2 b.toNat

/-- The character at the front of a text, if there is one, and how many bytes
follow its first. -/
def front? (s : Bytes) : Option (Char × Nat) :=
  [0, 1, 2, 3].findSome? fun more =>
    match (String.fromUTF8? (ByteArray.mk (s.take (more + 1)).toArray)).map
      String.toList with
    | some [c] => some (c, more)
    | _ => none

/-- A text as it is shown between two quotes. -/
def shownBetween (quote : UInt8) : Bytes → Bytes
  | [] => []
  | b :: s =>
      match front? (b :: s) with
      | none => stray b ++ shownBetween quote s
      | some (c, more) =>
          escape quote c (b :: s.take more) ++ shownBetween quote (s.drop more)
termination_by s => s.length
decreasing_by all_goals simp only [List.length_cons, List.length_drop]; omega

/-- A text in quotes. -/
def quoted (s : Bytes) : Bytes :=
  let quote := quoteFor s
  quote :: shownBetween quote s ++ [quote]

end Text

end UnifiedPatch
