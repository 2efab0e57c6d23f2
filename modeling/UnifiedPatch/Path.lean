import UnifiedPatch.Bytes

/-!
# Paths

A path is a list of segments, hanging in the working directory, in the root, or
in the root written with two slashes, which stays written so. Empty segments
and `.` say nothing and are dropped when a path is read; `..` stays, because
what it leads to depends on what is there. The path without segments is
written `.`.

Joining puts a path under a directory, unless the path hangs in the root.
-/

namespace UnifiedPatch

/-- Where the first segment of a path hangs. -/
inductive Anchor where
  | working
  | root
  | doubleRoot
  deriving DecidableEq, Repr

/-- A path in normal form. -/
structure Path where
  anchor : Anchor
  segments : List Bytes
  deriving DecidableEq, Repr

namespace Path

/-- The segment that stands for the directory itself. -/
def dot : Bytes := Bytes.ascii "."

/-- The segment that leads to the directory above. -/
def dotDot : Bytes := Bytes.ascii ".."

/-- The anchor that the leading slashes of a text give: two of them are kept,
three and more are one. -/
def anchorOf : Bytes → Anchor
  | 47 :: 47 :: 47 :: _ => .root
  | 47 :: 47 :: _ => .doubleRoot
  | 47 :: _ => .root
  | _ => .working

/-- The path that a text names. -/
def ofBytes (s : Bytes) : Path :=
  { anchor := anchorOf s
    segments := (Bytes.splitOn Bytes.slash s).filter fun seg => seg != [] &&
      seg != dot }

/-- The text of an anchor. -/
def anchorText : Anchor → Bytes
  | .working => []
  | .root => Bytes.ascii "/"
  | .doubleRoot => Bytes.ascii "//"

/-- The text of a path. -/
def toBytes (p : Path) : Bytes :=
  if p.anchor = .working ∧ p.segments = [] then dot
  else anchorText p.anchor ++ Bytes.joinWith Bytes.slash p.segments

/-- The path that `text` names from the directory `dir`. -/
def join (dir : Path) (text : Bytes) : Path :=
  let p := ofBytes text
  if p.anchor = .working then
    { dir with segments := dir.segments ++ p.segments }
  else p

/-- The path without its last segment. -/
def parent (p : Path) : Path := { p with segments := p.segments.dropLast }

/-- The path whose last segment is followed by `suffix`. -/
def withSuffix (p : Path) (suffix : Bytes) : Path :=
  match p.segments.getLast? with
  | none => p
  | some last => { p with segments := p.segments.dropLast ++ [last ++ suffix] }

/-- Whether a byte of the path is zero; no file system takes such a path. -/
def hasNull (p : Path) : Bool := p.segments.any fun seg => seg.contains 0

end Path

end UnifiedPatch
