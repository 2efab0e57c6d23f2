import UnifiedPatch.LineStream

/-!
# The body of a hunk

A body line is a marker byte and the content of one line of a file: a blank for
a line that both files have, `-` for a line of the old file, `+` for a line of
the new one. Applied backwards the two signs change places. A bare newline is
what an editor leaves of an empty context line when it cuts trailing blanks, so
its blank is put back.

The first line with another marker is not of the body; it is handed back to
whoever reads next.
-/

namespace UnifiedPatch

/-- What a body line says about its content: it stays, it goes, it comes. -/
inductive Role where
  | context
  | deletion
  | insertion
  deriving DecidableEq, Repr

namespace Role

/-- The marker of lines that go, by direction. -/
def deletionMarker (reverse : Bool) : UInt8 := if reverse then 43 else 45

/-- The marker of lines that come, by direction. -/
def insertionMarker (reverse : Bool) : UInt8 := if reverse then 45 else 43

/-- The role that a marker byte gives. -/
def ofMarker? (reverse : Bool) (marker : UInt8) : Option Role :=
  if marker = 32 then some .context
  else if marker = deletionMarker reverse then some .deletion
  else if marker = insertionMarker reverse then some .insertion
  else none

/-- Whether a line of this role stands in the source. -/
def inSource (role : Role) : Bool := role != .insertion

/-- Whether a line of this role stands in the result. -/
def inResult (role : Role) : Bool := role != .deletion

end Role

/-- A line of a hunk's body: its role, the content after the marker, and the
whole text that is handed back if the line turns out not to belong here. -/
structure BodyLine where
  role : Role
  content : Bytes
  text : Line
  deriving DecidableEq, Repr

namespace BodyLine

/-- A bare newline gets back the blank that it lost. -/
def restoreBlank (line : Line) : Line :=
  if line = [10] ∨ line = [13, 10] then 32 :: line else line

/-- The body line that a line of the patch is, if its marker says so. -/
def ofLine? (reverse : Bool) (line : Line) : Option BodyLine :=
  match restoreBlank line with
  | [] => none
  | marker :: content =>
      (Role.ofMarker? reverse marker).map fun role =>
        { role, content, text := marker :: content }

end BodyLine

/-- All body lines at the front of a stream, and the stream with the first line
that is none handed back. -/
def readBody (reverse : Bool) (s : LineStream) : List BodyLine × LineStream :=
  match _h : s.next? with
  | none => ([], s)
  | some (line, rest) =>
      match BodyLine.ofLine? reverse line with
      | none => ([], (rest.unread? line).getD rest)
      | some b => (b :: (readBody reverse rest).1, (readBody reverse rest).2)
termination_by s.ready.length
decreasing_by all_goals
  have := LineStream.length_ready_of_next? _h
  omega

end UnifiedPatch
