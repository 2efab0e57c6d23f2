import Std.Time.Format
import UnifiedPatch.CommandLine
import UnifiedPatch.FileTree.Change

/-!
# The program

The outer layer: it reads the arguments, the patch and the files that the patch
may use, has the patch applied to the tree they make, and carries out what has
changed. Names that the system cannot be asked for are taken as absent.
-/

namespace UnifiedPatch

namespace Program

/-- The bytes of a text as the system encodes it. -/
def encode (s : String) : Bytes := s.toUTF8.toList

/-- The text that bytes encode. -/
def decode? (b : Bytes) : Option String :=
  String.fromUTF8? (ByteArray.mk b.toArray)

/-- The system's path of a location. -/
def systemPath? (loc : Location) : Option String :=
  decode? { anchor := .root, segments := loc.reverse : Path }.toBytes

/-- What stands at a path of the system. -/
def inspect (path : String) : IO Node := do
  match (← (← IO.FS.realPath path).metadata).type with
  | .dir => return .directory
  | .file => return .file (← IO.FS.readBinFile path).toList Target.newFileMode
  | _ => return .device

/-- Fills in what stands at a location. -/
def load (t : FileTree) (loc : Location) : IO FileTree := do
  match t.node? loc, systemPath? loc with
  | none, some path =>
      try
        return t.put loc (← inspect path)
      catch _ => return t
  | _, _ => return t

/-- Fills in what stands along a path. -/
def loadPath (t : FileTree) (p : Path) : IO FileTree :=
  (t.visited p).foldlM load t

/-- Carries one change out. -/
def carryOut (change : FileTree.Change) : IO Unit :=
  match change with
  | .remove loc => (systemPath? loc).forM fun path => IO.FS.removeFile path
  | .makeDirectory loc =>
      (systemPath? loc).forM fun path => IO.FS.createDir path
  | .write loc content =>
      (systemPath? loc).forM fun path =>
        IO.FS.writeBinFile path ⟨content.toArray⟩

/-- Everything that is left on a stream. -/
partial def readAll (stream : IO.FS.Stream) (got : Bytes) : IO Bytes := do
  let chunk ← stream.read 65536
  if chunk.isEmpty then return got else readAll stream (got ++ chunk.toList)

/-- Writes bytes to a stream. -/
def write (stream : IO.FS.Stream) (b : Bytes) : IO Unit := do
  stream.write ⟨b.toArray⟩
  stream.flush

/-- The tree as it is before anything is loaded: the working directory. -/
def workingTree : IO FileTree := do
  let here := Path.ofBytes (encode (← IO.currentDir).toString)
  return FileTree.fresh here.segments.reverse

/-- The time at which a remark is made. -/
def stamp : IO Bytes := do
  let now := Std.Time.DateTime.ofTimestamp (← Std.Time.Timestamp.now) .UTC
  return encode (now.format "uuuu-MM-dd HH:mm:ss,SSS")

/-- Applies the patch as the options ask. -/
def apply (p : CommandLine.Parameters) : IO UInt32 := do
  let tree ← p.input.toList.foldlM loadPath (← workingTree)
  let stdin ← if p.readsStandardInput then readAll (← IO.getStdin) []
    else pure []
  let patch := p.patch stdin tree
  let tree ← (p.paths patch tree).foldlM loadPath tree
  let environment := (← IO.getEnv "HUNKPATCH_LOG_LEVEL").map encode
  let ending := p.execute environment (← stamp) stdin tree
  (FileTree.changes tree ending.tree).forM carryOut
  write (← IO.getStdout) ending.out
  write (← IO.getStderr) ending.err
  match ending.uncaught? with
  | none => pure ()
  | some why => write (← IO.getStderr) (why.message ++ [Bytes.newline])
  return ending.status.toUInt32

end Program

end UnifiedPatch

open UnifiedPatch in
/-- Applies a patch as the command line asks. -/
def main (args : List String) : IO UInt32 := do
  match CommandLine.readArguments (args.map Program.encode) with
  | .help =>
      (← IO.getStdout).putStr CommandLine.helpText
      return 0
  | .usageError =>
      (← IO.getStderr).putStr CommandLine.usageText
      return 2
  | .apply p => Program.apply p
