import UnifiedPatch.FileTree

/-!
# From one tree to another

A run works on a tree held in memory. Before it, the locations that its paths
can lead to are filled in (`visited`); after it, what has changed is carried out
one change at a time: files that are gone are removed, then directories are
made and files written, from the root downwards.
-/

namespace UnifiedPatch

namespace FileTree

/-- The locations on the way along a path, the last one included. -/
def visited (t : FileTree) (p : Path) : List Location :=
  (p.segments.foldl
    (fun (passed, loc) seg =>
      let loc := if seg = Path.dotDot then loc.tail else seg :: loc
      (loc :: passed, loc))
    (([] : List Location), t.anchorLocation p.anchor)).1.reverse

/-- One thing to do to a tree. -/
inductive Change where
  | remove (loc : Location)
  | makeDirectory (loc : Location)
  | write (loc : Location) (content : Bytes)
  deriving DecidableEq, Repr

/-- The files of one tree that are gone from another. -/
def removals (before after : FileTree) : List Change :=
  before.entries.filterMap fun (loc, node) =>
    match node, after.node? loc with
    | .file .., none => some (.remove loc)
    | _, _ => none

/-- What one tree has that another has not, or has otherwise. -/
def additions (before after : FileTree) : List Change :=
  let sorted := after.entries.mergeSort fun a b => a.1.length ≤ b.1.length
  sorted.filterMap fun (loc, node) =>
    if before.node? loc = some node then none
    else
      match node with
      | .directory => some (.makeDirectory loc)
      | .file content _ => some (.write loc content)
      | .device => none

/-- What turns the files of one tree into those of another. -/
def changes (before after : FileTree) : List Change :=
  removals before after ++ additions before after

end FileTree

end UnifiedPatch
