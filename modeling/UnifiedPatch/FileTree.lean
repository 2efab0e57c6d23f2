import UnifiedPatch.Path

/-!
# A tree of files

A file tree says what stands at each location. A location is the list of names
from an entry up to the root, so that the directory above is the tail, and a
location lies beneath another exactly if that one is a tail of it. The view of
a tree is `node?`; every operation below is explained by what it does to it.

A path is walked segment by segment. Each segment but the last must lead to a
directory that is there, `..` goes up from one that is, and no name may have
more than 255 bytes. The faults are found in the order of the walk: what comes
after a missing directory is not looked at.

A tree is taken to be all that an operation depends on. There are no links, hard
or symbolic. Every directory may be searched and changed; only the permission
bits of a file can be against a user, who is the superuser where none is named.
Nobody else changes the tree meanwhile. No operation ends for want of room or of
depth, however many directories are to be made, and a file that is open can be
read and written to its end. The null device is there and is one: it takes what
a dry run writes and keeps nothing.
-/

namespace UnifiedPatch

/-- The faults that a file tree reports. -/
inductive Fault where
  | notFound
  | alreadyExists
  | notDirectory
  | isDirectory
  | invalid
  | nameTooLong
  deriving DecidableEq, Repr

namespace Fault

/-- The number of a fault. -/
def code : Fault → Nat
  | notFound => 2
  | alreadyExists => 17
  | notDirectory => 20
  | isDirectory => 21
  | invalid => 22
  | nameTooLong => 36

/-- The wording of a fault. -/
def message : Fault → Bytes
  | notFound => Bytes.ascii "No such file or directory"
  | alreadyExists => Bytes.ascii "File exists"
  | notDirectory => Bytes.ascii "Not a directory"
  | isDirectory => Bytes.ascii "Is a directory"
  | invalid => Bytes.ascii "Invalid argument"
  | nameTooLong => Bytes.ascii "File name too long"

end Fault

/-- Why a file is not opened: there is a fault of the tree, or its permission
bits are against it. -/
inductive Refusal where
  | fault (e : Fault)
  | denied
  deriving DecidableEq, Repr

namespace Refusal

/-- The number of a refusal. -/
def code : Refusal → Nat
  | fault e => e.code
  | denied => 13

/-- The wording of a refusal. -/
def message : Refusal → Bytes
  | fault e => e.message
  | denied => Bytes.ascii "Permission denied"

end Refusal

/-- Who uses a tree: the superuser, whom permission bits do not hold back, or
the owner of its files. -/
inductive User where
  | superuser
  | owner
  deriving DecidableEq, Repr

namespace User

/-- Whether a user may read a file with these permission bits. -/
def mayRead : User → Nat → Bool
  | superuser, _ => true
  | owner, mode => mode.testBit 8

/-- Whether a user may write a file with these permission bits. -/
def mayWrite : User → Nat → Bool
  | superuser, _ => true
  | owner, mode => mode.testBit 7

@[simp] theorem mayRead_superuser (mode : Nat) :
    superuser.mayRead mode = true := rfl

@[simp] theorem mayWrite_superuser (mode : Nat) :
    superuser.mayWrite mode = true := rfl

end User

/-- What can stand at a location: a directory, a regular file with its content
and its permission bits, or a device, which reads as empty and keeps nothing. -/
inductive Node where
  | directory
  | file (content : Bytes) (mode : Nat)
  | device
  deriving DecidableEq, Repr

/-- The names from an entry up to the root. -/
abbrev Location := List Bytes

/-- What stands where, and the directory that relative paths start from. -/
structure FileTree where
  entries : List (Location × Node)
  working : Location

namespace FileTree

/-- What stands at a location. -/
def node? (t : FileTree) (loc : Location) : Option Node := t.entries.lookup loc

/-- Puts a node at a location in place of what stands there. -/
def put (t : FileTree) (loc : Location) (node : Node) : FileTree :=
  { t with entries := (loc, node) :: t.entries.filter fun e => e.1 != loc }

/-- Takes away what stands at a location. -/
def remove (t : FileTree) (loc : Location) : FileTree :=
  { t with entries := t.entries.filter fun e => e.1 != loc }

/-! ## The view after a change -/

theorem lookup_filter_ne {entries : List (Location × Node)}
    {loc place : Location} :
    (entries.filter fun e => e.1 != loc).lookup place =
      if place = loc then none else entries.lookup place := by
  induction entries with
  | nil => simp
  | cons e entries ih =>
      obtain ⟨l, n⟩ := e
      by_cases hl : l = loc
      · subst hl
        by_cases ha : place = l
        · simpa [ha] using ih
        · have : (place == l) = false := by simpa using ha
          simp [ih, ha, List.lookup_cons, this]
      · have : (l != loc) = true := by simpa using hl
        rw [List.filter_cons_of_pos (by simpa using hl), List.lookup_cons,
          List.lookup_cons, ih]
        by_cases ha : place = loc
        · subst ha
          have : (place == l) = false := by simpa using Ne.symm hl
          simp [this]
        · simp [ha]

theorem node?_put (t : FileTree) (loc place : Location) (node : Node) :
    (t.put loc node).node? place = if place = loc then some node
      else t.node? place := by
  unfold put node?
  rw [List.lookup_cons, lookup_filter_ne]
  by_cases h : place = loc
  · simp [h]
  · have : (place == loc) = false := by simpa using h
    simp [h, this]

theorem node?_remove (t : FileTree) (loc place : Location) :
    (t.remove loc).node? place = if place = loc then none
      else t.node? place := by
  unfold remove node?
  rw [lookup_filter_ne]

@[simp] theorem working_put (t : FileTree) (loc : Location) (node : Node) :
    (t.put loc node).working = t.working := rfl

@[simp] theorem working_remove (t : FileTree) (loc : Location) :
    (t.remove loc).working = t.working := rfl

/-! ## Finding the location of a path -/

/-- The longest name, in bytes. -/
def nameLimit : Nat := 255

/-- The longest text of a path, in bytes. -/
def pathLimit : Nat := 4095

/-- Walks from the directory `dir` along segments. The last name need not be
there; everything before it must be. -/
def walk (t : FileTree) (dir : Location) : List Bytes → Except Fault Location
  | [] => .ok dir
  | seg :: rest =>
      if seg = Path.dotDot then walk t dir.tail rest
      else if nameLimit < seg.length then .error .nameTooLong
      else if rest.isEmpty then .ok (seg :: dir)
      else
        match t.node? (seg :: dir) with
        | none => .error .notFound
        | some .directory => walk t (seg :: dir) rest
        | some _ => .error .notDirectory

/-- The directory that a path hangs in. -/
def anchorLocation (t : FileTree) : Anchor → Location
  | .working => t.working
  | .root | .doubleRoot => []

/-- The location of a path. -/
def locate (t : FileTree) (p : Path) : Except Fault Location :=
  if pathLimit < p.toBytes.length then .error .nameTooLong
  else walk t (t.anchorLocation p.anchor) p.segments

/-- The location of a path at which something stands, and what it is. -/
def find (t : FileTree) (p : Path) : Except Fault (Location × Node) :=
  match t.locate p with
  | .error e => .error e
  | .ok loc =>
      match t.node? loc with
      | none => .error .notFound
      | some node => .ok (loc, node)

/-! ## Operations -/

/-- Whether a directory stands at a path. -/
def isDirectory (t : FileTree) (p : Path) : Bool :=
  match t.find p with
  | .ok (_, .directory) => true
  | _ => false

/-- Makes one directory; nothing may stand there. -/
def makeDirectory (t : FileTree) (p : Path) : Except Fault FileTree :=
  match t.locate p with
  | .error e => .error e
  | .ok loc =>
      match t.node? loc with
      | some _ => .error .alreadyExists
      | none => .ok (t.put loc .directory)

/-- A failure to make a directory is none if a directory is there already. -/
def unlessDirectory (t : FileTree) (p : Path) (e : Fault) : Except Fault Unit :=
  if t.isDirectory p then .ok () else .error e

/-- Makes a directory and those above it that are missing. What was made before
a fault stays. -/
def makeDirectories (t : FileTree) (p : Path) : FileTree × Except Fault Unit :=
  match t.makeDirectory p with
  | .ok t' => (t', .ok ())
  | .error .notFound =>
      if _h : p.segments = [] then (t, .error .notFound)
      else
        match makeDirectories t p.parent with
        | (t', .error e) => (t', .error e)
        | (t', .ok ()) =>
            match t'.makeDirectory p with
            | .ok t'' => (t'', .ok ())
            | .error e => (t', t'.unlessDirectory p e)
  | .error e => (t, t.unlessDirectory p e)
termination_by p.segments.length
decreasing_by
  have : 0 < p.segments.length := List.length_pos_iff.2 _h
  simp only [Path.parent, List.length_dropLast]
  omega

/-- The content that reading a path gives a user. -/
def read (t : FileTree) (p : Path) (user : User := .superuser) :
    Except Refusal Bytes :=
  match t.find p with
  | .error e => .error (.fault e)
  | .ok (_, .directory) => .error (.fault .isDirectory)
  | .ok (_, .file content mode) =>
      if user.mayRead mode then .ok content else .error .denied
  | .ok (_, .device) => .ok []

/-- Moves the file at `p` to `q`, in place of a file that stands there. -/
def rename (t : FileTree) (p q : Path) : Except Fault FileTree :=
  match t.find p, t.locate q with
  | .error e, _ => .error e
  | .ok _, .error e => .error e
  | .ok (loc, node), .ok goal =>
      if t.node? goal = some .directory then .error .isDirectory
      else .ok ((t.remove loc).put goal node)

/-- Makes an empty file of the given mode at a path, or empties the one there
and gives it that mode, if the user may write it; also the location of it. -/
def create (t : FileTree) (p : Path) (mode : Nat) (user : User := .superuser) :
    Except Refusal (FileTree × Location) :=
  match t.locate p with
  | .error e => .error (.fault e)
  | .ok loc =>
      match t.node? loc with
      | none => .ok (t.put loc (.file [] mode), loc)
      | some .directory => .error (.fault .isDirectory)
      | some (.file _ old) =>
          if user.mayWrite old then .ok (t.put loc (.file [] mode), loc)
          else .error .denied
      | some .device => .ok (t, loc)

/-- Gives the file at a location its content; a device takes it and keeps
nothing. -/
def fill (t : FileTree) (loc : Location) (content : Bytes) : FileTree :=
  match t.node? loc with
  | some (.file _ mode) => t.put loc (.file content mode)
  | _ => t

/-- Takes away the file at a path. -/
def unlink (t : FileTree) (p : Path) : Except Fault FileTree :=
  match t.find p with
  | .error e => .error e
  | .ok (_, .directory) => .error .isDirectory
  | .ok (loc, _) => .ok (t.remove loc)

/-! ## Building and listing a tree -/

/-- The directories from a location up to the root. -/
def directoriesTo : Location → List (Location × Node)
  | [] => [([], .directory)]
  | name :: above => (name :: above, .directory) :: directoriesTo above

/-- A tree with an empty working directory and the null device. -/
def fresh (working : Location) : FileTree :=
  let dev := Bytes.ascii "dev"
  { entries :=
      ([Bytes.ascii "null", dev], .device) :: ([dev], .directory) ::
        directoriesTo working
    working }

/-- Stores a file at a path, with the directories above it. -/
def store (t : FileTree) (p : Path) (content : Bytes) (mode : Nat) :
    Except Refusal FileTree :=
  match t.makeDirectories p.parent with
  | (_, .error e) => .error (.fault e)
  | (t', .ok ()) =>
      (t'.create p mode).map fun (made, loc) => made.fill loc content

/-- The entries below the working directory by the text of their relative
paths, in the order of those texts. -/
def listing (t : FileTree) : List (Bytes × Node) :=
  let below := t.entries.filterMap fun (loc, node) =>
    let names := loc.take (loc.length - t.working.length)
    if names ≠ [] ∧ loc = names ++ t.working then
      some (Bytes.joinWith Bytes.slash names.reverse, node)
    else none
  below.mergeSort fun a b => a.1 ≤ b.1

end FileTree

end UnifiedPatch
