import UnifiedPatch.Proofs.TreePlace
import UnifiedPatch.Target

/-!
# What opening and settling do to the files

Opening a target that is a file is three operations, and the second and third
look their paths up again in a tree that the first has changed. It changed no
directory, so they find what they should, and of opening there remains one
equation with the tree after it (`openExisting_eq`). Opening a target that is
not there makes directories and then a file at the place of its path; the way
there may lead through a directory just made and up again, so a file can stand
at that place after all, and is emptied.

Settling looks both paths up for the last time. A path that finds a file is
removed without fault (`discard_of_find`), which is why settling a target that
was opened cannot fail.
-/

namespace UnifiedPatch

namespace FileTree

variable {t t' : FileTree} {loc aside place : Location} {p q : Path}
  {content : Bytes} {mode : Nat} {user : User}

/-- The tree after the file at `loc` was moved to `aside`. -/
def setAside (t : FileTree) (loc aside : Location) (content : Bytes)
    (mode : Nat) : FileTree :=
  (t.remove loc).put aside (.file content mode)

theorem node?_setAside (t : FileTree) (loc aside place : Location)
    (content : Bytes) (mode : Nat) :
    (t.setAside loc aside content mode).node? place =
      if place = aside then some (.file content mode)
      else if place = loc then none
      else t.node? place := by
  rw [setAside, node?_put, node?_remove]

/-- The tree after the file at `loc` was moved to `aside` and an empty one of
its mode took its place. -/
def moved (t : FileTree) (loc aside : Location) (content : Bytes) (mode : Nat) :
    FileTree :=
  ((t.remove loc).put aside (.file content mode)).put loc (.file [] mode)

theorem node?_moved (t : FileTree) (loc aside place : Location)
    (content : Bytes) (mode : Nat) :
    (t.moved loc aside content mode).node? place =
      if place = loc then some (.file [] mode)
      else if place = aside then some (.file content mode)
      else t.node? place := by
  rw [moved, node?_put, node?_put, node?_remove]
  by_cases hloc : place = loc
  · rw [if_pos hloc, if_pos hloc]
  · rw [if_neg hloc, if_neg hloc, if_neg hloc]

theorem directoriesIn_setAside (hloc : t.node? loc ≠ some .directory)
    (haside : t.node? aside ≠ some .directory) (content : Bytes) (mode : Nat) :
    t.DirectoriesIn (t.setAside loc aside content mode) := by
  refine (directoriesIn_remove hloc).trans (directoriesIn_put ?_ _)
  rw [node?_remove]
  split
  · simp
  · exact haside

theorem rename_of_find (hfind : t.find p = .ok (loc, .file content mode))
    (haside : t.locate q = .ok aside)
    (hfree : t.node? aside ≠ some .directory) :
    t.rename p q = .ok (t.setAside loc aside content mode) := by
  rw [rename, hfind, haside]
  exact if_neg hfree

/-- What was moved aside is found there. -/
theorem find_setAside (hfind : t.find p = .ok (loc, .file content mode))
    (haside : t.locate q = .ok aside)
    (hfree : t.node? aside ≠ some .directory) :
    (t.setAside loc aside content mode).find q =
      .ok (aside, .file content mode) := by
  obtain ⟨-, hnode⟩ := find_eq_ok_iff.1 hfind
  have hdirs := directoriesIn_setAside (by rw [hnode]; simp) hfree content mode
  exact hdirs.find haside (by rw [node?_setAside, if_pos rfl])

theorem directoriesIn_moved (hloc : t.node? loc ≠ some .directory)
    (haside : t.node? aside ≠ some .directory) (content : Bytes) (mode : Nat) :
    t.DirectoriesIn (t.moved loc aside content mode) := by
  refine ⟨rfl, fun other hother => ?_⟩
  rw [node?_moved, if_neg, if_neg]
  · exact hother
  · rintro rfl
    exact haside hother
  · rintro rfl
    exact hloc hother

theorem fill_of_file (h : t.node? loc = some (.file content mode))
    (output : Bytes) :
    t.fill loc output = t.put loc (.file output mode) := by
  rw [fill, h]

theorem node?_fill_of_ne (h : place ≠ loc) (t : FileTree) (output : Bytes) :
    (t.fill loc output).node? place = t.node? place := by
  unfold fill
  split
  · rw [node?_put, if_neg h]
  · rfl

theorem working_fill (t : FileTree) (loc : Location) (output : Bytes) :
    (t.fill loc output).working = t.working := by
  unfold fill
  split <;> rfl

/-- The tree with `output` in place of the file at `loc`, which is kept at
`aside`. -/
def kept (t : FileTree) (loc aside : Location) (content : Bytes) (mode : Nat)
    (output : Bytes) : FileTree :=
  (t.moved loc aside content mode).put loc (.file output mode)

theorem node?_kept (t : FileTree) (loc aside place : Location) (content : Bytes)
    (mode : Nat) (output : Bytes) :
    (t.kept loc aside content mode output).node? place =
      if place = loc then some (.file output mode)
      else if place = aside then some (.file content mode)
      else t.node? place := by
  rw [kept, node?_put, node?_moved]
  by_cases hloc : place = loc
  · rw [if_pos hloc, if_pos hloc]
  · rw [if_neg hloc, if_neg hloc, if_neg hloc]

theorem fill_moved (t : FileTree) (loc aside : Location) (content : Bytes)
    (mode : Nat) (output : Bytes) :
    (t.moved loc aside content mode).fill loc output =
      t.kept loc aside content mode output :=
  fill_of_file (by rw [node?_moved, if_pos rfl]) output

theorem directoriesIn_kept (hfind : t.find p = .ok (loc, .file content mode))
    (hfree : t.node? aside ≠ some .directory) (output : Bytes) :
    t.DirectoriesIn (t.kept loc aside content mode output) := by
  obtain ⟨-, hnode⟩ := find_eq_ok_iff.1 hfind
  refine (directoriesIn_moved (by rw [hnode]; simp) hfree content mode).trans
    (directoriesIn_put ?_ _)
  rw [node?_moved, if_pos rfl]
  simp

theorem read_of_find (h : t.find p = .ok (loc, .file content mode))
    (hread : user.mayRead mode = true) : t.read p user = .ok content := by
  rw [FileTree.read, h]
  exact if_pos hread

/-- A file is made where its path leads, unless a device is there,
which stays. -/
theorem create_cases (h : t.create p mode user = .ok (t', loc)) :
    t.locate p = .ok loc ∧ t.node? loc ≠ some .directory ∧
      (t.node? loc = some .device ∧ t' = t ∨
        t' = t.put loc (.file [] mode)) := by
  unfold create at h
  split at h
  · exact absurd h (by simp)
  · next goal hgoal =>
      split at h
      · next hnode =>
          obtain ⟨rfl, rfl⟩ := Prod.mk.inj (Except.ok.inj h)
          exact ⟨hgoal, by simp [hnode], .inr rfl⟩
      · exact absurd h (by simp)
      · next hnode =>
          split at h
          · obtain ⟨rfl, rfl⟩ := Prod.mk.inj (Except.ok.inj h)
            exact ⟨hgoal, by simp [hnode], .inr rfl⟩
          · exact absurd h (by simp)
      · next hnode =>
          obtain ⟨rfl, rfl⟩ := Prod.mk.inj (Except.ok.inj h)
          exact ⟨hgoal, by simp [hnode], .inl ⟨hnode, rfl⟩⟩

/-- Nothing but the file is changed when one is made. -/
theorem create_eq_ok (h : t.create p mode user = .ok (t', loc)) :
    t.locate p = .ok loc ∧ t'.working = t.working ∧
      ∀ place, place ≠ loc → t'.node? place = t.node? place := by
  obtain ⟨hlocate, -, ⟨-, rfl⟩ | rfl⟩ := create_cases h
  · exact ⟨hlocate, rfl, fun _ _ => rfl⟩
  · exact ⟨hlocate, rfl, fun place hne => by rw [node?_put, if_neg hne]⟩

theorem unlink_of_find {node : Node} (h : t.find p = .ok (loc, node))
    (hnode : node ≠ .directory) : t.unlink p = .ok (t.remove loc) := by
  rw [unlink, h]
  cases node with
  | directory => exact absurd rfl hnode
  | file c m => rfl
  | device => rfl

theorem eq_remove_of_unlink (h : t.unlink p = .ok t') :
    t' = t.remove (t.place p) := by
  unfold unlink at h
  split at h
  · exact absurd h (by simp)
  · exact absurd h (by simp)
  · next hfind =>
      rw [place_of_find hfind]
      exact (Except.ok.inj h).symm

/-! ## Making directories -/

/-- Directories are made where nothing stands, and nothing else is changed. -/
structure DirectoriesMade (t t' : FileTree) : Prop where
  working : t'.working = t.working
  node? : ∀ loc, t'.node? loc = t.node? loc ∨
    t.node? loc = none ∧ t'.node? loc = some .directory

theorem DirectoriesMade.refl (t : FileTree) : t.DirectoriesMade t :=
  ⟨rfl, fun _ => .inl rfl⟩

theorem DirectoriesMade.trans {t'' : FileTree} (h : t.DirectoriesMade t')
    (h' : t'.DirectoriesMade t'') : t.DirectoriesMade t'' := by
  refine ⟨h'.working.trans h.working, fun loc => ?_⟩
  rcases h.node? loc with h₁ | ⟨h₁, h₁'⟩ <;> rcases h'.node? loc with
    h₂ | ⟨h₂, h₂'⟩
  · exact .inl (h₂.trans h₁)
  · exact .inr ⟨h₁ ▸ h₂, h₂'⟩
  · exact .inr ⟨h₁, h₂.trans h₁'⟩
  · exact absurd (h₁'.symm.trans h₂) (by simp)

theorem directoriesMade_makeDirectory (h : t.makeDirectory p = .ok t') :
    t.DirectoriesMade t' := by
  unfold makeDirectory at h
  split at h
  · exact absurd h (by simp)
  · next loc _ =>
      split at h
      · exact absurd h (by simp)
      · next hnone =>
          obtain rfl := Except.ok.inj h
          refine ⟨rfl, fun other => ?_⟩
          rw [node?_put]
          by_cases heq : other = loc
          · rw [if_pos heq, heq]
            exact .inr ⟨hnone, rfl⟩
          · rw [if_neg heq]
            exact .inl rfl

theorem directoriesMade_makeDirectories (t : FileTree) (p : Path) :
    t.DirectoriesMade (t.makeDirectories p).1 := by
  fun_induction makeDirectories t p with
  | case1 p t' h => exact directoriesMade_makeDirectory h
  | case2 => exact .refl _
  | case3 p h hne t' e hparent ih =>
      rw [hparent] at ih
      exact ih
  | case4 p h hne t' hparent t'' hmade ih =>
      rw [hparent] at ih
      exact ih.trans (directoriesMade_makeDirectory hmade)
  | case5 p h hne t' hparent e hmade ih =>
      rw [hparent] at ih
      exact ih
  | case6 => exact .refl _

end FileTree

/-! ## Opening -/

namespace Target

open FileTree

variable {settings : Settings} {name : Bytes} {path : Path} {content : Bytes}
  {mode : Nat} {tree : FileTree} {loc aside : Location} {user : User}

/-- The target that a file is patched as: its backup is beside it. -/
def patched (name : Bytes) (path : Path) : Target :=
  { name, path, backup := some (path.withSuffix backupEnding), existed := true }

/-- A target that is a file is moved aside and made anew by a user who may
read it. That the file is no backup of itself goes without saying in a tree
that is one. -/
theorem openExisting_eq (hdry : settings.dryRun = false)
    (hread : user.mayRead mode = true)
    (hwrite : aside = loc → user.mayWrite mode = true)
    (hfind : tree.find path = .ok (loc, .file content mode))
    (haside : tree.locate (path.withSuffix backupEnding) = .ok aside)
    (hfree : tree.node? aside ≠ some .directory) :
    openExisting settings name path content mode tree user =
      opened settings (tree.moved loc aside content mode) #[]
        { target := patched name path
          source := .ofBytes content
          sink := some loc } := by
  obtain ⟨hloc, hnode⟩ := find_eq_ok_iff.1 hfind
  have hdirs := directoriesIn_setAside (by rw [hnode]; simp) hfree content mode
  have hbackup : (tree.setAside loc aside content mode).read
      (path.withSuffix backupEnding) user = .ok content :=
    read_of_find (find_setAside hfind haside hfree) hread
  have hcreate : (tree.setAside loc aside content mode).create path mode user =
      .ok (tree.moved loc aside content mode, loc) := by
    rw [create, hdirs.locate hloc]
    simp only [node?_setAside, if_true]
    by_cases hself : loc = aside
    · simp only [if_pos hself, hwrite hself.symm, if_true]
      rfl
    · rw [if_neg hself]
      rfl
  unfold openExisting
  simp only [hdry, Bool.false_eq_true, if_false,
    rename_of_find hfind haside hfree, hbackup, hcreate]
  rfl

/-- A target that its user may not read has been moved aside when that is found
out, and stays there. -/
theorem openExisting_of_denied (hdry : settings.dryRun = false)
    (hread : user.mayRead mode = false)
    (hfind : tree.find path = .ok (loc, .file content mode))
    (haside : tree.locate (path.withSuffix backupEnding) = .ok aside)
    (hfree : tree.node? aside ≠ some .directory) :
    openExisting settings name path content mode tree user =
      { tree := tree.setAside loc aside content mode
        result := .error (refusal path .denied) } := by
  have hbackup : (tree.setAside loc aside content mode).read
      (path.withSuffix backupEnding) user = .error .denied := by
    rw [FileTree.read, find_setAside hfind haside hfree]
    simp only [hread, Bool.false_eq_true, if_false]
  unfold openExisting
  simp only [hdry, Bool.false_eq_true, if_false,
    rename_of_find hfind haside hfree, hbackup]

/-- Without room for the backup nothing is done. -/
theorem openExisting_of_error {e : Fault} (hdry : settings.dryRun = false)
    (hrename : tree.rename path (path.withSuffix backupEnding) = .error e) :
    openExisting settings name path content mode tree user =
      { tree, result := .error (ioFailure path e) } := by
  unfold openExisting
  simp only [hdry, Bool.false_eq_true, if_false, hrename]

/-- There is room for a backup, or a file cannot be moved aside. -/
theorem room_or_rename
    (hfind : tree.find path = .ok (loc, .file content mode)) :
    (∃ e, tree.rename path (path.withSuffix backupEnding) = .error e) ∨
      ∃ aside, tree.locate (path.withSuffix backupEnding) = .ok aside ∧
        tree.node? aside ≠ some .directory := by
  cases haside : tree.locate (path.withSuffix backupEnding) with
  | error e => exact .inl ⟨e, by rw [rename, hfind, haside]⟩
  | ok aside =>
      by_cases hfree : tree.node? aside = some .directory
      · refine .inl ⟨.isDirectory, ?_⟩
        rw [rename, hfind, haside]
        exact if_pos hfree
      · exact .inr ⟨aside, rfl, hfree⟩

/-- A file is either moved aside or left alone. -/
theorem openExisting_cases (name : Bytes) (hdry : settings.dryRun = false)
    (hfind : tree.find path = .ok (loc, .file content mode)) :
    (∃ e, openExisting settings name path content mode tree =
        { tree, result := .error (ioFailure path e) }) ∨
      ∃ aside, tree.locate (path.withSuffix backupEnding) = .ok aside ∧
        tree.node? aside ≠ some .directory ∧
        openExisting settings name path content mode tree =
          opened settings (tree.moved loc aside content mode) #[]
            { target := patched name path
              source := .ofBytes content
              sink := some loc } := by
  rcases room_or_rename hfind with ⟨e, hrename⟩ | ⟨aside, haside, hfree⟩
  · exact .inl ⟨e, openExisting_of_error hdry hrename⟩
  · exact .inr ⟨aside, haside, hfree,
      openExisting_eq hdry rfl (fun _ => rfl) hfind haside hfree⟩

/-- A target that is not there reads as empty, if it can be made. -/
theorem openNew_cases (settings : Settings) (name : Bytes) (path : Path)
    (tree : FileTree) :
    (∃ r, (openNew settings name path tree).result = .error (refusal path r)) ∨
      ∃ o, (openNew settings name path tree).result = .ok o ∧
        o.source = .empty := by
  unfold openNew
  simp only []
  split
  · exact .inr ⟨_, rfl, rfl⟩
  · split
    · next e _ => exact .inl ⟨.fault e, rfl⟩
    · split
      · exact .inl ⟨_, rfl⟩
      · exact .inr ⟨_, rfl, rfl⟩

theorem acquire_of_file (hnull : (settings.directory.join name).hasNull = false)
    (hfind : tree.find (settings.directory.join name) =
      .ok (loc, .file content mode)) :
    acquire settings name tree user =
      openExisting settings name (settings.directory.join name)
        content mode tree
        user := by
  unfold acquire
  simp only [hnull, Bool.false_eq_true, if_false, hfind]

theorem acquire_of_hasNull
    (hnull : (settings.directory.join name).hasNull = true) :
    (acquire settings name tree).result = .error .nullByte := by
  unfold acquire
  simp only [hnull, if_true]

/-- What was opened has a path without zero bytes. -/
theorem hasNull_of_acquire {o : OpenTarget}
    (h : (acquire settings name tree).result = .ok o) :
    (settings.directory.join name).hasNull = false := by
  rw [← Bool.not_eq_true]
  intro hnull
  exact absurd ((acquire_of_hasNull hnull).symm.trans h) (by simp)

theorem acquire_of_notFound
    (hnull : (settings.directory.join name).hasNull = false)
    (hfind : tree.find (settings.directory.join name) = .error .notFound) :
    acquire settings name tree =
      openNew settings name (settings.directory.join name) tree := by
  unfold acquire
  simp only [hnull, Bool.false_eq_true, if_false, hfind]

theorem acquire_of_fault {e : Fault}
    (hnull : (settings.directory.join name).hasNull = false)
    (hfind : tree.find (settings.directory.join name) = .error e)
    (hne : e ≠ .notFound) :
    (acquire settings name tree).result =
      .error (ioFailure (settings.directory.join name) e) := by
  unfold acquire
  simp only [hnull, Bool.false_eq_true, if_false, hfind]

/-- What was opened was a file or was not there. -/
theorem find_of_acquire {o : OpenTarget}
    (h : (acquire settings name tree).result = .ok o) :
    (∃ loc content mode,
        tree.find (settings.directory.join name) =
          .ok (loc, .file content mode)) ∨
      tree.find (settings.directory.join name) = .error .notFound := by
  have hnull := hasNull_of_acquire h
  unfold acquire at h
  simp only [hnull, Bool.false_eq_true, if_false] at h
  split at h
  · next hfind => exact .inr hfind
  · exact absurd h (by simp)
  · exact absurd h (by simp)
  · exact absurd h (by simp)
  · next hfind => exact .inl ⟨_, _, _, hfind⟩

/-- The two ways in which a target comes to be open, and the tree after each:
a file was moved aside, or there was none and one was made. -/
inductive Acquired (name : Bytes) (path : Path) (tree : FileTree) :
    OpenTarget → FileTree → Prop where
  | existing {content : Bytes} {mode : Nat} {loc aside : Location}
      (found : tree.find path = .ok (loc, .file content mode))
      (room : tree.locate (path.withSuffix backupEnding) = .ok aside)
      (free : tree.node? aside ≠ some .directory) :
      Acquired name path tree
        { target := patched name path
          source := .ofBytes content
          sink := some loc }
        (tree.moved loc aside content mode)
  | new {made tree' : FileTree} {loc : Location}
      (parents : tree.DirectoriesMade made)
      (created : made.create path newFileMode = .ok (tree', loc)) :
      Acquired name path tree
        { target := { name, path, backup := none, existed := false }
          source := .empty
          sink := some loc }
        tree'

theorem acquired_of_ok {o : OpenTarget} (hdry : settings.dryRun = false)
    (h : (acquire settings name tree).result = .ok o) :
    (settings.directory.join name).hasNull = false ∧
      Acquired name (settings.directory.join name) tree o
        (acquire settings name tree).tree := by
  unfold acquire at h ⊢
  simp only [] at h ⊢
  cases hnull : (settings.directory.join name).hasNull with
  | true =>
      rw [hnull] at h
      exact absurd h (by simp)
  | false =>
      simp only [hnull, Bool.false_eq_true, if_false] at h ⊢
      refine ⟨trivial, ?_⟩
      generalize settings.directory.join name = path at h ⊢
      split at h
      · next hfind =>
          unfold openNew at h ⊢
          simp only [hdry, Bool.false_eq_true, if_false] at h ⊢
          split at h
          · exact absurd h (by simp)
          · next made hmade =>
              have hparents := directoriesMade_makeDirectories tree path.parent
              rw [hmade] at hparents
              split at h
              · exact absurd h (by simp)
              · next hcreate =>
                  obtain rfl := Except.ok.inj h
                  exact .new hparents hcreate
      · exact absurd h (by simp)
      · exact absurd h (by simp)
      · exact absurd h (by simp)
      · next loc content mode hfind =>
          rcases openExisting_cases name hdry hfind with
            ⟨e, heq⟩ | ⟨aside, haside, hfree, heq⟩
          · rw [heq] at h
            exact absurd h (by simp)
          · rw [heq] at h ⊢
            obtain rfl := Except.ok.inj h
            exact .existing hfind haside hfree

theorem Acquired.target_path {o : OpenTarget} {tree' : FileTree}
    (h : Acquired name path tree o tree') : o.target.path = path := by
  cases h <;> rfl

/-- An open target is at the path of its name. -/
theorem path_acquire {o : OpenTarget}
    (h : (acquire settings name tree).result = .ok o) :
    o.target.path = settings.directory.join name := by
  cases hdry : settings.dryRun with
  | false => exact (acquired_of_ok hdry h).2.target_path
  | true =>
      unfold acquire openNew openExisting opened at h
      simp only [hdry, if_true, User.mayRead_superuser] at h
      split at h
      · exact absurd h (by simp)
      · split at h
        · rw [← Except.ok.inj h]
        · exact absurd h (by simp)
        · exact absurd h (by simp)
        · exact absurd h (by simp)
        · rw [← Except.ok.inj h]

/-- In a dry run opening changes nothing and leaves nothing to be written. -/
theorem acquire_of_dryRun (name : Bytes) (tree : FileTree)
    (hdry : settings.dryRun = true) :
    (acquire settings name tree user).tree = tree ∧
      ∀ o, (acquire settings name tree user).result = .ok o →
        o.sink = none ∧ o.target.backup = none := by
  unfold acquire openNew openExisting opened
  simp only [hdry, if_true]
  split
  · simp
  · split
    · simp
    · simp
    · simp
    · simp
    · split <;> simp

/-- The only place for a backup is beside the target. -/
theorem backup_acquire {o : OpenTarget}
    (h : (acquire settings name tree).result = .ok o) :
    ∀ backup ∈ o.target.backup,
      backup = (settings.directory.join name).withSuffix backupEnding := by
  cases hdry : settings.dryRun with
  | true =>
      rw [((acquire_of_dryRun name tree hdry).2 o h).2]
      simp
  | false =>
      have hacquired := (acquired_of_ok hdry h).2
      generalize (acquire settings name tree).tree = tree' at hacquired
      cases hacquired with
      | existing found room free =>
          exact fun backup hbackup => (Option.some.inj hbackup).symm
      | new parents created => simp

/-! ## Settling -/

variable {target : Target} {result : FileResult}

theorem discard_of_find {p : Path} {node : Node} (hnull : p.hasNull = false)
    (hfind : tree.find p = .ok (loc, node)) (hnode : node ≠ .directory) :
    discard p tree = .ok (tree.remove loc) := by
  rw [discard, hnull, unlink_of_find hfind hnode]
  rfl

theorem dropBackup_of_find {q : Path} {node : Node}
    (hbackup : target.backup = some q) (hnull : q.hasNull = false)
    (hfind : tree.find q = .ok (aside, node)) (hnode : node ≠ .directory) :
    dropBackup target result tree =
      { tree := tree.remove aside
        result := { result with backup := none } } := by
  unfold dropBackup
  simp only [hbackup, discard_of_find hnull hfind hnode]

theorem dropBackup_of_none (hbackup : target.backup = none) :
    dropBackup target result tree = { tree, result } := by
  rw [dropBackup, hbackup]

theorem settle_of_hasFailed (hfailed : result.hasFailed = true) :
    (settle settings target result tree).tree = tree ∧
      (settle settings target result tree).result = result ∧
      (settle settings target result tree).failure? = none := by
  rw [settle, if_pos hfailed]
  exact ⟨rfl, rfl, rfl⟩

theorem settle_of_dropBackup (hfailed : result.hasFailed = false)
    (hdrop : (dropBackup target result tree).failure? = none) :
    settle settings target result tree =
      dropEmpty settings target (dropBackup target result tree).result
        (dropBackup target result tree).tree := by
  rw [settle, hfailed]
  simp only [Bool.false_eq_true, if_false, hdrop]

/-- After clean work on a file the backup goes first, whatever has
been written. -/
theorem settle_patched (hnull : path.hasNull = false)
    (hfind : tree.find path = .ok (loc, .file content mode))
    (haside : tree.locate (path.withSuffix backupEnding) = .ok aside)
    (hfree : tree.node? aside ≠ some .directory) (output : Bytes)
    (hfailed : result.hasFailed = false) :
    (patched name path).settle settings result
      (tree.kept loc aside content mode output) =
      (patched name path).dropEmpty settings { result with backup := none }
        ((tree.kept loc aside content mode output).remove aside) := by
  have hfile : ∃ c m, (tree.kept loc aside content mode output).node? aside =
      some (.file c m) := by
    rw [node?_kept, if_pos rfl]
    split
    · exact ⟨_, _, rfl⟩
    · exact ⟨_, _, rfl⟩
  obtain ⟨c, m, hfile⟩ := hfile
  have hdrop : (patched name path).dropBackup result
      (tree.kept loc aside content mode output) =
      { tree := (tree.kept loc aside content mode output).remove aside
        result := { result with backup := none } } :=
    dropBackup_of_find rfl (Path.hasNull_withSuffix hnull (by decide))
      ((directoriesIn_kept hfind hfree output).find haside hfile) (by simp)
  rw [settle_of_dropBackup hfailed (by rw [hdrop]), hdrop]

theorem dropEmpty_of_produced (hproduced : result.produced ≠ 0) :
    dropEmpty settings target result tree = { tree, result } := by
  rw [dropEmpty, if_pos]
  simp [hproduced]

theorem dropEmpty_of_find {node : Node} (hdry : settings.dryRun = false)
    (hproduced : result.produced = 0) (hnull : target.path.hasNull = false)
    (hfind : tree.find target.path = .ok (loc, node))
    (hnode : node ≠ .directory) :
    dropEmpty settings target result tree =
      { tree := tree.remove loc
        said := #[.remark (.targetRemoved target.path)]
        result := { result with deleted := true } } := by
  rw [dropEmpty, if_neg (by simp [hdry, hproduced]),
    discard_of_find hnull hfind hnode]

/-- A target for which nothing was produced is gone if nothing went wrong. -/
theorem tree_dropEmpty (hdry : settings.dryRun = false)
    (hproduced : result.produced = 0)
    (h : (dropEmpty settings target result tree).failure? = none) :
    (dropEmpty settings target result tree).tree =
      tree.remove (tree.place target.path) := by
  unfold dropEmpty at h ⊢
  rw [if_neg (by simp [hdry, hproduced])] at h ⊢
  unfold discard at h ⊢
  split at h
  · exact absurd h (by simp)
  · next tree' hdiscard =>
      split at hdiscard
      · exact absurd hdiscard (by simp)
      · cases hunlink : tree.unlink target.path with
        | error e =>
            rw [hunlink] at hdiscard
            nomatch hdiscard
        | ok gone =>
            rw [hunlink] at hdiscard
            obtain rfl := Except.ok.inj hdiscard
            exact eq_remove_of_unlink hunlink

/-- In a dry run settling changes nothing. -/
theorem settle_of_dryRun (hdry : settings.dryRun = true)
    (hbackup : target.backup = none) :
    (settle settings target result tree).tree = tree := by
  unfold settle
  split
  · rfl
  · simp only [dropBackup_of_none hbackup, dropEmpty, hdry,
      Bool.true_or, if_true]

/-- Settling changes nothing of a result but what became of the two files. -/
theorem result_settle (settings : Settings) (target : Target)
    (result : FileResult) (tree : FileTree) :
    ∃ (backup : Option Path) (deleted : Bool),
    (settle settings target result tree).result =
      { result with backup := backup, deleted := deleted } := by
  have hdropped : ∃ backup : Option Path,
      (dropBackup target result tree).result =
        { result with backup := backup } := by
    unfold dropBackup
    split
    · exact ⟨result.backup, rfl⟩
    · split
      · exact ⟨none, rfl⟩
      · exact ⟨none, rfl⟩
      · exact ⟨result.backup, rfl⟩
  obtain ⟨backup, hbackup⟩ := hdropped
  unfold settle
  split
  · exact ⟨result.backup, result.deleted, rfl⟩
  · simp only []
    split
    · exact ⟨backup, result.deleted, hbackup⟩
    · unfold dropEmpty
      rw [hbackup]
      split
      · exact ⟨backup, result.deleted, rfl⟩
      · split
        · exact ⟨backup, result.deleted, rfl⟩
        · exact ⟨backup, true, rfl⟩

theorem path_settle :
    (settle settings target result tree).result.path = result.path := by
  obtain ⟨backup, deleted, h⟩ := result_settle settings target result tree
  rw [h]

theorem hunks_settle :
    (settle settings target result tree).result.hunks = result.hunks := by
  obtain ⟨backup, deleted, h⟩ := result_settle settings target result tree
  rw [h]

end Target

end UnifiedPatch
