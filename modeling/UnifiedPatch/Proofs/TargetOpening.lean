import UnifiedPatch.Proofs.SectionBackup

/-!
# What opening a target costs

Opening a target may go wrong in many ways, and at nearly all of them next to
nothing has been done. Before the old file is moved aside nothing has been
changed; if there is no file to be moved, the directories above it have been
made, as far as that went (`tree_acquire_of_error`). After it the file is opened
for reading, and a new one is made. The new one can be made, since the file was
there. But only the superuser reads every file. Somebody who may take a file
away and may not read it has taken it away by the time this is found out
(`acquire_of_denied`). It is the only harm that a refusal can do: if the target
may be read, no file pays for one (`acquire_harmless`).

This takes the surroundings to be what a tree says of them: every directory
may be searched and changed, there are no links, nobody else is at work, and
no operation ends for want of room or depth. A stream that is open is not at
issue here.

Opening that goes well costs no file either if the path leads straight on. But
it is asked once whether there is a file, and the directories are made after
that. A path that goes into a directory that is missing and up again finds
nothing the first time. Then the directory is made, and the path leads to a
place where a file may have stood all the time. That file is emptied without a
backup, and it is the only way to lose one (`acquire_spares_iff`).
-/

namespace UnifiedPatch

namespace FileTree

variable {t t' : FileTree} {loc : Location} {p : Path}

/-! ## Directories on the way -/

/-- If a path leads to a file, the user may read it. -/
def Readable (t : FileTree) (user : User) (p : Path) : Prop :=
  match t.find p with
  | .ok (_, .file _ mode) => user.mayRead mode = true
  | _ => True

instance (t : FileTree) (user : User) (p : Path) :
    Decidable (t.Readable user p) := by
  unfold Readable
  split <;> infer_instance

theorem Readable.mayRead {user : User} {content : Bytes} {mode : Nat}
    (h : t.Readable user p) (hfind : t.find p = .ok (loc, .file content mode)) :
    user.mayRead mode = true := by
  rwa [Readable, hfind] at h

/-- The superuser may read what there is. -/
theorem readable_superuser (t : FileTree) (p : Path) :
    t.Readable .superuser p := by
  unfold Readable
  split
  · rfl
  · trivial

end FileTree

namespace Target

open FileTree

variable {settings : Settings} {name : Bytes} {path : Path} {tree : FileTree}
  {why : Failure} {o : OpenTarget} {loc aside : Location} {content : Bytes}
  {mode : Nat} {user : User}

/-! ## A target that is refused -/

theorem exists_opened (h : (acquire settings name tree).result.isOk = true) :
    ∃ o, (acquire settings name tree).result = .ok o := by
  cases hopen : (acquire settings name tree).result with
  | error why =>
      rw [hopen] at h
      exact absurd h (by simp [Except.isOk, Except.toBool])
  | ok o => exact ⟨o, rfl⟩

/-- A target that may not be read has gone from its place, and stays under the
name of its backup. -/
theorem acquire_of_denied (hdry : settings.dryRun = false)
    (hnull : (settings.directory.join name).hasNull = false)
    (hfind : tree.find (settings.directory.join name) =
      .ok (loc, .file content mode))
    (hread : user.mayRead mode = false)
    (haside : tree.locate ((settings.directory.join name).withSuffix
      backupEnding) = .ok aside)
    (hfree : tree.node? aside ≠ some .directory) :
    acquire settings name tree user =
      { tree := tree.setAside loc aside content mode
        result := .error (refusal (settings.directory.join name) .denied) } :=
  (acquire_of_file hnull hfind).trans
    (openExisting_of_denied hdry hread hfind haside hfree)

/-! ## A target that is opened -/

/-- Opening a target spares the files of a tree: each of them is what and where
it was, or it is the target and has become the backup, or the backup has
replaced it. And what is opened as a new file was none. -/
structure Spares (tree : FileTree) (o : OpenTarget) (after : FileTree) :
    Prop where
  files : ∀ loc content mode, tree.file? loc = some (content, mode) →
    after.file? loc = some (content, mode) ∨
      o.target.backup = some (o.target.path.withSuffix backupEnding) ∧
        (loc = tree.place (o.target.path.withSuffix backupEnding) ∨
          loc = tree.place o.target.path ∧
            after.file? (tree.place (o.target.path.withSuffix backupEnding)) =
              some (content, mode))
  fresh : o.target.existed = false → ∀ loc ∈ o.sink, tree.file? loc = none

/-- A file that is moved aside is its own backup. -/
theorem spares_moved {content : Bytes} {mode : Nat} {loc aside : Location}
    {source : LineStream} (htree : tree.WellFormed)
    (hfind : tree.find path = .ok (loc, .file content mode))
    (haside : tree.locate (path.withSuffix backupEnding) = .ok aside) :
    Spares tree { target := patched name path, source, sink := some loc }
      (tree.moved loc aside content mode) := by
  obtain ⟨hlocate, hnode⟩ := find_eq_ok_iff.1 hfind
  have hbackup : tree.place (path.withSuffix backupEnding) = aside :=
    place_of_locate haside
  have hne : aside ≠ loc := by
    obtain ⟨-, hplace, hne⟩ := htree.place_withSuffix hlocate
      (by rw [hnode]; simp)
      (show 2 < backupEnding.length by decide)
    rwa [← hbackup, hplace]
  refine ⟨fun other c m hfile => ?_,
    fun hexisted => absurd hexisted (by simp [patched])⟩
  rw [file?_eq_some_iff] at hfile
  by_cases hother : other = loc
  · subst hother
    obtain ⟨rfl, rfl⟩ :=
      Node.file.inj (Option.some.inj (hnode.symm.trans hfile))
    refine .inr ⟨rfl, .inr ⟨(place_of_find hfind).symm, ?_⟩⟩
    show (tree.moved other aside content mode).file?
      (tree.place (path.withSuffix _)) = _
    rw [hbackup, file?_eq_some_iff, node?_moved, if_neg hne, if_pos rfl]
  · by_cases hold : other = aside
    · exact .inr ⟨rfl, .inl (hold.trans hbackup.symm)⟩
    · refine .inl ?_
      rw [file?_eq_some_iff, node?_moved, if_neg hother, if_neg hold, hfile]

/-- A file that is made costs at most the one that was there. -/
theorem spares_created {made after : FileTree} {loc : Location} {mode : Nat}
    {target : Target} {source : LineStream} (hmade : tree.DirectoriesMade made)
    (hcreate : made.create path mode = .ok (after, loc))
    (hnone : tree.file? loc = none) :
    Spares tree { target, source, sink := some loc } after := by
  obtain ⟨-, -, helse⟩ := create_eq_ok hcreate
  refine ⟨fun other content m hfile => .inl ?_, fun _ other hother => ?_⟩
  · have hne : other ≠ loc := by
      rintro rfl
      exact absurd (hfile.symm.trans hnone) (by simp)
    rw [file?_congr (helse other hne), hmade.file?_eq, hfile]
  · rwa [← Option.some.inj hother]

/-- A target that was not found is made where its path leads. -/
theorem new_of_notFound {after : FileTree}
    (hfind : tree.find path = .error .notFound)
    (h : Acquired name path tree o after) :
    ∃ made, tree.DirectoriesMade made ∧
      made.create path newFileMode = .ok (after, tree.place path) ∧
      o = { target := { name, path, backup := none, existed := false }
            source := .empty
            sink := some (tree.place path) } := by
  cases h with
  | existing found room free => exact absurd (found.symm.trans hfind) (by simp)
  | @new made after loc parents created =>
      obtain rfl : tree.place path = loc := by
        rw [← place_congr parents.working]
        exact place_of_locate (create_eq_ok created).1
      exact ⟨made, parents, created, rfl⟩

theorem spares_acquire (hdry : settings.dryRun = false)
    (htree : tree.WellFormed) (h : (acquire settings name tree).result = .ok o)
    (hnone : tree.find (settings.directory.join name) = .error .notFound →
      tree.file? (tree.place (settings.directory.join name)) = none) :
    Spares tree o (acquire settings name tree).tree := by
  have hnull := hasNull_of_acquire h
  rcases find_of_acquire h with ⟨loc, content, mode, hfind⟩ | hfind
  · rw [acquire_of_file hnull hfind] at h ⊢
    rcases openExisting_cases name hdry hfind with
      ⟨e, heq⟩ | ⟨aside, haside, -, heq⟩
    · rw [heq] at h
      exact absurd h (by simp)
    · rw [heq] at h ⊢
      obtain rfl := Except.ok.inj h
      exact spares_moved htree hfind haside
  · obtain ⟨made, hmade, hcreate, rfl⟩ :=
      new_of_notFound hfind (acquired_of_ok hdry h).2
    exact spares_created hmade hcreate (hnone hfind)

/-- Where no path goes up from a directory that is missing, no file is lost. -/
theorem spares_of_straight (hdry : settings.dryRun = false)
    (htree : tree.WellFormed) (h : (acquire settings name tree).result = .ok o)
    (hpath : tree.Straight (settings.directory.join name)) :
    Spares tree o (acquire settings name tree).tree := by
  refine spares_acquire hdry htree h fun hfind => ?_
  rw [file?, htree.node?_place_of_notFound hpath hfind]

/-- Opening a target in earnest spares the files of a tree exactly if a target
that is not found leads to no file. -/
theorem acquire_spares_iff (settings : Settings) (name : Bytes)
    (tree : FileTree) (o : OpenTarget) (hdry : settings.dryRun = false)
    (htree : tree.WellFormed)
    (h : (acquire settings name tree).result = .ok o) :
    Spares tree o (acquire settings name tree).tree ↔
      (tree.find (settings.directory.join name) = .error .notFound →
        tree.file? (tree.place (settings.directory.join name)) = none) := by
  refine ⟨fun hspares hfind => ?_, spares_acquire hdry htree h⟩
  obtain ⟨made, -, -, rfl⟩ := new_of_notFound hfind (acquired_of_ok hdry h).2
  exact hspares.fresh rfl _ rfl

/-- A file is found, and so it is moved aside. -/
theorem acquire_spares_found : ∃ o,
    (acquire { directory := ⟨.working, []⟩ } (Bytes.ascii "f")
      .oneFile).result = .ok o ∧
      Spares .oneFile o
        (acquire { directory := ⟨.working, []⟩ } (Bytes.ascii "f")
          .oneFile).tree := by
  obtain ⟨o, hopen⟩ : ∃ o, (acquire { directory := ⟨.working, []⟩ }
      (Bytes.ascii "f") .oneFile).result = .ok o :=
      exists_opened (by decide +kernel)
  have hfind : FileTree.oneFile.find
      (Path.join ⟨.working, []⟩ (Bytes.ascii "f")) =
      .ok ([Bytes.ascii "f", Bytes.ascii "w"],
        .file (Bytes.ascii "a\n") 0o600) := by
    decide +kernel
  refine ⟨o, hopen,
    (acquire_spares_iff _ _ _ o rfl (by decide) hopen).2 fun hmissing => ?_⟩
  exact absurd (hfind.symm.trans hmissing) (by simp)

/-- The file is not found by a path through a directory that is missing, and
emptied as soon as that is made. -/
theorem not_forall_acquire_spares :
    ¬ ∀ (settings : Settings) (name : Bytes) (tree : FileTree) (o : OpenTarget),
      settings.dryRun = false → tree.WellFormed →
      (acquire settings name tree).result = .ok o →
      Spares tree o (acquire settings name tree).tree := by
  intro h
  obtain ⟨o, hopen⟩ : ∃ o, (acquire { directory := ⟨.working, []⟩ }
      (Bytes.ascii "d/../f") .oneFile).result = .ok o :=
      exists_opened (by decide +kernel)
  have hfind : FileTree.oneFile.find
      (Path.join ⟨.working, []⟩ (Bytes.ascii "d/../f")) =
      .error .notFound := by rfl
  have hspares := h _ _ _ o rfl (by decide) hopen
  obtain ⟨made, -, -, rfl⟩ := new_of_notFound hfind (acquired_of_ok rfl hopen).2
  exact absurd (hspares.fresh rfl _ rfl) (by decide +kernel)

end Target

end UnifiedPatch
