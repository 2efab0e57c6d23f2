import UnifiedPatch.Proofs.SectionHunkless
import UnifiedPatch.Proofs.SectionVisits
import UnifiedPatch.Proofs.TreeDrift

/-!
# How long a backup is kept

After failed hunks the old file stays beside the target, and a user is told so.
The promise is made section by section. The backup has the one name that goes
with the target, and a later section on the same file moves what it finds there
to that name and takes it away again if its own hunks apply. So what becomes of
a backup is decided by the last section that moves the file aside
(`Leads.file?_aside`), and no other one can touch it, as long as none is about a
file that has a backup's name itself.

That takes two statements about a section. What it moved aside is where backups
are, unless it ended clean; and a file that has neither the name of its target
nor the place of its backup stays what it is. The second asks where a path leads
only when something is put there: a path that cannot be followed to its end does
no harm, whatever its text.
-/

namespace UnifiedPatch

namespace FileTree

variable {t t' : FileTree} {loc : Location} {p : Path} {sites : List Location}

/-! ## Files -/

instance (t : FileTree) (p : Path) (found : Location × Node) :
    Decidable (t.find p = .ok found) :=
  decidable_of_iff ((t.find p).toOption = some found)
    (by cases t.find p <;> simp [Except.toOption])

theorem file?_eq_some_iff {content : Bytes} {mode : Nat} :
    t.file? loc = some (content, mode) ↔
      t.node? loc = some (.file content mode) := by
  unfold file?
  split
  · next hnode => simp [hnode]
  · next hnot =>
      refine ⟨fun h => absurd h (by simp),
        fun h => absurd h (hnot content mode)⟩

/-- What a path finds is what stands where it leads. -/
theorem exists_find_iff {content : Bytes} (h : t.locate p = .ok loc) :
    (∃ goal mode, t.find p = .ok (goal, .file content mode)) ↔
      ∃ mode, t.file? loc = some (content, mode) := by
  simp only [find_eq_ok_iff, h, Except.ok.injEq, file?_eq_some_iff]
  exact ⟨fun ⟨_, mode, heq, hnode⟩ => ⟨mode, heq ▸ hnode⟩,
    fun ⟨mode, hnode⟩ => ⟨loc, mode, rfl, hnode⟩⟩

theorem DirectoriesMade.directoriesIn (h : t.DirectoriesMade t') :
    t.DirectoriesIn t' := by
  refine ⟨h.working, fun loc hloc => ?_⟩
  rcases h.node? loc with heq | ⟨-, hdir⟩
  · exact heq.trans hloc
  · exact hdir

theorem Drift.file?_eq (h : t.Drift t' sites) (hloc : loc ∉ sites) :
    t'.file? loc = t.file? loc := by
  rcases h.node? loc hloc with heq | ⟨hnone, hdir, -⟩
  · exact file?_congr heq
  · rw [file?, file?, hnone, hdir]

/-- Where a file was made its path finds something, and no directory. -/
theorem find_of_create {mode : Nat} (h : t.create p mode = .ok (t', loc)) :
    ∃ node, t'.find p = .ok (loc, node) ∧ node ≠ .directory := by
  have hlocate := (drift_create h).dirs.locate (create_eq_ok h).1
  simp only [find_eq_ok_iff, hlocate, true_and]
  obtain ⟨-, -, ⟨hdevice, rfl⟩ | rfl⟩ := create_cases h
  · exact ⟨_, hdevice, by simp⟩
  · exact ⟨.file [] mode, by rw [node?_put, if_pos rfl], by simp⟩

end FileTree

namespace Target

open FileTree

variable {settings : Settings} {name : Bytes} {path : Path} {tree : FileTree}
  {why : Failure} {user : User}

/-! ## What opening leaves alone -/

/-- A target that is not there and cannot be made leaves the directories above
it, as far as they could be made. -/
theorem tree_openNew_of_error (hdry : settings.dryRun = false)
    (h : (openNew settings name path tree user).result = .error why) :
    (openNew settings name path tree user).tree =
      (tree.makeDirectories path.parent).1 := by
  unfold openNew at h ⊢
  simp only [hdry, Bool.false_eq_true, if_false] at h ⊢
  split
  · next hparents => rw [hparents]
  · next hparents =>
      simp only [hparents] at h ⊢
      split
      · rfl
      · next hcreate =>
          rw [hcreate] at h
          exact absurd h (by simp [opened])

/-- What a refusal may have changed: directories were made for a target that is
not there, or a file was to be opened. -/
theorem tree_acquire_of_error
    (h : (acquire settings name tree user).result = .error why) :
    (acquire settings name tree user).tree = tree ∨
      (settings.dryRun = false ∧
        tree.find (settings.directory.join name) = .error .notFound ∧
        (acquire settings name tree user).tree =
          (tree.makeDirectories (settings.directory.join name).parent).1) ∨
      ∃ loc content mode, settings.dryRun = false ∧
        tree.find (settings.directory.join name) =
          .ok (loc, .file content mode) ∧
        acquire settings name tree user =
          openExisting settings name (settings.directory.join name) content mode
            tree user := by
  cases hdry : settings.dryRun with
  | true => exact .inl (acquire_of_dryRun name tree hdry).1
  | false =>
      unfold acquire at h ⊢
      simp only [] at h ⊢
      split
      · exact .inl rfl
      · next hnull =>
          rw [if_neg hnull] at h
          split
          · next hfind =>
              rw [hfind] at h
              exact .inr (.inl ⟨trivial, hfind, tree_openNew_of_error hdry h⟩)
          · exact .inl rfl
          · exact .inl rfl
          · exact .inl rfl
          · next hfind => exact .inr (.inr ⟨_, _, _, trivial, hfind, rfl⟩)

/-- A target that cannot be opened costs no file; it may leave directories. -/
theorem directoriesMade_acquire_of_error
    (h : (acquire settings name tree).result = .error why) :
    tree.DirectoriesMade (acquire settings name tree).tree := by
  rcases tree_acquire_of_error h with
    heq | ⟨-, -, heq⟩ | ⟨loc, content, mode, hdry, hfind, heq⟩
  · rw [heq]
    exact .refl _
  · rw [heq]
    exact directoriesMade_makeDirectories _ _
  · rw [heq] at h ⊢
    rcases openExisting_cases name hdry hfind with ⟨e, heq⟩ | ⟨aside, -, -, heq⟩
    · rw [heq]
      exact .refl _
    · rw [heq] at h
      exact absurd h (by simp [opened])

theorem directoriesIn_acquire (hdry : settings.dryRun = false) :
    tree.DirectoriesIn (acquire settings name tree).tree := by
  cases hopen : (acquire settings name tree).result with
  | error why => exact (directoriesMade_acquire_of_error hopen).directoriesIn
  | ok o =>
      have hacquired := (acquired_of_ok hdry hopen).2
      generalize (acquire settings name tree).tree = tree' at hacquired ⊢
      cases hacquired with
      | existing found room free =>
          refine directoriesIn_moved ?_ free _ _
          rw [(find_eq_ok_iff.1 found).2]
          simp
      | new parents created =>
          exact parents.directoriesIn.trans (drift_create created).dirs

end Target

namespace Run

open FileTree Target

variable {settings : Settings} {name : Bytes} {r final : Run} {content : Bytes}
  {mode : Nat} {loc aside : Location} {work : Splice}

theorem Outcome.clean
    (h : Outcome settings name r content mode loc aside work final)
    (hdone : work.failure? = none) (hclean : work.failed = 0) :
    final.tree.node? aside = none ∧
    ∃ result : FileResult, result.hasFailed = false ∧
      final.files = r.files.push result ∧ final.failure? = r.failure? := by
  have hnot : (spliced (filed settings name) work).hasFailed = false := by
    rw [hasFailed_spliced, hclean]
    rfl
  rcases Nat.eq_zero_or_pos work.produced with hempty | hproduced
  · obtain ⟨-, haside, hfiles, hfailure⟩ := h.empty hdone hclean hempty
    refine ⟨haside, _, ?_, hfiles, hfailure⟩
    exact hnot
  · obtain ⟨-, haside, hfiles, hfailure⟩ := h.produced hdone hclean hproduced
    refine ⟨haside, _, ?_, hfiles, hfailure⟩
    exact hnot

/-- A section keeps every directory, however it ends. -/
theorem directoriesIn_applySection (hdry : settings.dryRun = false) :
    r.tree.DirectoriesIn (r.applySection settings name).tree := by
  have hopened : r.tree.DirectoriesIn (acquire settings name r.tree).tree :=
    directoriesIn_acquire hdry
  cases hopen : (acquire settings name r.tree).result with
  | error why =>
      rw [(applySection_of_error hopen).1]
      exact hopened
  | ok o =>
      have hclosed : ∀ output, r.tree.DirectoriesIn
          (o.close output (acquire settings name r.tree).tree) := by
        intro output
        unfold OpenTarget.close
        split
        · exact hopened
        · exact hopened.trans (drift_fill _ _ _).dirs
      cases hdone :
        ((Splice.start r.patch o.source).run settings name).failure? with
      | some why =>
          rw [(applySection_of_stopped hopen rfl hdone).1]
          exact hclosed _
      | none =>
          rw [(applySection_of_settled hopen rfl hdone rfl).1]
          exact (hclosed _).trans (drift_settle settings o.target _ _).dirs

/-- A section on a file that is not there changes no other. -/
theorem file?_applySection_of_created {target : Target} {source : LineStream}
    {made created : FileTree} (hbackup : target.backup = none)
    (hpath : target.path = settings.directory.join name)
    (hopen : (acquire settings name r.tree).result =
      .ok { target, source, sink := some loc })
    (htree : (acquire settings name r.tree).tree = created)
    (hmade : r.tree.DirectoriesMade made)
    (hcreate : made.create (settings.directory.join name) newFileMode =
      .ok (created, loc))
    {place : Location} (hplace : place ≠ loc) :
    (r.applySection settings name).tree.file? place = r.tree.file? place := by
  obtain ⟨hlocate, hworking, helse⟩ := create_eq_ok hcreate
  have hclosed : ∀ output,
      (created.fill loc output).file? place = r.tree.file? place := by
    intro output
    rw [file?_congr (node?_fill_of_ne hplace created output),
      file?_congr (helse place hplace), hmade.file?_eq]
  cases hdone : ((Splice.start r.patch source).run settings name).failure? with
  | some why =>
      rw [(applySection_of_stopped hopen rfl hdone).1, htree]
      exact hclosed _
  | none =>
      rw [(applySection_of_settled hopen rfl hdone rfl).1, htree]
      refine ((drift_settle settings target _ _).file?_eq ?_).trans (hclosed _)
      rw [hpath, hbackup, OpenTarget.close, place_congr (working_fill ..),
        place_congr hworking, place_of_locate hlocate]
      simpa using hplace

end Run

namespace Visit

open FileTree Target

variable {v : Visit} {loc place : Location} {content : Bytes} {mode : Nat}

/-! ## One visit -/

/-- The file that the section of a visit moves aside: where it is, and what
it is. -/
def moved? (v : Visit) : Option (Location × Bytes × Nat) :=
  match v.opened.result, v.before.tree.find v.path with
  | .ok _, .ok (loc, .file content mode) => some (loc, content, mode)
  | _, _ => none

/-- Whether a visit moves the file at a location aside. -/
def moves (loc : Location) (v : Visit) : Bool :=
  v.moved?.any fun file => file.1 == loc

/-- Whether the section was done with, and no hunk of it failed. -/
def clean (v : Visit) : Bool :=
  v.after.failure?.isNone && v.after.files.back?.any fun result =>
    !result.hasFailed

/-- What a visit that moves a file aside leaves of it. -/
def left? (v : Visit) : Option (Bytes × Nat) :=
  if v.clean then none else v.moved?.map Prod.snd

theorem moved?_eq_some_iff : v.moved? = some (loc, content, mode) ↔
    (∃ o, v.opened.result = .ok o) ∧
    v.before.tree.find v.path = .ok (loc, .file content mode) := by
  unfold moved?
  split
  · next o c m hopen hfind => simp [hopen, hfind]
  · next hnot => simpa using fun o ho hfind => hnot o _ _ _ ho hfind

/-- What is moved aside is moved to its own name with the ending. -/
theorem ready_of_moved? (hdry : v.settings.dryRun = false)
    (htree : v.before.tree.WellFormed)
    (h : v.moved? = some (loc, content, mode)) :
    Run.Ready v.settings v.name v.before.tree content mode loc
      (loc.withSuffix backupEnding) := by
  obtain ⟨⟨o, hopen⟩, hfind⟩ := moved?_eq_some_iff.1 h
  have hnull := htree.hasNull_of_find hfind
  obtain ⟨hlocate, hnode⟩ := find_eq_ok_iff.1 hfind
  obtain ⟨-, hplace, hne⟩ := htree.place_withSuffix hlocate
    (by rw [hnode]; simp) (show 2 < backupEnding.length by decide)
  rw [opened, acquire_of_file hnull hfind,
    show v.settings.directory.join v.name = v.path from rfl]
    at hopen
  rcases openExisting_cases v.name hdry hfind with
    ⟨e, heq⟩ | ⟨aside, haside, hfree, -⟩
  · rw [heq] at hopen
    exact absurd hopen (by simp)
  · obtain rfl : aside = loc.withSuffix backupEnding :=
      (place_of_locate haside).symm.trans hplace
    exact ⟨hnull, hfind, haside, hfree, hne⟩

/-- What was moved aside is found there, unless the section ended clean. -/
theorem file?_aside (hdry : v.settings.dryRun = false)
    (htree : v.before.tree.WellFormed) (hfine : v.before.failure? = none)
    (h : v.moved? = some (loc, content, mode)) :
    v.after.tree.file? (loc.withSuffix backupEnding) = v.left? := by
  have hdone := (ready_of_moved? hdry htree h).outcome hdry
  rw [left?, h]
  unfold clean
  unfold after
  generalize (Splice.start v.before.patch (.ofBytes content)).run v.settings
    v.name = work at hdone
  cases hwork : work.failure? with
  | some why =>
      obtain ⟨-, haside, -, hfailure⟩ := hdone.stopped why hwork
      rw [hfailure, file?_eq_some_iff.2 haside]
      rfl
  | none =>
      rcases Nat.eq_zero_or_pos work.failed with hzero | hpos
      · obtain ⟨haside, result, hresult, hfiles, hfailure⟩ :=
          hdone.clean hwork hzero
        rw [FileTree.file?, haside, hfailure, hfine, hfiles]
        simp [hresult]
      · obtain ⟨-, haside, hfiles, -⟩ := hdone.failed hwork hpos
        rw [file?_eq_some_iff.2 haside, hfiles]
        simp [Run.hasFailed_spliced, hpos]

/-- A visit leaves a file alone that has neither the name of its target nor the
place of the backup that it makes. -/
theorem file?_elsewhere (hdry : v.settings.dryRun = false)
    (htree : v.before.tree.WellFormed)
    (hname : v.path.segments.getLast? ≠ place.head?)
    (haside : ∀ loc content mode, v.moved? = some (loc, content, mode) →
      place ≠ loc.withSuffix backupEnding) :
    v.after.tree.file? place = v.before.tree.file? place := by
  unfold after
  cases hopen : v.opened.result with
  | error why =>
      rw [(Run.applySection_of_error hopen).1]
      exact (directoriesMade_acquire_of_error hopen).file?_eq place
  | ok o =>
      obtain ⟨hnull, hacquired⟩ := acquired_of_ok hdry hopen
      generalize htree' :
        (acquire v.settings v.name v.before.tree).tree = tree' at hacquired
      cases hacquired with
      | @existing content mode loc aside found room free =>
          have hmoved : v.moved? = some (loc, content, mode) :=
            moved?_eq_some_iff.2 ⟨⟨_, hopen⟩, found⟩
          have hready := ready_of_moved? hdry htree hmoved
          obtain ⟨hlocate, hnode⟩ := find_eq_ok_iff.1 found
          obtain ⟨hlast, -⟩ := htree.place_withSuffix hlocate
            (by rw [hnode]; simp)
            (show 2 < backupEnding.length by decide)
          refine file?_congr
            ((hready.outcome hdry).elsewhere place ?_ (haside _ _ _ hmoved))
          rintro rfl
          exact hname hlast
      | @new made tree' loc parents created =>
          obtain ⟨node, hfind, hnode⟩ := find_of_create created
          obtain ⟨hlocate, hthere⟩ := find_eq_ok_iff.1 hfind
          have hmade : tree'.WellFormed := htree' ▸ wellFormed_acquire htree
          obtain ⟨hlast, -⟩ := hmade.place_withSuffix hlocate
            (by rw [hthere]; simpa using hnode)
            (show 2 < backupEnding.length by decide)
          refine Run.file?_applySection_of_created rfl rfl hopen htree' parents
            created ?_
          rintro rfl
          exact hname hlast

theorem moves_iff :
    v.moves loc = true ↔
      ∃ content mode, v.moved? = some (loc, content, mode) := by
  unfold moves
  cases v.moved? with
  | none => simp
  | some file =>
      obtain ⟨found, content, mode⟩ := file
      simp

theorem left?_eq_some_iff (h : v.moves loc = true) :
    (∃ mode, v.left? = some (content, mode)) ↔
      v.clean = false ∧ ∃ mode, v.moved? = some (loc, content, mode) := by
  obtain ⟨content', mode', hmoved⟩ := moves_iff.1 h
  unfold left?
  cases v.clean with
  | true => simp
  | false => simp [hmoved]

/-- A visit leaves the backup of a file alone that it does not move aside. -/
theorem file?_of_not_moves (hdry : v.settings.dryRun = false)
    (htree : v.before.tree.WellFormed)
    (hname : ∀ name ∈ v.path.segments.getLast?, ¬ backupEnding <:+ name)
    (hloc : loc ≠ []) (h : v.moves loc = false) :
    v.after.tree.file? (loc.withSuffix backupEnding) =
      v.before.tree.file? (loc.withSuffix backupEnding) := by
  obtain ⟨name, above, rfl⟩ := List.exists_cons_of_ne_nil hloc
  refine file?_elsewhere hdry htree (fun hlast => ?_) fun other content mode
    hmoved heq => ?_
  · exact hname _ hlast (List.suffix_append _ _)
  · cases other with
    | nil => simp [Location.withSuffix] at heq
    | cons name' above' =>
        obtain ⟨hhead, rfl⟩ := List.cons.inj heq
        rw [List.append_cancel_right hhead,
          moves_iff.2 ⟨content, mode, hmoved⟩] at h
        exact absurd h (by simp)

end Visit

/-! ## Many visits -/

section Leads

open FileTree Target

variable {first last : FileTree} {visits : List Visit}

theorem Leads.directoriesIn (h : Leads first visits last)
    (hdry : ∀ v ∈ visits, v.settings.dryRun = false) :
    first.DirectoriesIn last := by
  induction visits generalizing first with
  | nil =>
      obtain rfl : last = first := h
      exact ⟨rfl, fun _ => id⟩
  | cons v visits ih =>
      obtain ⟨rfl, hrest⟩ := h
      exact (Run.directoriesIn_applySection (hdry v (by simp))).trans
        (ih hrest fun w hw => hdry w (by simp [hw]))

/-- What becomes of the backup of a file is up to the last visit that moves the
file aside; without one the backup is what it was. -/
theorem Leads.file?_aside (h : Leads first visits last)
    (hfirst : first.WellFormed) (hdry : ∀ v ∈ visits, v.settings.dryRun = false)
    (hfine : ∀ v ∈ visits, v.before.failure? = none)
    (hnames : ∀ v ∈ visits, ∀ name ∈ v.path.segments.getLast?,
      ¬ backupEnding <:+ name)
    {loc : Location} (hloc : loc ≠ []) :
    last.file? (loc.withSuffix backupEnding) =
      match (visits.filter (Visit.moves loc)).getLast? with
      | none => first.file? (loc.withSuffix backupEnding)
      | some v => v.left? := by
  induction visits generalizing first with
  | nil =>
      obtain rfl : last = first := h
      rfl
  | cons v visits ih =>
      obtain ⟨rfl, hrest⟩ := h
      have hdry' := hdry v (by simp)
      have hlater := ih hrest (Run.wellFormed_applySection hfirst)
        (fun w hw => hdry w (by simp [hw])) (fun w hw => hfine w (by simp [hw]))
        fun w hw => hnames w (by simp [hw])
      rw [hlater]
      cases hmoves : v.moves loc with
      | true =>
          obtain ⟨content, mode, hmoved⟩ := Visit.moves_iff.1 hmoves
          rw [List.filter_cons_of_pos hmoves, List.getLast?_cons]
          cases (visits.filter (Visit.moves loc)).getLast? with
          | some w => rfl
          | none =>
              exact Visit.file?_aside hdry' hfirst (hfine v (by simp)) hmoved
      | false =>
          rw [List.filter_cons_of_neg (by simp [hmoves])]
          cases (visits.filter (Visit.moves loc)).getLast? with
          | some w => rfl
          | none =>
              exact Visit.file?_of_not_moves hdry' hfirst (hnames v (by simp))
                hloc hmoves

end Leads

/-! ## The backup of a section -/

namespace Visit

open FileTree Target

variable {v : Visit} {loc : Location} {content : Bytes} {mode : Nat}
  {result : FileResult}

/-- A section on a file with failed hunks has a backup, and did not
end clean. -/
theorem backup_of_hasFailed (hdry : v.settings.dryRun = false)
    (htree : v.before.tree.WellFormed)
    (hfind : v.before.tree.find v.path = .ok (loc, .file content mode))
    (hresult : v.after.files = v.before.files.push result)
    (hfailed : result.hasFailed = true) :
    v.moved? = some (loc, content, mode) ∧ v.clean = false ∧
      result.backup = some (v.path.withSuffix backupEnding) := by
  have hmoved : v.moved? = some (loc, content, mode) := by
    refine moved?_eq_some_iff.2 ⟨?_, hfind⟩
    cases hopen : v.opened.result with
    | ok o => exact ⟨o, rfl⟩
    | error why =>
        rw [after, (Run.applySection_of_error hopen).2.1] at hresult
        exact absurd (congrArg Array.size hresult) (by simp)
  have hdone := (ready_of_moved? hdry htree hmoved).outcome hdry
  have hclean : v.clean = false := by
    rw [clean, hresult]
    simp [hfailed]
  refine ⟨hmoved, hclean, ?_⟩
  unfold after at hresult
  generalize (Splice.start v.before.patch (.ofBytes content)).run v.settings
    v.name = work at hdone
  cases hwork : work.failure? with
  | some why =>
      obtain ⟨-, -, hfiles, -⟩ := hdone.stopped why hwork
      rw [hfiles] at hresult
      exact absurd (congrArg Array.size hresult) (by simp)
  | none =>
      rcases Nat.eq_zero_or_pos work.failed with hzero | hpos
      · obtain ⟨-, other, hother, hfiles, -⟩ := hdone.clean hwork hzero
        rw [hfiles, Array.push_eq_push] at hresult
        rw [hresult.1, hfailed] at hother
        exact absurd hother (by simp)
      · obtain ⟨-, -, hfiles, -⟩ := hdone.failed hwork hpos
        rw [hfiles, Array.push_eq_push] at hresult
        rw [← hresult.1]
        rfl

end Visit

namespace Call

open FileTree Target

theorem failure?_before_of_mem_visits {calls : List Call} {tree : FileTree}
    {v : Visit} (h : v ∈ visits calls tree) : v.before.failure? = none := by
  induction calls generalizing tree with
  | nil => exact absurd h (by simp [visits])
  | cons c calls ih =>
      rcases List.mem_append.1 h with hmem | hmem
      · exact Run.failure?_before_of_mem_visits rfl hmem
      · exact ih hmem

/-- Let patches be applied one after another to a tree, none of them to a file
whose name ends as those of backups do. If a section of them finds a file and
has failed hunks, it reports a backup, and at the end of all a file with that
content is there exactly if no later section moves the file aside again, or the
last one that does finds it with that content and does not end clean. -/
theorem backup_stays_iff (calls : List Call) (tree : FileTree) (i : Nat)
    (v : Visit) (loc : Location) (content : Bytes) (mode : Nat)
    (result : FileResult) (hdry : ∀ c ∈ calls, c.settings.dryRun = false)
    (htree : tree.WellFormed)
    (hnames : ∀ w ∈ visits calls tree, ∀ name ∈ w.path.segments.getLast?,
      ¬ backupEnding <:+ name)
    (hvisit : (visits calls tree)[i]? = some v)
    (hfind : v.before.tree.find v.path = .ok (loc, .file content mode))
    (hresult : v.after.files = v.before.files.push result)
    (hfailed : result.hasFailed = true) :
    ∃ backup, result.backup = some backup ∧
      ((∃ goal mode,
        (applyAll calls tree).find backup = .ok (goal, .file content mode)) ↔
        ∀ w ∈ (((visits calls tree).drop (i + 1)).filter
          (Visit.moves loc)).getLast?,
          w.clean = false ∧ ∃ mode, w.moved? = some (loc, content, mode)) := by
  obtain ⟨hlt, hget⟩ := List.getElem?_eq_some_iff.1 hvisit
  have hsplit : visits calls tree =
      (visits calls tree).take i ++ v :: (visits calls tree).drop (i + 1) := by
    rw [← hget, List.getElem_cons_drop, List.take_append_drop]
  generalize hlater : (visits calls tree).drop (i + 1) = later at hsplit ⊢
  generalize (visits calls tree).take i = earlier at hsplit
  have hmem : ∀ w ∈ v :: later, w ∈ visits calls tree := by
    intro w hw
    rw [hsplit]
    exact List.mem_append_right _ hw
  have hreal : ∀ w ∈ visits calls tree, w.settings.dryRun = false := by
    intro w hw
    obtain ⟨c, hc, heq⟩ := exists_of_mem_visits hw
    rw [heq]
    exact hdry c hc
  have hleads := leads_visits calls tree
  rw [hsplit] at hleads
  obtain ⟨mid, hbefore, rfl, hafter⟩ := leads_append.1 hleads
  have hbefore' := (hbefore.wellFormed htree).2
  have hdry' := hreal v (hmem v (by simp))
  obtain ⟨hmoved, hclean, hbackup⟩ :=
    Visit.backup_of_hasFailed hdry' hbefore' hfind hresult hfailed
  have hready := Visit.ready_of_moved? hdry' hbefore' hmoved
  have hfine := fun w hw => failure?_before_of_mem_visits (hmem w hw)
  have hkept : (applyAll calls tree).file? (loc.withSuffix backupEnding) =
      match (later.filter (Visit.moves loc)).getLast? with
      | none => some (content, mode)
      | some w => w.left? := by
    have hleft : v.left? = some (content, mode) := by
      rw [Visit.left?, hclean, hmoved]
      rfl
    rw [← hleft, ← Visit.file?_aside hdry' hbefore' (hfine v (by simp)) hmoved]
    refine hafter.file?_aside (Run.wellFormed_applySection hbefore')
      (fun w hw => hreal w (hmem w (by simp [hw])))
      (fun w hw => hfine w (by simp [hw]))
      (fun w hw => hnames w (hmem w (by simp [hw]))) ?_
    rintro rfl
    exact hready.apart rfl
  have hroom : (applyAll calls tree).locate (v.path.withSuffix backupEnding) =
      .ok (loc.withSuffix backupEnding) :=
    ((Run.directoriesIn_applySection hdry').trans
      (hafter.directoriesIn fun w hw => hreal w (hmem w (by simp [hw])))).locate
      hready.room
  refine ⟨_, hbackup, ?_⟩
  rw [exists_find_iff hroom, hkept]
  cases hlast : (later.filter (Visit.moves loc)).getLast? with
  | none => simp
  | some w =>
      have hmoves := (List.mem_filter.1 (List.mem_of_getLast? hlast)).2
      simpa using Visit.left?_eq_some_iff hmoves

/-- A section of `f` that does not fit a file of the line `a`, and one
of `g`. -/
def missedThenOther : List Call :=
  [{ settings := { directory := ⟨.working, []⟩ }
     patch := Bytes.ascii
      "--- a/f\n+++ b/f\n@@ -1 +1 @@\n-x\n+y\n--- a/g\n+++ b/g\n@@ -0,0 +1 @@\n+z\n" }]

/-- The same section, and after it one of `f` that fits every file. -/
def missedThenSame : List Call :=
  [{ settings := { directory := ⟨.working, []⟩ }
     patch := Bytes.ascii
      "--- a/f\n+++ b/f\n@@ -1 +1 @@\n-x\n+y\n--- a/f\n+++ b/f\n@@ -0,0 +1 @@\n+z\n" }]

/-- What is reported of that section. -/
def missedResult : FileResult where
  path := ⟨.working, [Bytes.ascii "f"]⟩
  hunks := 1
  failed := 1
  backup := some ⟨.working, [Bytes.ascii "f.orig"]⟩

/-- A section of another file does the backup no harm. -/
theorem backup_stays_iff_oneFile :
    ∃ goal mode, (applyAll missedThenOther .oneFile).find
      ⟨.working, [Bytes.ascii "f.orig"]⟩ =
      .ok (goal, .file (Bytes.ascii "a\n") mode) := by
  obtain ⟨backup, hbackup, hiff⟩ := backup_stays_iff missedThenOther
    .oneFile 0 _ [Bytes.ascii "f", Bytes.ascii "w"] (Bytes.ascii "a\n") 0o600
    missedResult (by decide) (by decide) (by decide +kernel)
    (List.getElem?_eq_getElem (by decide +kernel))
    (by decide +kernel) (by decide +kernel) rfl
  have hnone : ((visits missedThenOther .oneFile).drop (0 + 1)).filter
      (Visit.moves [Bytes.ascii "f", Bytes.ascii "w"]) = [] :=
    List.isEmpty_iff.1 (by decide +kernel)
  rw [hnone] at hiff
  obtain rfl := Option.some.inj hbackup
  exact hiff.2 (by simp)

/-- A section of the same file that applies takes the backup away. -/
theorem not_forall_backup_stays :
    ¬ ∀ (calls : List Call) (tree : FileTree) (i : Nat) (v : Visit)
      (loc : Location) (content : Bytes) (mode : Nat) (result : FileResult),
      (∀ c ∈ calls, c.settings.dryRun = false) → tree.WellFormed →
      (∀ w ∈ visits calls tree, ∀ name ∈ w.path.segments.getLast?,
        ¬ backupEnding <:+ name) →
      (visits calls tree)[i]? = some v →
      v.before.tree.find v.path = .ok (loc, .file content mode) →
      v.after.files = v.before.files.push result → result.hasFailed = true →
      ∃ backup, result.backup = some backup ∧
        ∃ goal mode, (applyAll calls tree).find backup =
          .ok (goal, .file content mode) := by
  intro h
  obtain ⟨backup, hbackup, goal, mode, hfind⟩ := h missedThenSame .oneFile 0 _
    [Bytes.ascii "f", Bytes.ascii "w"] (Bytes.ascii "a\n") 0o600 missedResult
    (by decide) (by decide) (by decide +kernel)
    (List.getElem?_eq_getElem (by decide +kernel)) (by decide +kernel)
    (by decide +kernel) rfl
  obtain rfl := Option.some.inj hbackup
  have hgone : ((applyAll missedThenSame .oneFile).find
      ⟨.working, [Bytes.ascii "f.orig"]⟩).toOption = none := by decide +kernel
  rw [hfind] at hgone
  exact absurd hgone (by simp [Except.toOption])

end Call

end UnifiedPatch
