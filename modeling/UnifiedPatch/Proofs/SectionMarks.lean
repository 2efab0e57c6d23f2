import UnifiedPatch.Proofs.SectionBackup
import UnifiedPatch.Proofs.SectionsMet

/-!
# What a section leaves, whatever the tree

That a section drifts a tree says where the tree can have changed. Here is what
it is changed to. A section that goes well leaves marks, a file or nothing, at
its target and at the backup if it made one; it leaves directories above them;
and that is all (`Leaves`). The marks are told by the lines of the patch and by
what was found at the target. So a section that finds the same in two trees
leaves the same marks in both, and it reports the same, and sections that mark
different places can be done in either order (`Leaves.comm`).
-/

namespace UnifiedPatch

namespace FileTree

variable {t t' : FileTree} {loc : Location}
  {marks : List (Location × Option Node)}

/-! ## Marks -/

/-- The same stands everywhere. -/
structure Same (t t' : FileTree) : Prop where
  working : t'.working = t.working
  node? : ∀ loc, t'.node? loc = t.node? loc

/-- The second tree has its marks and directories above `loc`, and is like the
first one otherwise. -/
structure Leaves (t : FileTree) (loc : Location)
    (marks : List (Location × Option Node)) (t' : FileTree) : Prop where
  working : t'.working = t.working
  marked : ∀ m ∈ marks, t'.node? m.1 = m.2
  above : ∀ place, place <:+ loc.tail → t'.node? place = some .directory
  elsewhere : ∀ place, (∀ m ∈ marks, place ≠ m.1) → ¬ place <:+ loc.tail →
    t'.node? place = t.node? place

theorem Leaves.comm {tree left right leftRight rightLeft : FileTree}
    {loc' : Location} {marks' : List (Location × Option Node)}
    (hleft : tree.Leaves loc marks left)
    (hleftRight : left.Leaves loc' marks' leftRight)
    (hright : tree.Leaves loc' marks' right)
    (hrightLeft : right.Leaves loc marks rightLeft)
    (hmarks : ∀ m ∈ marks, ∀ m' ∈ marks', m.1 ≠ m'.1)
    (habove : ∀ m ∈ marks, ¬ m.1 <:+ loc'.tail)
    (habove' : ∀ m' ∈ marks', ¬ m'.1 <:+ loc.tail) :
    leftRight.Same rightLeft := by
  refine ⟨?_, fun place => ?_⟩
  · rw [hrightLeft.working, hright.working, hleftRight.working, hleft.working]
  · by_cases hmark : ∃ m ∈ marks, place = m.1
    · obtain ⟨m, hm, rfl⟩ := hmark
      rw [hrightLeft.marked m hm,
        hleftRight.elsewhere _ (hmarks m hm) (habove m hm), hleft.marked m hm]
    · by_cases hmark' : ∃ m' ∈ marks', place = m'.1
      · obtain ⟨m', hm', rfl⟩ := hmark'
        rw [hleftRight.marked m' hm', hrightLeft.elsewhere _
          (fun m hm => (hmarks m hm m' hm').symm) (habove' m' hm'),
          hright.marked m' hm']
      · have hnot : ∀ m ∈ marks, place ≠ m.1 :=
          fun m hm heq => hmark ⟨m, hm, heq⟩
        have hnot' : ∀ m' ∈ marks', place ≠ m'.1 :=
          fun m' hm' heq => hmark' ⟨m', hm', heq⟩
        by_cases hup : place <:+ loc.tail
        · rw [hrightLeft.above place hup]
          by_cases hup' : place <:+ loc'.tail
          · rw [hleftRight.above place hup']
          · rw [hleftRight.elsewhere place hnot' hup', hleft.above place hup]
        · rw [hrightLeft.elsewhere place hnot hup]
          by_cases hup' : place <:+ loc'.tail
          · rw [hleftRight.above place hup', hright.above place hup']
          · rw [hleftRight.elsewhere place hnot' hup',
              hleft.elsewhere place hnot hup, hright.elsewhere place hnot' hup']

/-- Everything above what is there is a directory. -/
theorem WellFormed.node?_above (htree : t.WellFormed) {node : Node}
    (h : t.node? loc = some node) {place : Location}
    (hplace : place <:+ loc.tail) : t.node? place = some .directory := by
  have hup : ∀ dir, t.node? dir = some .directory → place <:+ dir →
      t.node? place = some .directory := by
    intro dir
    induction dir with
    | nil =>
        intro hdir hle
        rwa [List.suffix_nil.1 hle]
    | cons name above ih =>
        intro hdir hle
        rcases List.suffix_cons_iff.1 hle with rfl | hmore
        · exact hdir
        · exact ih (htree.node?_tail hdir) hmore
  cases loc with
  | nil => exact hup [] htree.node?_root hplace
  | cons name above =>
      exact hup above (htree.above _ (mem_of_node? h) (by simp)) hplace

end FileTree

namespace Target

open FileTree

variable {settings : Settings} {name : Bytes} {path : Path} {tree : FileTree}

/-! ## Opening and settling a new file -/

/-- A target that is not there is made where its path leads. -/
theorem openNew_eq {o : OpenTarget} (hdry : settings.dryRun = false)
    (htree : tree.WellFormed) (hp : tree.Straight path)
    (hfind : tree.find path = .error .notFound)
    (h : (openNew settings name path tree).result = .ok o) :
    o = { target := { name, path, backup := none, existed := false }
          source := .empty
          sink := some (tree.place path) } ∧
      ∃ made, tree.Drift made [(tree.place path).tail] ∧
        (openNew settings name path tree).tree =
          made.put (tree.place path) (.file [] newFileMode) := by
  obtain ⟨hstraight, last, hlast⟩ := hp.parent_of_find hfind
  have hmade := drift_makeDirectories hstraight (List.suffix_refl _)
  rw [show tree.place path.parent =
    (tree.place path).tail by rw [hlast]; rfl] at hmade
  have hnone := htree.node?_place_of_notFound hp hfind
  unfold openNew at h ⊢
  simp only [hdry, Bool.false_eq_true, if_false] at h ⊢
  split at h
  · exact absurd h (by simp)
  · next made hparents =>
      rw [hparents] at hmade
      split at h
      · exact absurd h (by simp)
      · next created loc hcreate =>
          obtain rfl : tree.place path = loc := by
            rw [← place_congr hmade.dirs.working,
              place_of_locate (create_eq_ok hcreate).1]
          have hfree : made.node? (tree.place path) = none := by
            rcases hmade.node? (tree.place path) (by simp [hlast]) with
              heq | ⟨-, -, site, hsite, hle⟩
            · exact heq.trans hnone
            · rw [List.mem_singleton.1 hsite, hlast] at hle
              have hlength := hle.length_le
              rw [List.tail_cons, List.length_cons] at hlength
              omega
          refine ⟨(Except.ok.inj h).symm, made, hmade, ?_⟩
          obtain ⟨-, -, ⟨hdevice, -⟩ | hput⟩ := create_cases hcreate
          · exact absurd (hfree.symm.trans hdevice) (by simp)
          · exact hput

/-- What is reported of a target for which the work was done. -/
theorem result_settle_of_fine {target : Target} {result : FileResult}
    (hdry : settings.dryRun = false) (hbackup : result.backup = target.backup)
    (hdeleted : result.deleted = false)
    (hfine : (settle settings target result tree).failure? = none) :
    (settle settings target result tree).result =
      if result.hasFailed then result
      else
        { result with
          backup := none
          deleted := decide (result.produced = 0) } := by
  cases hfailed : result.hasFailed with
  | true => rw [(settle_of_hasFailed hfailed).2.1, if_pos rfl]
  | false =>
      have hdropped : (dropBackup target result tree).failure? = none →
          (dropBackup target result tree).result =
            { result with backup := none } := by
        unfold dropBackup
        split
        · next hnone => exact fun _ => by rw [← hnone, ← hbackup]
        · split
          · exact fun _ => rfl
          · exact fun _ => rfl
          · exact fun h => absurd h (by simp)
      cases hdrop : (dropBackup target result tree).failure? with
      | some why =>
          rw [settle, hfailed] at hfine
          simp only [Bool.false_eq_true, if_false, hdrop] at hfine
          exact absurd hfine (by simp)
      | none =>
          rw [settle_of_dropBackup hfailed hdrop, hdropped hdrop] at hfine ⊢
          rw [if_neg (by simp)]
          unfold dropEmpty at hfine ⊢
          by_cases hproduced : result.produced = 0
          · rw [if_neg (by simp [hdry, hproduced])] at hfine ⊢
            split at hfine
            · exact absurd hfine (by simp)
            · simp [hproduced]
          · rw [if_pos (by simp [hproduced])]
            simp [hproduced, hdeleted]

/-- Settling takes a new target away if there is nothing in it. -/
theorem tree_settle_of_created {target : Target} {result : FileResult}
    (hdry : settings.dryRun = false) (hbackup : target.backup = none)
    (hfine : (settle settings target result tree).failure? = none) :
    (settle settings target result tree).tree =
      if result.hasFailed = false ∧ result.produced = 0 then
        tree.remove (tree.place target.path)
      else tree := by
  cases hfailed : result.hasFailed with
  | true =>
      rw [(settle_of_hasFailed hfailed).1]
      simp
  | false =>
      have hdrop : target.dropBackup result tree = { tree, result } :=
        dropBackup_of_none hbackup
      rw [settle_of_dropBackup hfailed (by rw [hdrop]), hdrop] at hfine ⊢
      by_cases hproduced : result.produced = 0
      · rw [tree_dropEmpty hdry hproduced hfine, if_pos ⟨rfl, hproduced⟩]
      · rw [dropEmpty_of_produced hproduced, if_neg fun h => hproduced h.2]

end Target

namespace Run

open FileTree Target

variable {settings : Settings} {name : Bytes} {r r' : Run} {work : Splice}
  {content : Bytes} {mode : Nat} {loc : Location}

/-! ## The marks of a section -/

/-- What stands at the target of a section whose work is done. -/
def leftAt (work : Splice) (mode : Nat) : Option Node :=
  if work.failed = 0 ∧ work.produced = 0 then none
  else some (.file work.output mode)

/-- What stands at the backup of that target, if it was moved aside. -/
def leftAside (work : Splice) (content : Bytes) (mode : Nat) : Option Node :=
  if work.failed = 0 then none else some (.file content mode)

theorem length_lt_of_suffix_tail {place loc : Location} (hloc : loc ≠ [])
    (h : place <:+ loc.tail) :
    place.length < loc.length := by
  have hlength := h.length_le
  have hpos := List.length_pos_iff.2 hloc
  rw [List.length_tail] at hlength
  omega

/-- The marks of a section on a file that is there. -/
theorem Ready.leaves
    (h : Ready settings name r.tree content mode loc
      (loc.withSuffix backupEnding))
    (hdry : settings.dryRun = false) (htree : r.tree.WellFormed)
    (hwork : (Splice.start r.patch (.ofBytes content)).run settings name = work)
    (hdone : work.failure? = none) :
    r.tree.Leaves loc [(loc, leftAt work mode),
      (loc.withSuffix backupEnding, leftAside work content mode)]
      (r.applySection settings name).tree := by
  have hend := h.outcome hdry
  rw [hwork] at hend
  have hnode := (find_eq_ok_iff.1 h.found).2
  have hloc : loc ≠ [] := by
    rintro rfl
    exact absurd (hnode.symm.trans htree.node?_root) (by simp)
  refine ⟨(directoriesIn_applySection hdry).working, ?_, fun place hplace => ?_,
    fun place hplace _ => ?_⟩
  · rcases Nat.eq_zero_or_pos work.failed with hzero | hpos
    · rcases Nat.eq_zero_or_pos work.produced with hempty | hproduced
      · obtain ⟨hat, haside, -⟩ := hend.empty hdone hzero hempty
        simp [leftAt, leftAside, hat, haside, hzero, hempty]
      · obtain ⟨hat, haside, -⟩ := hend.produced hdone hzero hproduced
        simp [leftAt, leftAside, hat, haside, hzero,
          Nat.pos_iff_ne_zero.1 hproduced]
    · obtain ⟨hat, haside, -⟩ := hend.failed hdone hpos
      simp [leftAt, leftAside, hat, haside, Nat.pos_iff_ne_zero.1 hpos]
  · have hshort := length_lt_of_suffix_tail hloc hplace
    rw [hend.elsewhere place, htree.node?_above hnode hplace]
    · rintro rfl
      exact absurd hshort (Nat.lt_irrefl _)
    · rintro rfl
      obtain ⟨last, above, rfl⟩ := List.exists_cons_of_ne_nil hloc
      simp [Location.withSuffix] at hshort
  · exact hend.elsewhere place (hplace _ List.mem_cons_self)
      (hplace _ (List.mem_cons_of_mem _ (List.mem_singleton_self _)))

/-- The tree after a section on a file that is not there. -/
theorem exists_tree_of_notFound {o : OpenTarget}
    (hdry : settings.dryRun = false) (htree : r.tree.WellFormed)
    (hp : r.tree.Straight (settings.directory.join name))
    (hfind : r.tree.find (settings.directory.join name) = .error .notFound)
    (hopen : (acquire settings name r.tree).result = .ok o)
    (hwork : (Splice.start r.patch o.source).run settings name = work)
    (hfine : (r.applySection settings name).failure? = none)
    (hloc : r.tree.place (settings.directory.join name) = loc) :
    ∃ made, r.tree.Drift made [loc.tail] ∧
      (acquire settings name r.tree).tree =
        made.put loc (.file [] newFileMode) ∧
      ∀ place, (r.applySection settings name).tree.node? place =
        if place = loc then leftAt work newFileMode else made.node? place := by
  have hopened := acquire_of_notFound (hasNull_of_acquire hopen) hfind
  obtain ⟨ho, made, hmade, hput⟩ :=
    openNew_eq hdry htree hp hfind (hopened ▸ hopen)
  rw [← hopened, hloc] at hput
  rw [hloc] at ho hmade
  refine ⟨made, hmade, hput, fun place => ?_⟩
  have hclosed : o.close work.output (acquire settings name r.tree).tree =
      (made.put loc (.file [] newFileMode)).put loc
        (.file work.output newFileMode) := by
    rw [hput, ho]
    exact fill_of_file (by rw [node?_put, if_pos rfl]) work.output
  have hplace : ((made.put loc (.file [] newFileMode)).put loc
      (.file work.output newFileMode)).place o.target.path = loc := by
    rw [path_acquire hopen, ← hloc]
    exact place_congr hmade.dirs.working _
  obtain ⟨-, hsettled, hafter, -, -⟩ := settled_of_fine hopen hwork rfl hfine
  rw [hafter, tree_settle_of_created hdry (by rw [ho]) hsettled, hclosed,
    hplace, leftAt, hasFailed_spliced]
  by_cases hempty : work.failed = 0 ∧ work.produced = 0
  · rw [if_pos (by simp [spliced, hempty]), if_pos hempty, node?_remove,
      node?_put, node?_put]
    split <;> rfl
  · rw [if_neg (by simpa [spliced] using hempty), if_neg hempty, node?_put,
      node?_put]
    split <;> rfl

/-- The mark of a section on a file that is not there. -/
theorem leaves_of_notFound {o : OpenTarget} (hdry : settings.dryRun = false)
    (htree : r.tree.WellFormed)
    (hp : r.tree.Straight (settings.directory.join name))
    (hfind : r.tree.find (settings.directory.join name) = .error .notFound)
    (hopen : (acquire settings name r.tree).result = .ok o)
    (hwork : (Splice.start r.patch o.source).run settings name = work)
    (hfine : (r.applySection settings name).failure? = none) :
    r.tree.Leaves (r.tree.place (settings.directory.join name))
      [(r.tree.place (settings.directory.join name), leftAt work newFileMode)]
      (r.applySection settings name).tree := by
  obtain ⟨made, hmade, hput, hafter⟩ :=
    exists_tree_of_notFound hdry htree hp hfind hopen hwork hfine rfl
  generalize hloc :
    r.tree.place (settings.directory.join name) = loc at hmade hput hafter ⊢
  have hcreated : (made.put loc (.file [] newFileMode)).WellFormed :=
    hput ▸ wellFormed_acquire htree
  have hnode : (made.put loc (.file [] newFileMode)).node? loc =
      some (.file [] newFileMode) := by
    rw [node?_put, if_pos rfl]
  have hne : loc ≠ [] := by
    rintro rfl
    exact absurd (hnode.symm.trans hcreated.node?_root) (by simp)
  refine ⟨(directoriesIn_applySection hdry).working, by simp [hafter],
    fun place hplace => ?_, fun place hplace hup => ?_⟩
  · have hshort := length_lt_of_suffix_tail hne hplace
    have habove := hcreated.node?_above hnode hplace
    have hother : place ≠ loc := by
      rintro rfl
      exact absurd hshort (Nat.lt_irrefl _)
    rw [node?_put, if_neg hother] at habove
    rw [hafter, if_neg hother, habove]
  · rw [hafter, if_neg (hplace _ (List.mem_singleton_self _))]
    have haway : place ∉ [loc.tail] := by
      rw [List.mem_singleton]
      rintro rfl
      exact hup (List.suffix_refl _)
    rcases hmade.node? place haway with heq | ⟨-, -, site, hsite, hle⟩
    · exact heq
    · rw [List.mem_singleton.1 hsite] at hle
      exact absurd hle hup

/-! ## The report of a section -/

/-- What is reported of a target by the work on it. -/
def reported (target : Target) (work : Splice) : FileResult :=
  if 0 < work.failed then spliced target work
  else
    { spliced target work with
      backup := none
      deleted := decide (work.produced = 0) }

/-- What a section tells the user. -/
def told (name : Bytes) (work : Splice) : List Notice :=
  .patchingFile name :: (work.transcript.notices ++
    if 0 < work.failed then [.fileFailed work.failed work.hunks] else [])

theorem notices_of_fine {o : OpenTarget}
    (hopen : (acquire settings name r.tree).result = .ok o)
    (hwork : (Splice.start r.patch o.source).run settings name = work)
    (hdone : work.failure? = none) :
    (r.applySection settings name).said.notices =
      r.said.notices ++ told name work := by
  have hsaid : (r.applySection settings name).said =
      (r.worked settings name o work).said ++ (o.target.settle settings
        (spliced o.target work) (r.worked settings name o work).tree).said := by
    rw [applySection_eq_of_ok hopen hwork, hdone]
    simp only [finishSection]
    split <;> rfl
  have hnotice : Transcript.notices #[.notice (.patchingFile name)] =
      [.patchingFile name] := rfl
  rw [hsaid, Transcript.notices_append, (said_settle _ _ _ _).1,
    hasFailed_spliced]
  simp only [worked, Transcript.notices_append, (said_acquire _ _ _).1,
    hnotice, told, List.append_nil, List.append_assoc, List.cons_append,
    List.nil_append, decide_eq_true_eq, spliced]

theorem report_of_fine {o : OpenTarget} (hdry : settings.dryRun = false)
    (hopen : (acquire settings name r.tree).result = .ok o)
    (hwork : (Splice.start r.patch o.source).run settings name = work)
    (hfine : (r.applySection settings name).failure? = none) :
    work.failure? = none ∧
      (r.applySection settings name).files =
        r.files.push (reported o.target work) ∧
      (r.applySection settings name).said.notices =
        r.said.notices ++ told name work := by
  obtain ⟨hdone, hsettled, -, -, hfiles⟩ :=
    settled_of_fine hopen hwork rfl hfine
  refine ⟨hdone, ?_, notices_of_fine hopen hwork hdone⟩
  rw [hfiles, result_settle_of_fine hdry rfl rfl hsettled,
    hasFailed_spliced, reported]
  simp [spliced]

/-- What a section leaves and reports. -/
structure Marked (settings : Settings) (name : Bytes) (loc : Location)
    (marks : List (Location × Option Node)) (result : FileResult)
    (notices : List Notice) (r : Run) : Prop where
  leaves : r.tree.Leaves loc marks (r.applySection settings name).tree
  files : (r.applySection settings name).files = r.files.push result
  notices : (r.applySection settings name).said.notices =
    r.said.notices ++ notices

theorem marked_of_file (hdry : settings.dryRun = false)
    (htree : r.tree.WellFormed)
    (hfind : r.tree.find (settings.directory.join name) =
      .ok (loc, .file content mode))
    (hwork : (Splice.start r.patch (.ofBytes content)).run settings name = work)
    (hfine : (r.applySection settings name).failure? = none) :
    Marked settings name loc [(loc, leftAt work mode),
      (loc.withSuffix backupEnding, leftAside work content mode)]
      (reported (filed settings name) work) (told name work) r := by
  obtain ⟨o, -, hopened, -⟩ := exists_work_of_fine hfine
  have hmoved : (Visit.mk settings name r).moved? = some (loc, content, mode) :=
    Visit.moved?_eq_some_iff.2 ⟨⟨o, hopened⟩, hfind⟩
  have hready := Visit.ready_of_moved? hdry htree hmoved
  have hopen := congrArg Reply.result (Ready.acquire_eq hready hdry)
  obtain ⟨hdone, hfiles, hnotices⟩ := report_of_fine hdry hopen hwork hfine
  exact ⟨hready.leaves hdry htree hwork hdone, hfiles, hnotices⟩

theorem marked_of_notFound (hdry : settings.dryRun = false)
    (htree : r.tree.WellFormed)
    (hp : r.tree.Straight (settings.directory.join name))
    (hfind : r.tree.find (settings.directory.join name) = .error .notFound)
    (hwork : (Splice.start r.patch .empty).run settings name = work)
    (hfine : (r.applySection settings name).failure? = none) :
    Marked settings name (r.tree.place (settings.directory.join name))
      [(r.tree.place (settings.directory.join name), leftAt work newFileMode)]
      (reported
        { name
          path := settings.directory.join name
          backup := none
          existed := false }
        work)
      (told name work) r := by
  obtain ⟨o, -, hopen, -⟩ := exists_work_of_fine hfine
  have hopened := acquire_of_notFound (hasNull_of_acquire hopen) hfind
  obtain ⟨ho, -⟩ := openNew_eq hdry htree hp hfind (hopened ▸ hopen)
  have hwork' : (Splice.start r.patch o.source).run settings name = work := by
    rw [ho, hwork]
  obtain ⟨-, hfiles, hnotices⟩ := report_of_fine hdry hopen hwork' hfine
  rw [ho] at hfiles
  exact ⟨leaves_of_notFound hdry htree hp hfind hopen hwork' hfine,
    hfiles, hnotices⟩

theorem path_reported (target : Target) (work : Splice) :
    (reported target work).path = target.path := by
  unfold reported
  split <;> rfl

/-- A section does the same to two trees that differ at places apart from
its own. -/
theorem exists_marked_of_drift (r r' : Run) {touched : List Location}
    (hdry : settings.dryRun = false) (htree : r.tree.WellFormed)
    (htree' : r'.tree.WellFormed)
    (hp : r.tree.Straight (settings.directory.join name))
    (hdrift : r.tree.Drift r'.tree touched)
    (haway : ∀ site ∈ touched,
      site.Apart (r.tree.place (settings.directory.join name)))
    (hpatch : r'.patch = r.patch)
    (hfine : (r.applySection settings name).failure? = none)
    (hfine' : (r'.applySection settings name).failure? = none) :
    ∃ marks result notices,
      (∀ m ∈ marks, m.1 ∈ sites settings r.tree name) ∧
      result.path = settings.directory.join name ∧
      notices.head? = some (.patchingFile name) ∧
      Marked settings name (r.tree.place (settings.directory.join name)) marks
        result notices r ∧
      Marked settings name (r.tree.place (settings.directory.join name)) marks
        result notices
        r' := by
  obtain ⟨o, -, hopen, -⟩ := exists_work_of_fine hfine
  obtain ⟨o', -, hopen', -⟩ := exists_work_of_fine hfine'
  rcases find_of_acquire hopen with ⟨loc, content, mode, hfind⟩ | hfind
  · have hfind' := hdrift.find_ok haway hfind
    obtain ⟨hlocate, hnode⟩ := find_eq_ok_iff.1 hfind
    obtain ⟨-, haside, -⟩ := htree.place_withSuffix hlocate
      (by rw [hnode]; simp)
      (show 2 < backupEnding.length by decide)
    have hloc := place_of_find hfind
    refine ⟨_, _, _, ?_, path_reported _ _, rfl,
      hloc ▸ marked_of_file hdry htree hfind rfl hfine,
      hloc ▸ marked_of_file hdry htree' hfind' (by rw [hpatch]) hfine'⟩
    simp [sites, hloc, haside]
  · have hfind' : r'.tree.find (settings.directory.join name) =
        .error .notFound := by
      obtain ⟨e, herror⟩ := hdrift.find_notFound htree hp haway hfind
      rcases find_of_acquire hopen' with ⟨loc, content, mode, hfile⟩ | hnone
      · exact absurd (herror.symm.trans hfile) (by simp)
      · exact hnone
    have hplace : r'.tree.place (settings.directory.join name) =
        r.tree.place (settings.directory.join name) :=
          place_congr hdrift.dirs.working _
    have hmarked' := marked_of_notFound hdry htree'
      (hdrift.dirs.straight hp) hfind'
      (by rw [hpatch]) hfine'
    rw [hplace] at hmarked'
    refine ⟨_, _, _, ?_, path_reported _ _, rfl,
      marked_of_notFound hdry htree hp hfind rfl hfine, hmarked'⟩
    simp [sites]

end Run

end UnifiedPatch
