import UnifiedPatch.Proofs.SectionContract

/-!
# What a section cannot do to the next one

A section that goes well changes what stands at its target and at the backup of
it, and it may make the directories above its target. Nothing else: that is a
relation between the tree before and the tree after (`Drift`), and it adds up
over sections.

Whether a later section sees of this is a question of where its path leads.
Its own place has to be apart from the places changed, neither one of them
nor above nor beneath one. Then it finds what it would have found in the
first tree, with one exception that makes no difference: a path at which
nothing was found may fail otherwise, in a directory that an earlier section
has made (`find_notFound`).

A path that goes up through a directory that is not there is beyond all this. It
leads nowhere until a section makes that directory, and then to a file that has
been there all the time. So paths are asked to go up only through directories
that are there (`Straight`).
-/

namespace UnifiedPatch

/-- Neither location is the other one or lies beneath it. -/
def Location.Apart (a b : Location) : Prop := ¬ a <:+ b ∧ ¬ b <:+ a

instance (a b : Location) : Decidable (a.Apart b) :=
  inferInstanceAs (Decidable (_ ∧ _))

/-- The path up to the last `..` in it, or where it hangs if there is none. -/
def Path.ascent (p : Path) : Path :=
  { p with
    segments :=
      (p.segments.reverse.dropWhile fun seg => seg != dotDot).reverse }

theorem Path.exists_ascent (p : Path) :
    ∃ back, p.segments = p.ascent.segments ++ back ∧ dotDot ∉ back := by
  refine ⟨(p.segments.reverse.takeWhile fun seg => seg != dotDot).reverse, ?_,
    ?_⟩
  · rw [ascent, ← List.reverse_append, List.takeWhile_append_dropWhile,
      List.reverse_reverse]
  · intro h
    have hlast := List.all_eq_true.1 List.all_takeWhile _ (List.mem_reverse.1 h)
    simp at hlast

namespace FileTree

variable {t t' t'' : FileTree} {dir loc goal : Location}
  {front back : List Bytes} {p : Path} {node : Node}
  {sites sites' : List Location} {e : Fault}

/-! ## Walks in two parts -/

theorem walk_append (h : t.walk loc front = .ok dir)
    (hdir : t.node? dir = some .directory) (back : List Bytes) :
    t.walk loc (front ++ back) = t.walk dir back := by
  induction front generalizing loc with
  | nil =>
      obtain rfl := Except.ok.inj h
      rfl
  | cons seg rest ih =>
      rw [List.cons_append]
      rw [walk] at h ⊢
      split at h
      · next hup =>
          rw [if_pos hup]
          exact ih h
      · next hup =>
          rw [if_neg hup]
          split at h
          · exact absurd h (by simp)
          · next hlimit =>
              rw [if_neg hlimit]
              split at h
              · next hlast =>
                  obtain rfl := List.isEmpty_iff.1 hlast
                  obtain rfl := Except.ok.inj h
                  cases back with
                  | nil => rfl
                  | cons next more => rw [List.nil_append, hdir]; rfl
              · next hlast =>
                  have hmore : ¬ (rest ++ back).isEmpty = true := by
                    rw [List.isEmpty_iff] at hlast ⊢
                    exact fun h => hlast (List.append_eq_nil_iff.1 h).1
                  rw [if_neg hmore]
                  split at h
                  · exact absurd h (by simp)
                  · next hnode => exact ih h
                  · exact absurd h (by simp)

theorem descend_append (dir : Location) (front back : List Bytes) :
    descend dir (front ++ back) = descend (descend dir front) back := by
  induction front generalizing dir with
  | nil => rfl
  | cons seg rest ih =>
      rw [List.cons_append, descend, descend]
      split
      · exact ih _
      · exact ih _

/-- Without `..` the segments are the names on the way down. -/
theorem descend_eq_reverse (hback : Path.dotDot ∉ back) (dir : Location) :
    descend dir back = back.reverse ++ dir := by
  induction back generalizing dir with
  | nil => rfl
  | cons seg rest ih =>
      obtain ⟨hseg, hrest⟩ := List.ne_and_not_mem_of_not_mem_cons hback
      rw [descend, if_neg (Ne.symm hseg), ih hrest, List.reverse_cons,
        List.append_assoc]
      rfl

/-- What is no directory has the last name of the path that leads to it, and the
path with a suffix leads, if anywhere, to the location with it. -/
theorem WellFormed.place_withSuffix (htree : t.WellFormed)
    (h : t.locate p = .ok loc) (hnode : t.node? loc ≠ some .directory)
    {suffix : Bytes} (hsuffix : 2 < suffix.length) :
    p.segments.getLast? = loc.head? ∧
      t.place (p.withSuffix suffix) = loc.withSuffix suffix ∧
      loc.withSuffix suffix ≠ loc := by
  unfold locate at h
  split at h
  · exact absurd h (by simp)
  · obtain ⟨front, last, above, hsegs, hlast, rfl, -⟩ :=
      (htree.walk_cases (htree.node?_anchorLocation _) h).resolve_left hnode
    have hfront : descend (descend (t.anchorLocation p.anchor) front) [last] =
        last :: above := by
      rw [← descend_append, ← hsegs]
      exact descend_of_walk h
    rw [descend, if_neg hlast] at hfront
    obtain ⟨-, habove⟩ := List.cons.inj hfront
    have hother := Path.append_ne_dotDot hsuffix last
    refine ⟨?_, ?_, Location.withSuffix_ne
      (List.ne_nil_of_length_pos (by omega)) _ _⟩
    · rw [hsegs, List.getLast?_concat]
      rfl
    · rw [place, Path.withSuffix, hsegs, List.getLast?_concat,
        List.dropLast_concat]
      simp only []
      rw [descend_append, descend, if_neg hother, habove]
      rfl

/-- What is beneath nothing is nothing. -/
theorem WellFormed.node?_eq_none (htree : t.WellFormed) (h : t.node? dir = none)
    (hbelow : dir <:+ loc) : t.node? loc = none := by
  induction loc with
  | nil => rwa [← List.suffix_nil.1 hbelow]
  | cons name above ih =>
      rcases List.suffix_cons_iff.1 hbelow with rfl | hmore
      · exact h
      · cases hnode : t.node? (name :: above) with
        | none => rfl
        | some node =>
            have habove := htree.above _ (mem_of_node? hnode) (by simp)
            exact absurd (habove.symm.trans (ih hmore)) (by simp)

/-- A walk that misses a directory leads to where nothing is. -/
theorem WellFormed.node?_of_walk (htree : t.WellFormed)
    (hback : Path.dotDot ∉ back) (h : t.walk dir back = .error .notFound) :
    t.node? (descend dir back) = none := by
  induction back generalizing dir with
  | nil => exact absurd h (by simp [walk])
  | cons seg rest ih =>
      obtain ⟨hseg, hrest⟩ := List.ne_and_not_mem_of_not_mem_cons hback
      rw [descend, if_neg (Ne.symm hseg)]
      rw [walk, if_neg (Ne.symm hseg)] at h
      split at h
      · exact absurd h (by simp)
      · split at h
        · exact absurd h (by simp)
        · split at h
          · next hnone =>
              refine htree.node?_eq_none hnone ?_
              rw [descend_eq_reverse hrest]
              exact List.suffix_append _ _
          · exact ih hrest h
          · exact absurd h (by simp)

/-! ## Paths that go up through what is there -/

/-- The segments of a path up to its last `..` lead to a directory. -/
def Straight (t : FileTree) (p : Path) : Prop :=
  ∃ front back dir, p.segments = front ++ back ∧ Path.dotDot ∉ back ∧
    t.walk (t.anchorLocation p.anchor) front = .ok dir ∧
    t.node? dir = some .directory

theorem place_eq_descend (hsegs : p.segments = front ++ back)
    (hfront : t.walk (t.anchorLocation p.anchor) front = .ok dir) :
    t.place p = descend dir back := by
  rw [place, hsegs, descend_append, descend_of_walk hfront]

/-- Such a path leads to a directory that is there, or its parent is such a path
too and its place is a name in that one's. -/
theorem Straight.cases (hp : t.Straight p) :
    (t.walk (t.anchorLocation p.anchor) p.segments = .ok (t.place p) ∧
        t.node? (t.place p) = some .directory) ∨
      t.Straight p.parent ∧ ∃ last, t.place p = last :: t.place p.parent := by
  obtain ⟨front, back, dir, hsegs, hback, hfront, hdir⟩ := hp
  rcases List.eq_nil_or_concat back with rfl | ⟨more, last, hconcat⟩
  · rw [place_eq_descend hsegs hfront, hsegs, List.append_nil]
    exact .inl ⟨hfront, hdir⟩
  · rw [List.concat_eq_append] at hconcat
    subst hconcat
    have hparent : p.parent.segments = front ++ more := by
      rw [Path.parent, hsegs, ← List.append_assoc, List.dropLast_concat]
    have hlast : last ≠ Path.dotDot := by
      rintro rfl
      exact hback (by simp)
    refine .inr ⟨⟨front, more, dir, hparent, fun h => hback (by simp [h]),
      hfront, hdir⟩, ?_⟩
    rw [place_eq_descend hsegs hfront, place_eq_descend hparent hfront,
      descend_append, descend, if_neg hlast]
    exact ⟨last, rfl⟩

theorem DirectoriesIn.straight (hdirs : t.DirectoriesIn t')
    (hp : t.Straight p) :
    t'.Straight p := by
  obtain ⟨front, back, dir, hsegs, hback, hfront, hdir⟩ := hp
  refine ⟨front, back, dir, hsegs, hback, ?_, hdirs.kept dir hdir⟩
  rw [hdirs.anchorLocation]
  exact hdirs.walk hfront

theorem isDirectory_iff :
    t.isDirectory p = true ↔ ∃ loc, t.find p = .ok (loc, .directory) := by
  unfold isDirectory
  constructor
  · intro h
    split at h
    · next loc hfind => exact ⟨loc, hfind⟩
    · exact absurd h (by simp)
  · rintro ⟨loc, hfind⟩
    rw [hfind]

/-- Where such a path finds nothing there is nothing. -/
theorem WellFormed.node?_place_of_notFound (htree : t.WellFormed)
    (hp : t.Straight p) (hfind : t.find p = .error .notFound) :
    t.node? (t.place p) = none := by
  obtain ⟨front, back, dir, hsegs, hback, hfront, hdir⟩ := hp
  unfold FileTree.find at hfind
  split at hfind
  · next hlocate =>
      obtain rfl := Except.error.inj hfind
      unfold locate at hlocate
      split at hlocate
      · exact absurd hlocate (by simp)
      · rw [hsegs, walk_append hfront hdir] at hlocate
        rw [place_eq_descend hsegs hfront]
        exact htree.node?_of_walk hback hlocate
  · next hlocate =>
      rw [place_of_locate hlocate]
      split at hfind
      · assumption
      · exact absurd hfind (by simp)

/-- A path whose own `..` go up from a directory is such a path. -/
theorem WellFormed.straight (htree : t.WellFormed)
    (h : Path.dotDot ∈ p.segments → t.isDirectory p.ascent = true) :
    t.Straight p := by
  by_cases hup : Path.dotDot ∈ p.segments
  · obtain ⟨back, hsegs, hback⟩ := p.exists_ascent
    obtain ⟨dir, hfind⟩ := isDirectory_iff.1 (h hup)
    obtain ⟨hlocate, hdir⟩ := find_eq_ok_iff.1 hfind
    unfold locate at hlocate
    split at hlocate
    · exact absurd hlocate (by simp)
    · exact ⟨p.ascent.segments, back, dir, hsegs, hback, hlocate, hdir⟩
  · exact ⟨[], p.segments, _, rfl, hup, rfl, htree.node?_anchorLocation _⟩

/-- The trees differ at `sites` and by directories made above them. -/
structure Drift (t t' : FileTree) (sites : List Location) : Prop where
  dirs : t.DirectoriesIn t'
  node? : ∀ loc, loc ∉ sites → t'.node? loc = t.node? loc ∨
    t.node? loc = none ∧ t'.node? loc = some .directory ∧
    ∃ site ∈ sites, loc <:+ site

namespace Drift

theorem refl (t : FileTree) (sites : List Location) : t.Drift t sites :=
  ⟨⟨rfl, fun _ => id⟩, fun _ _ => .inl rfl⟩

theorem mono (h : t.Drift t' sites) (hsub : sites ⊆ sites') :
    t.Drift t' sites' := by
  refine ⟨h.dirs, fun loc hloc => ?_⟩
  refine (h.node? loc fun hmem => hloc (hsub hmem)).imp_right
    fun ⟨hnone, hdir, site, hsite, hle⟩ =>
    ⟨hnone, hdir, site, hsub hsite, hle⟩

theorem trans (h : t.Drift t' sites) (h' : t'.Drift t'' sites) :
    t.Drift t'' sites := by
  refine ⟨h.dirs.trans h'.dirs, fun loc hloc => ?_⟩
  rcases h.node? loc hloc with h₁ | ⟨h₁, h₂, hsite⟩
  · rw [← h₁]
    exact h'.node? loc hloc
  · rcases h'.node? loc hloc with h₃ | ⟨h₃, -, -⟩
    · exact .inr ⟨h₁, h₃.trans h₂, hsite⟩
    · exact absurd (h₂.symm.trans h₃) (by simp)

/-- A tree that differs at one location, which is no directory of it. -/
theorem of_ne (hworking : t'.working = t.working)
    (hloc : t.node? loc ≠ some .directory)
    (helse : ∀ other, other ≠ loc → t'.node? other = t.node? other) :
    t.Drift t' [loc] := by
  refine ⟨⟨hworking, fun other hother => ?_⟩,
    fun other hother => .inl (helse other ?_)⟩
  · rw [helse other]
    · exact hother
    · rintro rfl
      exact hloc hother
  · simpa using hother

/-! ### What is found after a drift -/

theorem not_mem_of_apart {other : Location}
    (haway : ∀ site ∈ sites, site.Apart loc) (hle : other <:+ loc) :
    other ∉ sites :=
  fun hmem => (haway other hmem).1 hle

theorem find_ok (h : t.Drift t' sites)
    (haway : ∀ site ∈ sites, site.Apart (t.place p))
    (hfind : t.find p = .ok (loc, node)) : t'.find p = .ok (loc, node) := by
  obtain ⟨hlocate, hnode⟩ := find_eq_ok_iff.1 hfind
  rw [place_of_locate hlocate] at haway
  refine find_eq_ok_iff.2 ⟨h.dirs.locate hlocate, ?_⟩
  rcases h.node? loc (not_mem_of_apart haway (List.suffix_refl _)) with
    heq | ⟨hnone, -⟩
  · rw [heq, hnode]
  · exact absurd (hnode.symm.trans hnone) (by simp)

theorem walk_error (h : t.Drift t' sites) (hback : Path.dotDot ∉ back)
    (haway : ∀ other, other <:+ descend dir back → other ∉ sites)
    (hne : e ≠ .notFound) (hwalk : t.walk dir back = .error e) :
    t'.walk dir back = .error e := by
  induction back generalizing dir with
  | nil => exact absurd hwalk (by simp [walk])
  | cons seg rest ih =>
      obtain ⟨hseg, hrest⟩ := List.ne_and_not_mem_of_not_mem_cons hback
      rw [descend, if_neg (Ne.symm hseg)] at haway
      rw [walk, if_neg (Ne.symm hseg)] at hwalk ⊢
      split at hwalk
      · next hlimit =>
          rw [if_pos hlimit]
          exact hwalk
      · next hlimit =>
          rw [if_neg hlimit]
          split at hwalk
          · exact absurd hwalk (by simp)
          · next hlast =>
              rw [if_neg hlast]
              split at hwalk
              · exact absurd (Except.error.inj hwalk).symm hne
              · next hnode =>
                  rw [h.dirs.kept _ hnode]
                  exact ih hrest haway hwalk
              · next found hdir hnode =>
                  have hsite : seg :: dir ∉ sites := by
                    refine haway _ ?_
                    rw [descend_eq_reverse hrest]
                    exact List.suffix_append _ _
                  rcases h.node? _ hsite with heq | ⟨hnone, -⟩
                  · rw [heq, hnode]
                    cases found with
                    | directory => exact absurd rfl hdir
                    | file content mode => exact hwalk
                    | device => exact hwalk
                  · exact absurd (hnode.symm.trans hnone) (by simp)

theorem find_error (h : t.Drift t' sites) (hp : t.Straight p)
    (haway : ∀ site ∈ sites, site.Apart (t.place p)) (hne : e ≠ .notFound)
    (hfind : t.find p = .error e) : t'.find p = .error e := by
  obtain ⟨front, back, dir, hsegs, hback, hfront, hdir⟩ := hp
  rw [place_eq_descend hsegs hfront] at haway
  unfold FileTree.find at hfind ⊢
  unfold locate at hfind ⊢
  split at hfind
  · next e' hlocate =>
      obtain rfl := Except.error.inj hfind
      split at hlocate
      · next hlimit =>
          rw [if_pos hlimit, hlocate]
      · next hlimit =>
          rw [hsegs, walk_append hfront hdir] at hlocate
          rw [if_neg hlimit, hsegs, h.dirs.anchorLocation,
            walk_append (h.dirs.walk hfront) (h.dirs.kept _ hdir),
            h.walk_error hback (fun _ => not_mem_of_apart haway) hne hlocate]
  · split at hfind
    · exact absurd (Except.error.inj hfind).symm hne
    · exact absurd hfind (by simp)

/-- Where nothing was found nothing is found, though perhaps for
another reason. -/
theorem find_notFound (h : t.Drift t' sites) (htree : t.WellFormed)
    (hp : t.Straight p) (haway : ∀ site ∈ sites, site.Apart (t.place p))
    (hfind : t.find p = .error .notFound) : ∃ e, t'.find p = .error e := by
  have hnone := htree.node?_place_of_notFound hp hfind
  cases hfound : t'.find p with
  | error e => exact ⟨e, rfl⟩
  | ok found =>
      have hnode := (find_eq_ok_iff.1 hfound).2
      rw [← place_of_find hfound, place_congr h.dirs.working] at hnode
      rcases h.node? _ (not_mem_of_apart haway (List.suffix_refl _)) with
        heq | ⟨-, -, site, hsite, hle⟩
      · rw [heq, hnone] at hnode
        exact absurd hnode (by simp)
      · exact absurd hle (haway site hsite).2

end Drift

/-! ## Operations -/

theorem drift_makeDirectory (hgoal : t.place p <:+ goal)
    (h : t.makeDirectory p = .ok t') :
    t.Drift t' [goal] := by
  unfold makeDirectory at h
  split at h
  · exact absurd h (by simp)
  · next loc hlocate =>
      split at h
      · exact absurd h (by simp)
      · next hnone =>
          obtain rfl := Except.ok.inj h
          rw [place_of_locate hlocate] at hgoal
          refine ⟨directoriesIn_put (by rw [hnone]; simp) _, fun other _ => ?_⟩
          rw [node?_put]
          by_cases heq : other = loc
          · subst heq
            exact .inr ⟨hnone, if_pos rfl, goal,
              List.mem_singleton_self goal, hgoal⟩
          · exact .inl (if_neg heq)

theorem Straight.parent_of_find (hp : t.Straight p)
    (h : t.find p = .error .notFound) :
    t.Straight p.parent ∧ ∃ last, t.place p = last :: t.place p.parent := by
  refine hp.cases.resolve_left fun ⟨hwalk, hdir⟩ => ?_
  unfold find locate at h
  rw [hwalk] at h
  split at h
  · next hlocate => split at hlocate <;> simp_all
  · next hlocate =>
      split at hlocate
      · exact absurd hlocate (by simp)
      · obtain rfl := Except.ok.inj hlocate
        rw [hdir] at h
        exact absurd h (by simp)

theorem find_of_makeDirectory (h : t.makeDirectory p = .error .notFound) :
    t.find p = .error .notFound := by
  unfold makeDirectory at h
  unfold find
  split at h
  · exact congrArg Except.error (Except.error.inj h)
  · split at h
    · exact absurd h (by simp)
    · exact absurd h (by simp)

/-- Directories are made on the way down only. -/
theorem drift_makeDirectories (hp : t.Straight p) (hgoal : t.place p <:+ goal) :
    t.Drift (t.makeDirectories p).1 [goal] := by
  fun_induction makeDirectories t p with
  | case1 p t' h => exact drift_makeDirectory hgoal h
  | case2 => exact .refl _ _
  | case3 p h hne t' e hparent ih =>
      obtain ⟨hstraight, last, hlast⟩ :=
        hp.parent_of_find (find_of_makeDirectory h)
      have hmade := ih hstraight ((hlast ▸ List.suffix_cons _ _).trans hgoal)
      rw [hparent] at hmade
      exact hmade
  | case4 p h hne t' hparent t'' hmake ih =>
      obtain ⟨hstraight, last, hlast⟩ :=
        hp.parent_of_find (find_of_makeDirectory h)
      have hmade := ih hstraight ((hlast ▸ List.suffix_cons _ _).trans hgoal)
      rw [hparent] at hmade
      refine hmade.trans (drift_makeDirectory ?_ hmake)
      rw [place_congr hmade.dirs.working]
      exact hgoal
  | case5 p h hne t' hparent e hmake ih =>
      obtain ⟨hstraight, last, hlast⟩ :=
        hp.parent_of_find (find_of_makeDirectory h)
      have hmade := ih hstraight ((hlast ▸ List.suffix_cons _ _).trans hgoal)
      rw [hparent] at hmade
      exact hmade
  | case6 => exact .refl _ _

theorem drift_create {mode : Nat} (h : t.create p mode = .ok (t', loc)) :
    t.Drift t' [t.place p] := by
  obtain ⟨hlocate, hworking, helse⟩ := create_eq_ok h
  rw [place_of_locate hlocate]
  exact .of_ne hworking (create_cases h).2.1 helse

theorem drift_fill (t : FileTree) (loc : Location) (output : Bytes) :
    t.Drift (t.fill loc output) [loc] := by
  unfold fill
  split
  · next hnode =>
      exact .of_ne rfl (by rw [hnode]; simp) fun other hother => by
        rw [node?_put, if_neg hother]
  · exact .refl _ _

theorem drift_moved {aside : Location} {content : Bytes} {mode : Nat}
    (hloc : t.node? loc = some (.file content mode))
    (hfree : t.node? aside ≠ some .directory) :
    t.Drift (t.moved loc aside content mode) [loc, aside] := by
  refine ⟨directoriesIn_moved (by rw [hloc]; simp) hfree content mode,
    fun other hother => .inl ?_⟩
  simp only [List.mem_cons, List.not_mem_nil, or_false, not_or] at hother
  rw [node?_moved, if_neg hother.1, if_neg hother.2]

theorem drift_unlink (h : t.unlink p = .ok t') : t.Drift t' [t.place p] := by
  obtain rfl := eq_remove_of_unlink h
  refine .of_ne rfl ?_ fun other hother => by rw [node?_remove, if_neg hother]
  intro hdir
  unfold unlink at h
  split at h
  · exact absurd h (by simp)
  · exact absurd h (by simp)
  · next found hnot hfind =>
      obtain ⟨hlocate, hnode⟩ := find_eq_ok_iff.1 hfind
      rw [place_of_locate hlocate] at hdir
      exact hnot (Option.some.inj (hnode.symm.trans hdir))

end FileTree

/-! ## Sections -/

namespace Target

open FileTree

variable {settings : Settings} {name : Bytes} {path : Path} {tree : FileTree}

/-- Where a section can change something that stands there: at its target and at
the backup of it. -/
def sites (settings : Settings) (tree : FileTree) (name : Bytes) :
    List Location :=
  [tree.place (settings.directory.join name),
   tree.place ((settings.directory.join name).withSuffix backupEnding)]

theorem drift_openNew {o : OpenTarget} (hdry : settings.dryRun = false)
    (hp : tree.Straight path) (hfind : tree.find path = .error .notFound)
    (h : (openNew settings name path tree).result = .ok o) :
    tree.Drift (openNew settings name path tree).tree [tree.place path] ∧
      o.sink = some (tree.place path) := by
  obtain ⟨hstraight, last, hlast⟩ := hp.parent_of_find hfind
  have hmade := drift_makeDirectories hstraight
    (show tree.place path.parent <:+ tree.place path from
      hlast ▸ List.suffix_cons _ _)
  unfold openNew at h ⊢
  simp only [hdry, Bool.false_eq_true, if_false] at h ⊢
  split at h
  · exact absurd h (by simp)
  · next made hparents =>
      rw [hparents] at hmade
      split at h
      · exact absurd h (by simp)
      · next created loc hcreate =>
          obtain rfl := Except.ok.inj h
          have hdrift := drift_create hcreate
          rw [place_congr hmade.dirs.working] at hdrift
          refine ⟨hmade.trans hdrift, ?_⟩
          rw [← place_congr hmade.dirs.working,
            place_of_locate (create_eq_ok hcreate).1]

/-- What opening a target does to the tree, and where the output goes. -/
theorem drift_acquire {o : OpenTarget} (hdry : settings.dryRun = false)
    (hp : tree.Straight (settings.directory.join name))
    (h : (acquire settings name tree).result = .ok o) :
    tree.Drift (acquire settings name tree).tree (sites settings tree name) ∧
      o.sink = some (tree.place (settings.directory.join name)) := by
  have hnull := (acquired_of_ok hdry h).1
  unfold acquire at h ⊢
  simp only [hnull, Bool.false_eq_true, if_false] at h ⊢
  split at h
  · next hfind =>
      obtain ⟨hdrift, hsink⟩ := drift_openNew hdry hp hfind h
      exact ⟨hdrift.mono (by simp [sites]), hsink⟩
  · exact absurd h (by simp)
  · exact absurd h (by simp)
  · exact absurd h (by simp)
  · next loc content mode hfind =>
      obtain ⟨hlocate, hnode⟩ := find_eq_ok_iff.1 hfind
      rcases openExisting_cases name hdry hfind with
        ⟨e, heq⟩ | ⟨aside, haside, hfree, heq⟩
      · rw [heq] at h
        exact absurd h (by simp)
      · rw [heq] at h ⊢
        obtain rfl := Except.ok.inj h
        refine ⟨?_, congrArg some (place_of_locate hlocate).symm⟩
        rw [sites, place_of_locate hlocate, place_of_locate haside]
        exact drift_moved hnode hfree

theorem drift_discard {tree' : FileTree} (h : discard path tree = .ok tree') :
    tree.Drift tree' [tree.place path] := by
  unfold discard at h
  split at h
  · exact absurd h (by simp)
  · cases hunlink : tree.unlink path with
    | error e =>
        rw [hunlink] at h
        nomatch h
    | ok gone =>
        rw [hunlink] at h
        obtain rfl := Except.ok.inj h
        exact drift_unlink hunlink

/-- Settling takes files away at these two locations. -/
theorem drift_settle (settings : Settings) (target : Target)
    (result : FileResult) (tree : FileTree) :
    tree.Drift (target.settle settings result tree).tree
      (tree.place target.path :: target.backup.toList.map tree.place) := by
  have hdropped : tree.Drift (target.dropBackup result tree).tree
      (tree.place target.path :: target.backup.toList.map tree.place) := by
    unfold dropBackup
    split
    · exact .refl _ _
    · next backup hbackup =>
        split
        · next hdiscard =>
            exact (drift_discard hdiscard).mono (by simp [hbackup])
        · exact .refl _ _
        · exact .refl _ _
  unfold settle
  split
  · exact .refl _ _
  · simp only []
    split
    · exact hdropped
    · unfold dropEmpty
      split
      · exact hdropped
      · split
        · exact hdropped
        · next hdiscard =>
            have hdrift := drift_discard hdiscard
            rw [place_congr hdropped.dirs.working] at hdrift
            exact hdropped.trans (hdrift.mono (by simp))

end Target

namespace Run

open FileTree Target

/-- A section that goes well makes a tree drift at its own two locations. -/
theorem drift_applySection {settings : Settings} {name : Bytes} {r : Run}
    (hdry : settings.dryRun = false)
    (hp : r.tree.Straight (settings.directory.join name))
    (hfine : (r.applySection settings name).failure? = none) :
    r.tree.Drift (r.applySection settings name).tree
      (sites settings r.tree name) := by
  obtain ⟨o, hopen⟩ := exists_open_of_fine hfine
  obtain ⟨hopened, hsink⟩ := drift_acquire hdry hp hopen
  obtain ⟨-, -, hafter, -, -⟩ := settled_of_fine hopen rfl rfl hfine
  rw [hafter]
  have hclosed : r.tree.Drift (o.close
      ((Splice.start r.patch o.source).run settings name).output
      (acquire settings name r.tree).tree) (sites settings r.tree name) := by
    rw [OpenTarget.close, hsink]
    exact hopened.trans ((drift_fill _ _ _).mono (by simp [sites]))
  refine hclosed.trans ((drift_settle settings o.target _ _).mono ?_)
  intro loc hloc
  rw [path_acquire hopen, place_congr hclosed.dirs.working] at hloc
  rcases List.mem_cons.1 hloc with rfl | hloc
  · simp [sites]
  · obtain ⟨backup, hmem, rfl⟩ := List.mem_map.1 hloc
    rw [backup_acquire hopen backup (by simpa using hmem),
      place_congr hclosed.dirs.working]
    simp [sites]

end Run

end UnifiedPatch
