import UnifiedPatch.FileTree

/-!
# Where paths lead, and what keeps them leading there

A path that can be followed leads to a place that its text alone determines:
segments go down, `..` goes up (`place`). What stands on the way decides only
whether it can be followed, and there only directories matter. So a path leads
to the same location as long as no directory goes away, and a section, which
moves, makes and removes files, never loses sight of its target or its backup.

Two facts need a tree that is one: that a path at which a file stands ends in a
name, and that its bytes are fit for a name. They rest on what every tree has,
a directory above each entry (`WellFormed`).
-/

namespace UnifiedPatch

/-- The location whose name is followed by `suffix`. -/
def Location.withSuffix (suffix : Bytes) : Location → Location
  | [] => []
  | name :: above => (name ++ suffix) :: above

theorem Location.withSuffix_ne {suffix : Bytes} (hsuffix : suffix ≠ [])
    (name : Bytes) (above : Location) :
    withSuffix suffix (name :: above) ≠ name :: above := by
  simp [withSuffix, hsuffix]

theorem Path.append_ne_dotDot {suffix : Bytes} (hsuffix : 2 < suffix.length)
    (name : Bytes) :
    name ++ suffix ≠ dotDot := by
  intro heq
  have hlength := congrArg List.length heq
  rw [List.length_append, show dotDot.length = 2 from rfl] at hlength
  omega

theorem Path.hasNull_withSuffix {p : Path} {suffix : Bytes}
    (h : p.hasNull = false) (hsuffix : (0 : UInt8) ∉ suffix) :
    (p.withSuffix suffix).hasNull = false := by
  unfold withSuffix
  split
  · exact h
  · next last hlast =>
      obtain ⟨front, hsegs⟩ := List.getLast?_eq_some_iff.1 hlast
      unfold hasNull at h ⊢
      rw [hsegs] at h ⊢
      rw [List.dropLast_concat]
      simp_all

namespace FileTree

/-! ## The place of a path -/

/-- Where segments lead from a directory, whatever stands on the way. -/
def descend (dir : Location) : List Bytes → Location
  | [] => dir
  | seg :: rest =>
      if seg = Path.dotDot then descend dir.tail rest
      else descend (seg :: dir) rest

/-- Where a path leads, if it can be followed. -/
def place (t : FileTree) (p : Path) : Location :=
  descend (t.anchorLocation p.anchor) p.segments

variable {t t' : FileTree} {dir loc : Location} {segs : List Bytes} {p : Path}
  {node : Node}

/-- Only the working directory of a tree matters for where a path leads. -/
theorem place_congr (h : t'.working = t.working) (p : Path) :
    t'.place p = t.place p := by
  unfold place anchorLocation
  rw [h]

theorem descend_of_walk (h : t.walk dir segs = .ok loc) :
    descend dir segs = loc := by
  induction segs generalizing dir with
  | nil => exact Except.ok.inj h
  | cons seg rest ih =>
      unfold walk at h
      unfold descend
      split at h
      · next hup =>
          rw [if_pos hup]
          exact ih h
      · next hup =>
          rw [if_neg hup]
          split at h
          · exact absurd h (by simp)
          · split at h
            · next hlast =>
                obtain rfl := List.isEmpty_iff.1 hlast
                exact Except.ok.inj h
            · split at h
              · exact absurd h (by simp)
              · exact ih h
              · exact absurd h (by simp)

theorem place_of_locate (h : t.locate p = .ok loc) : t.place p = loc := by
  unfold locate at h
  split at h
  · exact absurd h (by simp)
  · exact descend_of_walk h

theorem find_eq_ok_iff :
    t.find p = .ok (loc, node) ↔
      t.locate p = .ok loc ∧ t.node? loc = some node := by
  unfold find
  cases t.locate p with
  | error e => simp
  | ok goal =>
      simp only [Except.ok.injEq]
      cases hnode : t.node? goal with
      | none =>
          refine ⟨fun h => absurd h (by simp), ?_⟩
          rintro ⟨rfl, hn⟩
          exact absurd (hnode.symm.trans hn) (by simp)
      | some found =>
          simp only [Except.ok.injEq, Prod.mk.injEq]
          constructor
          · rintro ⟨rfl, rfl⟩
            exact ⟨rfl, hnode⟩
          · rintro ⟨rfl, hn⟩
            exact ⟨rfl, Option.some.inj (hnode.symm.trans hn)⟩

theorem place_of_find (h : t.find p = .ok (loc, node)) : t.place p = loc :=
  place_of_locate (find_eq_ok_iff.1 h).1

/-! ## Trees that keep their directories -/

/-- Every directory of `t` is one of `t'`. -/
structure DirectoriesIn (t t' : FileTree) : Prop where
  working : t'.working = t.working
  kept : ∀ loc, t.node? loc = some .directory → t'.node? loc = some .directory

theorem DirectoriesIn.trans {t'' : FileTree} (h : t.DirectoriesIn t')
    (h' : t'.DirectoriesIn t'') : t.DirectoriesIn t'' :=
  ⟨h'.working.trans h.working, fun loc hloc => h'.kept loc (h.kept loc hloc)⟩

theorem directoriesIn_put (h : t.node? loc ≠ some .directory) (node : Node) :
    t.DirectoriesIn (t.put loc node) := by
  refine ⟨rfl, fun other hother => ?_⟩
  rw [node?_put, if_neg]
  · exact hother
  · rintro rfl
    exact h hother

theorem directoriesIn_remove (h : t.node? loc ≠ some .directory) :
    t.DirectoriesIn (t.remove loc) := by
  refine ⟨rfl, fun other hother => ?_⟩
  rw [node?_remove, if_neg]
  · exact hother
  · rintro rfl
    exact h hother

theorem DirectoriesIn.walk (hdirs : t.DirectoriesIn t')
    (h : t.walk dir segs = .ok loc) :
    t'.walk dir segs = .ok loc := by
  induction segs generalizing dir with
  | nil => exact h
  | cons seg rest ih =>
      unfold FileTree.walk at h ⊢
      split at h
      · next hup =>
          rw [if_pos hup]
          exact ih h
      · next hup =>
          rw [if_neg hup]
          split at h
          · exact absurd h (by simp)
          · next hlimit =>
              rw [if_neg hlimit]
              split at h
              · next hlast =>
                  rw [if_pos hlast]
                  exact h
              · next hlast =>
                  rw [if_neg hlast]
                  split at h
                  · exact absurd h (by simp)
                  · next hnode =>
                      rw [hdirs.kept _ hnode]
                      exact ih h
                  · exact absurd h (by simp)

theorem DirectoriesIn.anchorLocation (hdirs : t.DirectoriesIn t') (a : Anchor) :
    t'.anchorLocation a = t.anchorLocation a := by
  cases a with
  | working => exact hdirs.working
  | root => rfl
  | doubleRoot => rfl

theorem DirectoriesIn.locate (hdirs : t.DirectoriesIn t')
    (h : t.locate p = .ok loc) :
    t'.locate p = .ok loc := by
  unfold FileTree.locate at h ⊢
  split at h
  · exact absurd h (by simp)
  · next hlimit =>
      rw [if_neg hlimit, hdirs.anchorLocation]
      exact hdirs.walk h

/-- The file at a location that a path leads to is found by that path. -/
theorem DirectoriesIn.find (hdirs : t.DirectoriesIn t')
    (h : t.locate p = .ok loc) (hnode : t'.node? loc = some node) :
    t'.find p = .ok (loc, node) :=
  find_eq_ok_iff.2 ⟨hdirs.locate h, hnode⟩

/-! ## Trees with a directory above each entry -/

/-- Every entry stands in a directory, under a name without zero bytes, and the
working directory is one. -/
structure WellFormed (t : FileTree) : Prop where
  working : t.node? t.working = some .directory
  above : ∀ e ∈ t.entries, e.1 ≠ [] → t.node? e.1.tail = some .directory
  names : ∀ e ∈ t.entries, ∀ name ∈ e.1.head?, (0 : UInt8) ∉ name

instance (t : FileTree) : Decidable t.WellFormed :=
  decidable_of_iff (t.node? t.working = some .directory ∧
      (∀ e ∈ t.entries, e.1 ≠ [] → t.node? e.1.tail = some .directory) ∧
      ∀ e ∈ t.entries, ∀ name ∈ e.1.head?, (0 : UInt8) ∉ name)
    ⟨fun ⟨h₁, h₂, h₃⟩ => ⟨h₁, h₂, h₃⟩, fun ⟨h₁, h₂, h₃⟩ => ⟨h₁, h₂, h₃⟩⟩

theorem mem_of_node? (h : t.node? loc = some node) :
    (loc, node) ∈ t.entries := by
  unfold node? at h
  obtain ⟨before, after, hsplit, -⟩ := List.lookup_eq_some_iff.1 h
  rw [hsplit]
  simp

theorem WellFormed.node?_tail (htree : t.WellFormed)
    (h : t.node? loc = some .directory) :
    t.node? loc.tail = some .directory := by
  cases loc with
  | nil => exact h
  | cons name above => exact htree.above _ (mem_of_node? h) (by simp)

theorem WellFormed.node?_root (htree : t.WellFormed) :
    t.node? [] = some .directory := by
  have hup : ∀ loc, t.node? loc = some .directory →
      t.node? [] = some .directory := by
    intro loc
    induction loc with
    | nil => exact id
    | cons name above ih => exact fun h => ih (htree.node?_tail h)
  exact hup _ htree.working

theorem WellFormed.node?_anchorLocation (htree : t.WellFormed) (a : Anchor) :
    t.node? (t.anchorLocation a) = some .directory := by
  cases a with
  | working => exact htree.working
  | root => exact htree.node?_root
  | doubleRoot => exact htree.node?_root

/-- What is no directory is led to by a name, and another name in place of that
one leads to a neighbour. -/
theorem WellFormed.walk_cases (htree : t.WellFormed)
    (hdir : t.node? dir = some .directory) (h : t.walk dir segs = .ok loc) :
    t.node? loc = some .directory ∨
      ∃ front last above, segs = front ++ [last] ∧ last ≠ Path.dotDot ∧
        loc = last :: above ∧
        t.node? above = some .directory ∧
        ∀ other : Bytes, other ≠ Path.dotDot → other.length ≤ nameLimit →
          t.walk dir (front ++ [other]) = .ok (other :: above) := by
  induction segs generalizing dir with
  | nil =>
      obtain rfl := Except.ok.inj h
      exact .inl hdir
  | cons seg rest ih =>
      unfold walk at h
      split at h
      · next hup =>
          rcases ih (htree.node?_tail hdir) h with hloc | hname
          · exact .inl hloc
          · obtain ⟨front, last, above, rfl, hlast, hloc, habove, hbeside⟩ :=
              hname
            refine .inr ⟨seg :: front, last, above, rfl, hlast, hloc,
              habove, ?_⟩
            intro other hother hlimit
            rw [List.cons_append, walk, if_pos hup]
            exact hbeside other hother hlimit
      · next hup =>
          split at h
          · exact absurd h (by simp)
          · next hseg =>
              split at h
              · next hempty =>
                  obtain rfl := List.isEmpty_iff.1 hempty
                  obtain rfl := Except.ok.inj h
                  refine .inr ⟨[], seg, dir, rfl, hup, rfl, hdir, ?_⟩
                  intro other hother hlimit
                  rw [List.nil_append, walk, if_neg hother,
                    if_neg (Nat.not_lt.2 hlimit)]
                  rfl
              · split at h
                · exact absurd h (by simp)
                · next hnode =>
                    rcases ih hnode h with hloc | hname
                    · exact .inl hloc
                    · obtain ⟨front, last, above, rfl, hlast, hloc, habove,
                          hbeside⟩ := hname
                      refine .inr ⟨seg :: front, last, above, rfl, hlast, hloc,
                        habove, ?_⟩
                      intro other hother hlimit
                      rw [List.cons_append, walk, if_neg hup, if_neg hseg,
                        if_neg (by simp), hnode]
                      exact hbeside other hother hlimit
                · exact absurd h (by simp)

/-- What is no directory stands in one, under a name of its path. -/
theorem WellFormed.locate_cases (htree : t.WellFormed)
    (h : t.locate p = .ok loc) :
    t.node? loc = some .directory ∨
      ∃ name above, loc = name :: above ∧ name ∈ p.segments ∧
        t.node? above = some .directory := by
  unfold locate at h
  split at h
  · exact absurd h (by simp)
  · rcases htree.walk_cases (htree.node?_anchorLocation _) h with hloc | hname
    · exact .inl hloc
    · obtain ⟨front, last, above, hsegs, -, rfl, habove, -⟩ := hname
      refine .inr ⟨last, above, rfl, ?_, habove⟩
      rw [hsegs]
      simp

theorem WellFormed.zero_not_mem (htree : t.WellFormed)
    (h : t.walk dir segs = .ok loc) (hnode : t.node? loc = some node) :
    ∀ seg ∈ segs, (0 : UInt8) ∉ seg := by
  induction segs generalizing dir with
  | nil => simp
  | cons seg rest ih =>
      intro other hother
      unfold walk at h
      split at h
      · next hup =>
          rcases List.mem_cons.1 hother with rfl | hrest
          · rw [hup]
            decide
          · exact ih h other hrest
      · split at h
        · exact absurd h (by simp)
        · split at h
          · next hempty =>
              obtain rfl := List.isEmpty_iff.1 hempty
              obtain rfl := Except.ok.inj h
              rw [List.mem_singleton.1 hother]
              exact htree.names _ (mem_of_node? hnode) seg rfl
          · split at h
            · exact absurd h (by simp)
            · next hseg =>
                rcases List.mem_cons.1 hother with rfl | hrest
                · exact htree.names _ (mem_of_node? hseg) _ rfl
                · exact ih h other hrest
            · exact absurd h (by simp)

/-! ## Paths of files and of the files beside them -/

theorem WellFormed.hasNull_of_find (htree : t.WellFormed)
    (h : t.find p = .ok (loc, node)) :
    p.hasNull = false := by
  obtain ⟨hloc, hnode⟩ := find_eq_ok_iff.1 h
  unfold locate at hloc
  split at hloc
  · exact absurd hloc (by simp)
  · rw [Path.hasNull, List.any_eq_false]
    intro seg hseg
    simpa using htree.zero_not_mem hloc hnode seg hseg

/-- Beside a file the path with a suffix leads to the location with it, unless
there is too much of the one or the other. -/
theorem WellFormed.locate_withSuffix (htree : t.WellFormed) {content : Bytes}
    {mode : Nat} (h : t.find p = .ok (loc, .file content mode)) {suffix : Bytes}
    (hsuffix : 2 < suffix.length)
    (hname : ∀ name ∈ (loc.withSuffix suffix).head?, name.length ≤ nameLimit) :
    loc.withSuffix suffix ≠ loc ∧
      t.locate (p.withSuffix suffix) =
        if pathLimit < (p.withSuffix suffix).toBytes.length then .error
          .nameTooLong
        else .ok (loc.withSuffix suffix) := by
  obtain ⟨hloc, hnode⟩ := find_eq_ok_iff.1 h
  unfold locate at hloc
  split at hloc
  · exact absurd hloc (by simp)
  · obtain ⟨front, last, above, hsegs, hlast, rfl, -, hbeside⟩ :=
      (htree.walk_cases (htree.node?_anchorLocation _) hloc).resolve_left
        (by rw [hnode]; simp)
    have hother := Path.append_ne_dotDot hsuffix last
    have hpath : p.withSuffix suffix =
        { p with segments := front ++ [last ++ suffix] } := by
      rw [Path.withSuffix, hsegs, List.getLast?_concat, List.dropLast_concat]
    refine ⟨Location.withSuffix_ne (List.ne_nil_of_length_pos (by omega)) _ _,
      ?_⟩
    rw [locate, hpath, hbeside _ hother (hname _ rfl)]
    rfl

end FileTree

end UnifiedPatch
