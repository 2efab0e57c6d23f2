import UnifiedPatch.Proofs.SectionContract

/-!
# A run leaves a tree a tree

A fresh tree is well-formed, and everything a run does to a tree keeps it so,
whether the run ends well or not. There are two kinds of changes. Something is
put at a site, a name without zero bytes in a directory that is there; and a
file or a device is taken away. Neither takes a directory from under another
entry. Sites last as long as directories do, so it is enough to know that every
path that a run follows leads to one: the name at its end is a segment of it,
and paths with zero bytes are refused before anything is done.
-/

namespace UnifiedPatch

theorem Path.zero_not_mem {p : Path} (h : p.hasNull = false) {seg : Bytes}
    (hseg : seg ∈ p.segments) : (0 : UInt8) ∉ seg := by
  unfold hasNull at h
  rw [List.any_eq_false] at h
  simpa using h seg hseg

theorem Path.hasNull_parent {p : Path} (h : p.hasNull = false) :
    p.parent.hasNull = false := by
  unfold hasNull at h ⊢
  rw [List.any_eq_false] at h ⊢
  exact fun seg hseg => h seg (List.dropLast_subset _ hseg)

namespace FileTree

variable {t t' : FileTree} {loc : Location} {p q : Path} {node : Node}

/-! ## Sites -/

/-- Something can stand at a location: a directory is above it. -/
def Site (t : FileTree) (loc : Location) : Prop :=
  ∃ name above, loc = name :: above ∧ t.node? above = some .directory ∧
    (0 : UInt8) ∉ name

theorem DirectoriesIn.site (hdirs : t.DirectoriesIn t') (h : t.Site loc) :
    t'.Site loc := by
  obtain ⟨name, above, hloc, habove, hname⟩ := h
  exact ⟨name, above, hloc, hdirs.kept above habove, hname⟩

theorem WellFormed.site_of_locate (htree : t.WellFormed)
    (hnull : p.hasNull = false) (h : t.locate p = .ok loc)
    (hnode : t.node? loc ≠ some .directory) : t.Site loc := by
  obtain ⟨name, above, hloc, hmem, habove⟩ :=
    (htree.locate_cases h).resolve_left hnode
  exact ⟨name, above, hloc, habove, Path.zero_not_mem hnull hmem⟩

theorem WellFormed.site_of_node? (htree : t.WellFormed)
    (h : t.node? loc = some node) (hnode : node ≠ .directory) : t.Site loc := by
  cases loc with
  | nil => exact absurd (Option.some.inj (h.symm.trans htree.node?_root)) hnode
  | cons name above =>
      have hmem := mem_of_node? h
      exact ⟨name, above, rfl, htree.above _ hmem (by simp),
        htree.names _ hmem name rfl⟩

/-! ## The two kinds of changes -/

theorem WellFormed.put (htree : t.WellFormed) (hsite : t.Site loc)
    (hnode : node = .directory ∨ t.node? loc ≠ some .directory) :
    (t.put loc node).WellFormed := by
  obtain ⟨name, above, rfl, habove, hname⟩ := hsite
  have hdirs : ∀ other, t.node? other = some .directory →
      (t.put (name :: above) node).node? other = some .directory := by
    intro other hother
    rw [node?_put]
    split
    · next heq =>
        subst heq
        rw [hnode.resolve_right (fun h => h hother)]
    · exact hother
  refine ⟨hdirs _ htree.working, fun e he hne => ?_, fun e he => ?_⟩
  · rcases List.mem_cons.1 he with rfl | hmem
    · exact hdirs _ habove
    · exact hdirs _ (htree.above e (List.mem_filter.1 hmem).1 hne)
  · rcases List.mem_cons.1 he with rfl | hmem
    · intro other hother
      obtain rfl : name = other := by simpa using hother
      exact hname
    · exact htree.names e (List.mem_filter.1 hmem).1

theorem WellFormed.remove (htree : t.WellFormed)
    (h : t.node? loc ≠ some .directory) :
    (t.remove loc).WellFormed := by
  have hdirs := directoriesIn_remove h
  refine ⟨hdirs.kept _ htree.working, fun e he hne => ?_, fun e he => ?_⟩
  · exact hdirs.kept _ (htree.above e (List.mem_filter.1 he).1 hne)
  · exact htree.names e (List.mem_filter.1 he).1

/-! ## Operations -/

theorem WellFormed.makeDirectory (htree : t.WellFormed)
    (hnull : p.hasNull = false) (h : t.makeDirectory p = .ok t') :
    t'.WellFormed := by
  unfold FileTree.makeDirectory at h
  split at h
  · exact absurd h (by simp)
  · next hlocate =>
      split at h
      · exact absurd h (by simp)
      · next hnone =>
          obtain rfl := Except.ok.inj h
          exact htree.put (htree.site_of_locate hnull hlocate
            (by rw [hnone]; simp)) (.inl rfl)

theorem WellFormed.makeDirectories (htree : t.WellFormed)
    (hnull : p.hasNull = false) :
    (t.makeDirectories p).1.WellFormed := by
  fun_induction FileTree.makeDirectories t p with
  | case1 p t' h => exact htree.makeDirectory hnull h
  | case2 => exact htree
  | case3 p h hne t' e hparent ih =>
      have hmade := ih (Path.hasNull_parent hnull)
      rw [hparent] at hmade
      exact hmade
  | case4 p h hne t' hparent t'' hmake ih =>
      have hmade := ih (Path.hasNull_parent hnull)
      rw [hparent] at hmade
      exact hmade.makeDirectory hnull hmake
  | case5 p h hne t' hparent e hmake ih =>
      have hmade := ih (Path.hasNull_parent hnull)
      rw [hparent] at hmade
      exact hmade
  | case6 => exact htree

theorem WellFormed.create (htree : t.WellFormed) (hnull : p.hasNull = false)
    {mode : Nat} (h : t.create p mode = .ok (t', loc)) : t'.WellFormed := by
  obtain ⟨hlocate, hdir, ⟨-, rfl⟩ | rfl⟩ := create_cases h
  · exact htree
  · exact htree.put (htree.site_of_locate hnull hlocate hdir) (.inr hdir)

theorem WellFormed.fill (htree : t.WellFormed) (loc : Location)
    (output : Bytes) :
    (t.fill loc output).WellFormed := by
  unfold FileTree.fill
  split
  · next hnode =>
      exact htree.put (htree.site_of_node? hnode (by simp))
        (.inr (by rw [hnode]; simp))
  · exact htree

theorem WellFormed.moved (htree : t.WellFormed) {content : Bytes} {mode : Nat}
    {aside : Location} (hloc : t.node? loc = some (.file content mode))
    (haside : t.Site aside) (hfree : t.node? aside ≠ some .directory) :
    (t.moved loc aside content mode).WellFormed := by
  have hgone :=
    directoriesIn_remove (show t.node? loc ≠ some .directory by rw [hloc]; simp)
  have hfree' : (t.remove loc).node? aside ≠ some .directory := by
    rw [node?_remove]
    split
    · simp
    · exact hfree
  have hput := directoriesIn_put hfree' (.file content mode)
  refine ((htree.remove (by rw [hloc]; simp)).put (hgone.site haside)
    (.inr hfree')).put
    ((hgone.trans hput).site (htree.site_of_node? hloc (by simp))) (.inr ?_)
  rw [node?_put, node?_remove]
  split <;> simp

/-! ## Fresh trees -/

theorem suffix_of_mem_directoriesTo {working : Location} {e : Location × Node}
    (h : e ∈ directoriesTo working) : e.1 <:+ working := by
  induction working with
  | nil =>
      obtain rfl := List.mem_singleton.1 h
      exact List.suffix_refl _
  | cons name above ih =>
      rcases List.mem_cons.1 h with rfl | hmem
      · exact List.suffix_refl _
      · exact (ih hmem).trans (List.suffix_cons _ _)

theorem lookup_directoriesTo {working loc : Location} (h : loc <:+ working) :
    (directoriesTo working).lookup loc = some .directory := by
  induction working with
  | nil =>
      rw [List.suffix_nil.1 h]
      rfl
  | cons name above ih =>
      rw [directoriesTo, List.lookup_cons]
      rcases List.suffix_cons_iff.1 h with rfl | hmore
      · rw [beq_self_eq_true]
      · split
        · rfl
        · exact ih hmore

/-- A fresh tree is well-formed unless its working directory is beneath the null
device. -/
theorem wellFormed_fresh {working : Location}
    (hnames : ∀ name ∈ working, (0 : UInt8) ∉ name)
    (hdevice : ¬ [Bytes.ascii "null", Bytes.ascii "dev"] <:+ working) :
    (fresh working).WellFormed := by
  have hdir : ∀ loc, loc <:+ working →
      (fresh working).node? loc = some .directory := by
    intro loc hloc
    unfold node? fresh
    rw [List.lookup_cons]
    split
    · next heq => exact absurd (eq_of_beq heq ▸ hloc) hdevice
    · rw [List.lookup_cons]
      split
      · rfl
      · exact lookup_directoriesTo hloc
  refine ⟨hdir _ (List.suffix_refl _), fun e he hne => ?_,
    fun e he name hname => ?_⟩
  · rcases List.mem_cons.1 he with rfl | he
    · rfl
    · rcases List.mem_cons.1 he with rfl | he
      · exact hdir _ (List.nil_suffix)
      · exact hdir _
          ((List.tail_suffix _).trans (suffix_of_mem_directoriesTo he))
  · rcases List.mem_cons.1 he with rfl | he
    · obtain rfl := Option.some.inj hname
      decide
    · rcases List.mem_cons.1 he with rfl | he
      · obtain rfl := Option.some.inj hname
        decide
      · obtain ⟨rest, hrest⟩ := List.head?_eq_some_iff.1 hname
        refine hnames name ((suffix_of_mem_directoriesTo he).subset ?_)
        rw [hrest]
        exact List.mem_cons_self

end FileTree

/-! ## Opening, settling, and the whole run -/

namespace Target

open FileTree

variable {settings : Settings} {name : Bytes} {tree tree' : FileTree}

theorem wellFormed_openNew {path : Path} (htree : tree.WellFormed)
    (hnull : path.hasNull = false) :
    (openNew settings name path tree).tree.WellFormed := by
  unfold openNew
  simp only []
  split
  · exact htree
  · have hmade := htree.makeDirectories (Path.hasNull_parent hnull)
    split
    · next hparents =>
        rw [hparents] at hmade
        exact hmade
    · next hparents =>
        rw [hparents] at hmade
        split
        · exact hmade
        · next hcreate => exact hmade.create hnull hcreate

theorem wellFormed_openExisting {path : Path} {loc : Location} {content : Bytes}
    {mode : Nat} (htree : tree.WellFormed) (hnull : path.hasNull = false)
    (hfind : tree.find path = .ok (loc, .file content mode)) :
    (openExisting settings name path content mode tree).tree.WellFormed := by
  cases hdry : settings.dryRun with
  | true =>
      rw [openExisting, if_pos hdry]
      exact htree
  | false =>
      rcases openExisting_cases name hdry hfind with
        ⟨e, heq⟩ | ⟨aside, haside, hfree, heq⟩
      · rw [heq]
        exact htree
      · rw [heq]
        have hfit : (path.withSuffix backupEnding).hasNull = false :=
          Path.hasNull_withSuffix hnull (by decide)
        exact htree.moved (find_eq_ok_iff.1 hfind).2
          (htree.site_of_locate hfit haside hfree) hfree

theorem wellFormed_acquire (htree : tree.WellFormed) :
    (acquire settings name tree).tree.WellFormed := by
  unfold acquire
  simp only []
  cases hnull : (settings.directory.join name).hasNull with
  | true => exact htree
  | false =>
      simp only [Bool.false_eq_true, if_false]
      split
      · exact wellFormed_openNew htree hnull
      · exact htree
      · exact htree
      · exact htree
      · next hfind => exact wellFormed_openExisting htree hnull hfind

theorem wellFormed_discard {p : Path} (htree : tree.WellFormed)
    (h : discard p tree = .ok tree') :
    tree'.WellFormed := by
  unfold discard at h
  split at h
  · exact absurd h (by simp)
  · unfold unlink at h
    split at h
    · nomatch h
    · nomatch h
    · next hdir hfind =>
        obtain rfl := Except.ok.inj h
        refine htree.remove ?_
        rw [(find_eq_ok_iff.1 hfind).2]
        intro heq
        exact hdir (Option.some.inj heq)

theorem wellFormed_settle {target : Target} {result : FileResult}
    (htree : tree.WellFormed) :
    (settle settings target result tree).tree.WellFormed := by
  have hdropped : (dropBackup target result tree).tree.WellFormed := by
    unfold dropBackup
    split
    · exact htree
    · split
      · next hdiscard => exact wellFormed_discard htree hdiscard
      · exact htree
      · exact htree
  unfold settle
  split
  · exact htree
  · simp only []
    split
    · exact hdropped
    · unfold dropEmpty
      split
      · exact hdropped
      · split
        · exact hdropped
        · next hdiscard => exact wellFormed_discard hdropped hdiscard

end Target

namespace Run

open FileTree Target

/-- A section leaves a tree a tree. -/
theorem wellFormed_applySection {settings : Settings} {name : Bytes} {r : Run}
    (htree : r.tree.WellFormed) :
    (r.applySection settings name).tree.WellFormed := by
  have hopened : (acquire settings name r.tree).tree.WellFormed :=
    wellFormed_acquire htree
  cases hopen : (acquire settings name r.tree).result with
  | error why =>
      rw [(applySection_of_error hopen).1]
      exact hopened
  | ok o =>
      have hclosed : ∀ output,
          (o.close output (acquire settings name r.tree).tree).WellFormed := by
        intro output
        unfold OpenTarget.close
        split
        · exact hopened
        · exact hopened.fill _ _
      cases hdone :
        ((Splice.start r.patch o.source).run settings name).failure? with
      | some why =>
          rw [(applySection_of_stopped hopen rfl hdone).1]
          exact hclosed _
      | none =>
          rw [(applySection_of_settled hopen rfl hdone rfl).1]
          exact wellFormed_settle (hclosed _)

theorem wellFormed_applySections {settings : Settings} {r : Run}
    (htree : r.tree.WellFormed) :
    (r.applySections settings).tree.WellFormed := by
  fun_induction applySections settings r with
  | case1 => exact htree
  | case2 => exact htree
  | case3 r name patch h next why hwhy => exact wellFormed_applySection htree
  | case4 r name patch h next hnext ih =>
      exact ih (wellFormed_applySection htree)

end Run

end UnifiedPatch
