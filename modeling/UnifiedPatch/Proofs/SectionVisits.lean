import UnifiedPatch.Proofs.SectionRun
import UnifiedPatch.Proofs.TreeInvariant

/-!
# A run as the list of its sections

What a run records of its sections is what it reports. A statement about what
one section does to a later one needs the states in between as well, and they
are put down here: each section as the run comes to it, with the run before it
(`Visit`). Everything else about a section is a function of that.

The visits of a run are a chain, each beginning with the tree that the one
before it left (`Leads`), and chains of runs one after another are chains
again. Only the last visit can have failed, and if it has, that is the
failure of the run; the other way to fail is that no section could be
found (`failure?_applySections_iff`).
-/

namespace UnifiedPatch

/-- A section as a run comes to it. -/
structure Visit where
  settings : Settings
  name : Bytes
  before : Run

namespace Visit

/-- The path of the target. -/
def path (v : Visit) : Path := v.settings.directory.join v.name

/-- What opening the target comes to. -/
def opened (v : Visit) : Reply OpenTarget :=
  Target.acquire v.settings v.name v.before.tree

/-- The run after the section. -/
def after (v : Visit) : Run := v.before.applySection v.settings v.name

end Visit

namespace Run

variable {settings : Settings} {name : Bytes} {r : Run} {p : LineStream}
  {v : Visit}

/-- The sections that a run comes to, up to the first that fails. -/
def visits (settings : Settings) (r : Run) : List Visit :=
  match _h : Section.next settings.stripLevel r.patch with
  | (.ok (some name), patch) =>
      let v : Visit := { settings, name, before := r.entering name patch }
      match v.after.failure? with
      | some _ => [v]
      | none => v :: visits settings v.after
  | _ => []
termination_by r.patch.ready.length
decreasing_by
  exact Nat.lt_of_le_of_lt (length_patch_applySection_le ..)
    (Section.length_next_lt _h)

/-- The first section that a run comes to. -/
structure Meets (settings : Settings) (r : Run) (v : Visit) : Prop where
  same : v.settings = settings
  found : Section.next settings.stripLevel r.patch =
    (.ok (some v.name), v.before.patch)
  tree : v.before.tree = r.tree
  files : v.before.files = r.files
  failure? : v.before.failure? = r.failure?

theorem visits_of_not_found (h : ∀ name p,
    Section.next settings.stripLevel r.patch ≠ (.ok (some name), p)) :
    r.visits settings = [] := by
  rw [visits]
  split
  · next name p hfound => exact absurd hfound (h name p)
  · rfl

theorem visits_of_some
    (h : Section.next settings.stripLevel r.patch = (.ok (some name), p))
    (hv : { settings, name, before := r.entering name p } = v) :
    r.visits settings =
        v :: (if v.after.failure?.isSome then [] else v.after.visits settings) ∧
      r.applySections settings =
        if v.after.failure?.isSome then v.after
        else v.after.applySections settings := by
  subst hv
  refine ⟨?_, applySections_of_some h⟩
  rw [visits]
  split
  · next found q hfound =>
      rw [h] at hfound
      obtain ⟨hname, rfl⟩ := Prod.mk.inj hfound
      obtain rfl : name = found := by simpa using hname
      simp only []
      split
      · next hfail => rw [hfail]; rfl
      · next hfail => rw [hfail]; rfl
  · next hnot => exact absurd h (hnot name p)

/-- Induction along a run, with its visits beside it: it has come to its end, or
its first section ends it, or it goes on behind that one. -/
theorem visits_induction (settings : Settings) {motive : Run → Prop}
    (ended : ∀ r : Run, r.visits settings = [] →
      (r.applySections settings).tree = r.tree →
      ((r.applySections settings).failure? = r.failure? ∨
        ∃ e, (r.applySections settings).failure? = some (.fatal e)) → motive r)
    (last : ∀ (r : Run) (v : Visit) (why : Failure), Meets settings r v →
      r.visits settings = [v] → r.applySections settings = v.after →
      v.after.failure? = some why → motive r)
    (more : ∀ (r : Run) (v : Visit), Meets settings r v →
      r.visits settings = v :: v.after.visits settings →
      r.applySections settings = v.after.applySections settings →
      v.after.failure? = none → motive v.after → motive r)
    (r : Run) : motive r := by
  fun_induction applySections settings r with
  | case1 r e p h =>
      have hend := applySections_of_error h
      refine ended r (visits_of_not_found (by simp [h])) ?_ (.inr ⟨e, ?_⟩) <;>
        rw [hend] <;> rfl
  | case2 r p h =>
      have hend := applySections_of_none h
      refine ended r (visits_of_not_found (by simp [h])) ?_ (.inl ?_) <;>
        rw [hend] <;> rfl
  | case3 r name p h next why hwhy =>
      obtain ⟨v, hv⟩ : ∃ v, Visit.mk settings name (r.entering name p) = v :=
        ⟨_, rfl⟩
      have hafter : v.after.failure? = some why := hv ▸ hwhy
      obtain ⟨hvisits, hrun⟩ := visits_of_some h hv
      rw [hafter, Option.isSome_some, if_pos rfl] at hvisits hrun
      exact last r v why (by subst hv; exact ⟨rfl, h, rfl, rfl, rfl⟩) hvisits
        hrun hafter
  | case4 r name p h next hfine ih =>
      obtain ⟨v, hv⟩ : ∃ v, Visit.mk settings name (r.entering name p) = v :=
        ⟨_, rfl⟩
      have hafter : v.after.failure? = none := hv ▸ hfine
      obtain ⟨hvisits, hrun⟩ := visits_of_some h hv
      rw [hafter, Option.isSome_none, if_neg (by simp)] at hvisits hrun
      exact more r v (by subst hv; exact ⟨rfl, h, rfl, rfl, rfl⟩) hvisits hrun
        hafter (hv ▸ ih)

/-- Induction along a run that is not given up: no section is found, or it goes
on behind the first, which did not fail. -/
theorem returned_induction (settings : Settings)
    {motive : ∀ r : Run, (r.applySections settings).failure? = none → Prop}
    (ended : ∀ (r : Run) (p : LineStream) (hfine : _), r.visits settings = [] →
      r.applySections settings = { r with patch := p }.say
        #[.remark (.patchDone r.files.size r.failedFiles.length)] →
          motive r hfine)
    (more : ∀ (r : Run) (v : Visit) (p : LineStream) (hfine : _)
      (hmore : (v.after.applySections settings).failure? = none),
      Visit.mk settings v.name (r.entering v.name p) = v →
      r.visits settings = v :: v.after.visits settings →
      r.applySections settings = v.after.applySections settings →
      v.after.failure? = none → motive v.after hmore → motive r hfine)
    (r : Run) (hfine : (r.applySections settings).failure? = none) :
    motive r hfine := by
  fun_induction applySections settings r with
  | case1 r e p h =>
      exact absurd hfine (by simp [applySections_of_error h, fail])
  | case2 r p h =>
      exact ended r p _ (visits_of_not_found (by simp [h]))
        (applySections_of_none h)
  | case3 r name p h next why hwhy =>
      obtain ⟨-, hrun⟩ := visits_of_some h rfl
      rw [show Visit.after _ = next from rfl, hwhy, Option.isSome_some,
        if_pos rfl] at hrun
      rw [hrun, hwhy] at hfine
      exact absurd hfine (by simp)
  | case4 r name p h next hnone ih =>
      obtain ⟨v, hv⟩ : ∃ v, Visit.mk settings name (r.entering name p) = v :=
        ⟨_, rfl⟩
      have hafter : v.after.failure? = none := hv ▸ hnone
      obtain ⟨hvisits, hrun⟩ := visits_of_some h hv
      rw [hafter, Option.isSome_none, if_neg (by simp)] at hvisits hrun
      have hmore : (v.after.applySections settings).failure? = none :=
        hrun ▸ hfine
      subst hv
      exact more r _ p hfine hmore rfl hvisits hrun hafter (ih hmore)

theorem settings_of_mem_visits (h : v ∈ r.visits settings) :
    v.settings = settings := by
  induction r using visits_induction settings with
  | ended r hvisits => exact absurd (hvisits ▸ h) (by simp)
  | last r w why hmeets hvisits =>
      rw [hvisits] at h
      rw [List.mem_singleton.1 h]
      exact hmeets.same
  | more r w hmeets hvisits _ _ ih =>
      rw [hvisits] at h
      rcases List.mem_cons.1 h with rfl | hmem
      · exact hmeets.same
      · exact ih hmem

/-! ## Failures -/

/-- Nothing has failed before a visit. -/
theorem failure?_before_of_mem_visits (hr : r.failure? = none)
    (h : v ∈ r.visits settings) :
    v.before.failure? = none := by
  induction r using visits_induction settings with
  | ended r hvisits => exact absurd (hvisits ▸ h) (by simp)
  | last r w why hmeets hvisits =>
      rw [hvisits] at h
      rw [List.mem_singleton.1 h]
      exact hmeets.failure?.trans hr
  | more r w hmeets hvisits _ hfine ih =>
      rw [hvisits] at h
      rcases List.mem_cons.1 h with rfl | hmem
      · exact hmeets.failure?.trans hr
      · exact ih hfine hmem

/-- For another reason than a fatal error a run fails exactly as one of its
visits does. -/
theorem failure?_applySections_iff {why : Failure} (hr : r.failure? = none)
    (hwhy : ∀ e, why ≠ .fatal e) :
    (r.applySections settings).failure? = some why ↔
      ∃ v ∈ r.visits settings, v.after.failure? = some why := by
  induction r using visits_induction settings with
  | ended r hvisits _ hend =>
      rw [hvisits]
      refine ⟨fun h => ?_, by simp⟩
      rcases hend with hsame | ⟨e, hfatal⟩
      · rw [hsame, hr] at h
        exact absurd h (by simp)
      · rw [hfatal] at h
        exact absurd (Option.some.inj h).symm (hwhy e)
  | last r w why' hmeets hvisits hrun hfailed =>
      rw [hvisits, hrun]
      simp
  | more r w hmeets hvisits hrun hfine ih =>
      rw [hvisits, hrun, ih hfine]
      simp [hfine]

end Run

/-! ## Chains of trees -/

/-- Each visit begins with the tree that the one before it left. -/
def Leads : FileTree → List Visit → FileTree → Prop
  | first, [], last => last = first
  | first, v :: vs, last => v.before.tree = first ∧ Leads v.after.tree vs last

theorem leads_append {first last : FileTree} {vs ws : List Visit} :
    Leads first (vs ++ ws) last ↔
      ∃ mid, Leads first vs mid ∧ Leads mid ws last := by
  induction vs generalizing first with
  | nil => simp [Leads]
  | cons v vs ih => simp [Leads, ih, and_assoc]

theorem Run.leads_visits (settings : Settings) (r : Run) :
    Leads r.tree (r.visits settings) (r.applySections settings).tree := by
  induction r using visits_induction settings with
  | ended r hvisits htree =>
      rw [hvisits]
      exact htree
  | last r w why hmeets hvisits hrun =>
      rw [hvisits, hrun]
      exact ⟨hmeets.tree, rfl⟩
  | more r w hmeets hvisits hrun _ ih =>
      rw [hvisits, hrun]
      exact ⟨hmeets.tree, ih⟩

/-- All along a chain from a tree there are trees. -/
theorem Leads.wellFormed {first last : FileTree} {vs : List Visit}
    (h : Leads first vs last) (hfirst : first.WellFormed) :
    (∀ v ∈ vs, v.before.tree.WellFormed) ∧ last.WellFormed := by
  induction vs generalizing first with
  | nil =>
      obtain rfl : last = first := h
      exact ⟨by simp, hfirst⟩
  | cons v vs ih =>
      obtain ⟨rfl, hrest⟩ := h
      obtain ⟨hmore, hlast⟩ := ih hrest (Run.wellFormed_applySection hfirst)
      exact ⟨by simpa using ⟨hfirst, hmore⟩, hlast⟩

/-! ## Runs one after another -/

/-- A patch, and the settings it is applied with. -/
structure Call where
  settings : Settings
  patch : Bytes

namespace Call

/-- The tree after patches were applied one after another, each to what the one
before it left, however that one ended. -/
def applyAll : List Call → FileTree → FileTree
  | [], tree => tree
  | c :: calls, tree => applyAll calls (applyPatch c.settings c.patch tree).tree

/-- The sections that they come to. -/
def visits : List Call → FileTree → List Visit
  | [], _ => []
  | c :: calls, tree =>
      Run.visits c.settings { tree, patch := .ofBytes c.patch } ++
        visits calls (applyPatch c.settings c.patch tree).tree

theorem leads_visits (calls : List Call) (tree : FileTree) :
    Leads tree (visits calls tree) (applyAll calls tree) := by
  induction calls generalizing tree with
  | nil => rfl
  | cons c calls ih =>
      exact leads_append.2
        ⟨_, Run.leads_visits c.settings { tree, patch := .ofBytes c.patch },
          ih _⟩

theorem exists_of_mem_visits {calls : List Call} {tree : FileTree} {v : Visit}
    (h : v ∈ visits calls tree) : ∃ c ∈ calls, v.settings = c.settings := by
  induction calls generalizing tree with
  | nil => exact absurd h (by simp [visits])
  | cons c calls ih =>
      rcases List.mem_append.1 h with hmem | hmem
      · exact ⟨c, by simp, Run.settings_of_mem_visits hmem⟩
      · obtain ⟨c', hc', heq⟩ := ih hmem
        exact ⟨c', by simp [hc'], heq⟩

end Call

end UnifiedPatch
