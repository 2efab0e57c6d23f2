import UnifiedPatch.Proofs.DryRun
import UnifiedPatch.Proofs.PatchAppend
import UnifiedPatch.Proofs.SectionMarks

/-!
# Sections in either order

Two sections with their places apart can be done in either order. A patch of the
two is the one section and then the other, since the lines of each are found
again whatever became of the hunks before them; and each does to the tree that
the other one has left what it does to the first tree
(`Run.exists_marked_of_drift`). What is left to show is that it makes no
difference whose marks come first.

Nothing is asked of the tree but that the paths go up, if they do, from
directories that are there. Whether hunks fail, targets are made or emptied and
taken away, or the run is a dry one, is all the same.
-/

namespace UnifiedPatch

/-! ## A section alone -/

namespace WrittenSection

/-- The text of a section in the patch. -/
def text (s : WrittenSection) : Bytes := s.lines.flatten

/-- The path that the section is about. -/
def target (settings : Settings) (s : WrittenSection) : Path :=
  settings.directory.join (s.name settings.stripLevel)

/-- The run on the section alone, when it comes to it. -/
def met (settings : Settings) (s : WrittenSection) (tree : FileTree) : Run :=
  ({ tree, patch := .ofBytes s.text } : Run).entering
    (s.name settings.stripLevel)
    (Section.next settings.stripLevel (.ofBytes s.text)).2

variable {s : WrittenSection}

theorem lines_text_append (hs : ∀ line ∈ s.lines, line.Terminated)
    (more : Bytes) :
    (s.text ++ more).lines = s.lines ++ more.lines :=
  Bytes.lines_flatten_append hs more

theorem lines_text (hs : ∀ line ∈ s.lines, line.Terminated) :
    s.text.lines = s.lines := by
  have h := lines_text_append hs []
  rw [List.append_nil] at h
  exact h.trans (List.append_nil _)

theorem head_lines_text (hs : ∀ line ∈ s.lines, line.Terminated) :
    ∀ line ∈ s.text.lines.head?, (Bytes.after? Marker.old line).isSome := by
  rw [lines_text hs]
  simpa [lines] using s.oldLine_marked

end WrittenSection

namespace Run

open Target

/-- What a run on a section alone reports of its file. -/
structure Reports (settings : Settings) (s : WrittenSection)
    (result : FileResult) (notices : List Notice) (r : Run) : Prop where
  path : result.path = s.target settings
  head : notices.head? = some (.patchingFile (s.name settings.stripLevel))
  files : r.files = #[result]
  notices : r.said.notices = notices

/-- Runs on two sections in either order: they end in the same tree with the
same exit status, and report the same of each file. -/
structure EitherOrder (settings : Settings) (a b : WrittenSection)
    (ab ba : Run) : Prop where
  tree : ab.tree.Same ba.tree
  exitStatus : ba.exitStatus = ab.exitStatus
  reports : ∃ x y noticesA noticesB,
    x.path = a.target settings ∧ y.path = b.target settings ∧
    noticesA.head? = some (.patchingFile (a.name settings.stripLevel)) ∧
    noticesB.head? = some (.patchingFile (b.name settings.stripLevel)) ∧
    ab.files = #[x, y] ∧ ba.files = #[y, x] ∧
    ab.said.notices = noticesA ++ noticesB ∧
    ba.said.notices = noticesB ++ noticesA

variable {settings : Settings} {a b s : WrittenSection} {r ab ba alone : Run}
  {tree tree' : FileTree} {x y : FileResult} {noticesA noticesB : List Notice}

/-- A run on a section alone is what becomes of the section. -/
theorem extends_met (hskip : settings.skipApplied = false)
    (hs : ∀ line ∈ s.lines, line.Terminated) (tree : FileTree) :
    Extends [] #[] ((s.met settings tree).applySection settings
      (s.name settings.stripLevel))
      (applyPatch settings s.text tree) := by
  have hyields : (LineStream.ofBytes s.text).Yields
      ([] ++ (s.oldLine :: s.newLine :: (s.hunkLines ++ s.notes))) := by
    refine .inl ?_
    rw [LineStream.ready_ofBytes, WrittenSection.lines_text hs]
    rfl
  obtain ⟨p, hp, hnext⟩ :=
    Section.next_of_yields settings.stripLevel hyields (by simp)
  have hmet : s.met settings tree =
      ({ tree, patch := .ofBytes s.text } : Run).entering
      (s.name settings.stripLevel) p := by
    rw [WrittenSection.met, hnext]
  have hrun : applyPatch settings s.text tree = _ := applySections_of_some hnext
  rw [hmet]
  split at hrun
  · rw [hrun]
    exact ⟨rfl, by simp, by simp, rfl⟩
  · next hnot =>
      have hleft := ((applySection_written (s.name settings.stripLevel) hskip
        (show Extends [] #[] { tree, patch := .ofBytes s.text }
          { tree, patch := .ofBytes s.text } from ⟨rfl, rfl, rfl, rfl⟩)
        hp hp s.head_notes s.head_notes).2 (by simpa using hnot)).1
      obtain ⟨q, hend⟩ :=
        Section.next_of_notes settings.stripLevel hleft s.notes_unmarked
      rw [hrun, applySections_of_none hend]
      refine ⟨rfl, ?_, by simp [say], rfl⟩
      rw [List.nil_append]
      exact Transcript.notices_push_remark _ _

/-- A section alone makes a tree drift at its own places. -/
theorem drift_alone (hdry : settings.dryRun = false)
    (hskip : settings.skipApplied = false)
    (hs : ∀ line ∈ s.lines, line.Terminated)
    (hp : tree.Straight (s.target settings))
    (hfine : (applyPatch settings s.text tree).failure? = none) :
    tree.Drift (applyPatch settings s.text tree).tree
      (sites settings tree (s.name settings.stripLevel)) := by
  have halone := extends_met hskip hs tree
  rw [halone.tree]
  exact drift_applySection (r := s.met settings tree) hdry hp
    (halone.failure?.symm.trans hfine)

/-- A section that goes well is reported, in a dry run too. -/
theorem exists_reports (hskip : settings.skipApplied = false)
    (hs : ∀ line ∈ s.lines, line.Terminated)
    (hfine : (applyPatch settings s.text tree).failure? = none) :
    ∃ result notices,
      Reports settings s result notices (applyPatch settings s.text tree) := by
  have halone := extends_met hskip hs tree
  obtain ⟨o, result, hopen, hdone, -, hfiles, hpath, -⟩ :=
    exists_work_of_fine (halone.failure?.symm.trans hfine)
  have hsaid := notices_of_fine hopen rfl hdone
  refine ⟨result, _, hpath, ?_, ?_, rfl⟩
  · rw [halone.notices, hsaid]
    rfl
  · rw [halone.files, hfiles]
    simp [WrittenSection.met, entering, say]

/-- A section alone reports the same, and leaves the same marks, in a tree that
differs at places apart from its own. -/
theorem exists_reports_of_drift {touched : List Location}
    (hdry : settings.dryRun = false) (hskip : settings.skipApplied = false)
    (hs : ∀ line ∈ s.lines, line.Terminated) (htree : tree.WellFormed)
    (htree' : tree'.WellFormed) (hp : tree.Straight (s.target settings))
    (hdrift : tree.Drift tree' touched)
    (haway : ∀ site ∈ touched, site.Apart (tree.place (s.target settings)))
    (hfine : (applyPatch settings s.text tree).failure? = none)
    (hfine' : (applyPatch settings s.text tree').failure? = none) :
    ∃ marks result notices,
      (∀ m ∈ marks, m.1 ∈ sites settings tree (s.name settings.stripLevel)) ∧
      Reports settings s result notices (applyPatch settings s.text tree) ∧
      Reports settings s result notices (applyPatch settings s.text tree') ∧
      tree.Leaves (tree.place (s.target settings)) marks
        (applyPatch settings s.text tree).tree ∧
      tree'.Leaves (tree.place (s.target settings)) marks
        (applyPatch settings s.text tree').tree := by
  have halone := extends_met hskip hs tree
  have halone' := extends_met hskip hs tree'
  obtain ⟨marks, result, notices, hmarks, hpath, hhead, hleft, hleft'⟩ :=
    exists_marked_of_drift (s.met settings tree) (s.met settings tree') hdry
      htree htree' hp
      hdrift haway rfl (halone.failure?.symm.trans hfine)
        (halone'.failure?.symm.trans hfine')
  have hreports : ∀ {t : FileTree} {loc : Location},
      Extends [] #[] ((s.met settings t).applySection settings
        (s.name settings.stripLevel))
        (applyPatch settings s.text t) →
      Marked settings (s.name settings.stripLevel) loc marks result notices
        (s.met settings t) →
      Reports settings s result notices (applyPatch settings s.text t) := by
    intro t loc hone hmarked
    refine ⟨hpath, hhead, ?_, ?_⟩
    · rw [hone.files, hmarked.files]
      simp [WrittenSection.met, entering, say]
    · rw [hone.notices, hmarked.notices]
      rfl
  exact ⟨marks, result, notices, hmarks, hreports halone hleft,
    hreports halone' hleft', halone.tree ▸ hleft.leaves,
    halone'.tree ▸ hleft'.leaves⟩

/-! ## Two sections -/

/-- A patch of two sections is the one and then the other. -/
theorem extends_pair (hskip : settings.skipApplied = false)
    (ha : ∀ line ∈ a.lines, line.Terminated)
    (hb : ∀ line ∈ b.lines, line.Terminated)
    (hfine : (applyPatch settings (a.text ++ b.text) tree).failure? = none) :
    (applyPatch settings a.text tree).failure? = none ∧
      Extends (applyPatch settings a.text tree).said.notices
        (applyPatch settings a.text tree).files
        (applyPatch settings b.text (applyPatch settings a.text tree).tree)
        (applyPatch settings (a.text ++ b.text) tree) := by
  have halone : (LineStream.ofBytes a.text).ready =
      [] ++ [a].flatMap WrittenSection.lines := by
    rw [LineStream.ready_ofBytes, WrittenSection.lines_text ha]
    simp
  have hjoined : (LineStream.ofBytes (a.text ++ b.text)).ready =
      [] ++ ([a].flatMap WrittenSection.lines ++ b.text.lines) := by
    rw [LineStream.ready_ofBytes, WrittenSection.lines_text_append ha]
    simp
  obtain ⟨hcut, hdone⟩ : ((applyPatch settings a.text tree).failure? ≠ none →
        Extends [] #[] (applyPatch settings a.text tree)
          (applyPatch settings (a.text ++ b.text) tree)) ∧
      ((applyPatch settings a.text tree).failure? = none →
        Extends (applyPatch settings a.text tree).said.notices
          (applyPatch settings a.text tree).files
          (applyPatch settings b.text (applyPatch settings a.text tree).tree)
          (applyPatch settings (a.text ++ b.text) tree)) :=
    applySections_append hskip (WrittenSection.head_lines_text hb) (by simp)
      ⟨rfl, rfl, rfl, rfl⟩ rfl (.inl halone) (.inl hjoined)
  cases hfirst : (applyPatch settings a.text tree).failure? with
  | none => exact ⟨rfl, hdone hfirst⟩
  | some why =>
      have hsame := (hcut (by simp [hfirst])).failure?
      rw [hfirst, hfine] at hsame
      exact absurd hsame (by simp)

theorem exitStatus_pair {ab ba : Run} (hab : ab.files = #[x, y])
    (hba : ba.files = #[y, x]) :
    ba.exitStatus = ab.exitStatus := by
  unfold exitStatus failedFiles
  rw [hab, hba]
  cases hx : x.hasFailed <;> cases hy : y.hasFailed <;> simp [hx, hy]

/-- What is reported of each section, and the same tree in the end, is all there
is to either order. -/
theorem eitherOrder_of_reports {first first' second second' : Run}
    (ha : Reports settings a x noticesA first)
    (hb : Reports settings b y noticesB second)
    (hb' : Reports settings b y noticesB first')
    (ha' : Reports settings a x noticesA second')
    (hab : Extends first.said.notices first.files second ab)
    (hba : Extends first'.said.notices first'.files second' ba)
    (htree : second.tree.Same second'.tree) :
    EitherOrder settings a b ab ba := by
  have hfiles : ab.files = #[x, y] := by rw [hab.files, ha.files, hb.files]; rfl
  have hfiles' : ba.files = #[y, x] := by
    rw [hba.files, hb'.files, ha'.files]; rfl
  refine ⟨?_, exitStatus_pair hfiles hfiles', x, y, noticesA, noticesB, ha.path,
    hb.path, ha.head, hb.head, hfiles, hfiles', ?_, ?_⟩
  · rw [hab.tree, hba.tree]
    exact htree
  · rw [hab.notices, ha.notices, hb.notices]
  · rw [hba.notices, hb'.notices, ha'.notices]

theorem not_suffix_tail_of_apart {loc loc' : Location} (h : loc.Apart loc') :
    ¬ loc <:+ loc'.tail :=
  fun hsuffix => h.1 (hsuffix.trans (List.tail_suffix _))

end Run

open Run Target in
/-- Two sections whose places are apart commute: if the patch of the two
goes well in both orders, both end in the same tree with the same report of
each file. -/
theorem applyPatch_comm (settings : Settings) (a b : WrittenSection)
    (tree : FileTree) (hskip : settings.skipApplied = false)
    (htree : tree.WellFormed) (ha : ∀ line ∈ a.lines, line.Terminated)
    (hb : ∀ line ∈ b.lines, line.Terminated)
    (hup : ∀ s ∈ [a, b], Path.dotDot ∈ (s.target settings).segments →
      tree.isDirectory (s.target settings).ascent = true)
    (hapart : SectionsApart settings tree (a.name settings.stripLevel)
      (b.name settings.stripLevel))
    (hab : (applyPatch settings (a.text ++ b.text) tree).failure? = none)
    (hba : (applyPatch settings (b.text ++ a.text) tree).failure? = none) :
    EitherOrder settings a b (applyPatch settings (a.text ++ b.text) tree)
      (applyPatch settings (b.text ++ a.text) tree) := by
  obtain ⟨hfirst, hpair⟩ := extends_pair hskip ha hb hab
  obtain ⟨hfirst', hpair'⟩ := extends_pair hskip hb ha hba
  have hsecond := hpair.failure?.symm.trans hab
  have hsecond' := hpair'.failure?.symm.trans hba
  cases hdry : settings.dryRun with
  | true =>
      have hstill : ∀ patch, (applyPatch settings patch tree).tree = tree :=
        fun patch => tree_applySections_of_dryRun hdry
      rw [hstill] at hpair hpair'
      obtain ⟨x, noticesA, hx⟩ := exists_reports hskip ha hfirst
      obtain ⟨y, noticesB, hy⟩ := exists_reports hskip hb hfirst'
      refine eitherOrder_of_reports hx hy hy hx hpair hpair' ?_
      rw [hstill, hstill]
      exact ⟨rfl, fun _ => rfl⟩
  | false =>
      have hstraight : ∀ s ∈ [a, b], tree.Straight (s.target settings) :=
        fun s hs => htree.straight (hup s hs)
      have hpa := hstraight a (by simp)
      have hpb := hstraight b (by simp)
      have hclosed : ∀ patch,
          (applyPatch settings patch tree).tree.WellFormed :=
        fun patch => wellFormed_applySections htree
      have haway : ∀ site ∈ sites settings tree (b.name settings.stripLevel),
          site.Apart (tree.place (a.target settings)) :=
        fun site hsite => (hapart _ List.mem_cons_self site hsite).symm
      have haway' : ∀ site ∈ sites settings tree (a.name settings.stripLevel),
          site.Apart (tree.place (b.target settings)) :=
        fun site hsite => hapart site hsite _ List.mem_cons_self
      -- Each section finds the same whether or not the other one has been
      -- there.
      obtain ⟨marks, x, noticesA, hmarks, hx, hx', hleft, hleft'⟩ :=
        exists_reports_of_drift hdry hskip ha htree (hclosed b.text) hpa
          (drift_alone hdry hskip hb hpb hfirst') haway hfirst hsecond'
      obtain ⟨marks', y, noticesB, hmarks', hy, hy', hright, hright'⟩ :=
        exists_reports_of_drift hdry hskip hb htree (hclosed a.text) hpb
          (drift_alone hdry hskip ha hpa hfirst) haway' hfirst' hsecond
      refine eitherOrder_of_reports hx hy' hy hx' hpair hpair' ?_
      refine hleft.comm hright' hright hleft' (fun m hm m' hm' heq => ?_)
        (fun m hm => ?_)
        fun m' hm' => ?_
      · exact (hapart _ (hmarks m hm) _ (hmarks' m' hm')).1
          (heq ▸ List.suffix_refl _)
      · exact not_suffix_tail_of_apart (haway' _ (hmarks m hm))
      · exact not_suffix_tail_of_apart (haway _ (hmarks' m' hm'))

/-- A section on `f` that does not fit, and one that makes `g`. -/
def missedAndMade : WrittenSection × WrittenSection :=
  (misfit.sections[0], deleteThenCreate.sections[1])

/-- The new file is not in the way of the failed hunk, nor the other
way round. -/
theorem applyPatch_comm_missedAndMade :
    Run.EitherOrder { directory := ⟨.working, []⟩ } missedAndMade.1
      missedAndMade.2
        (applyPatch { directory := ⟨.working, []⟩ }
          (missedAndMade.1.text ++ missedAndMade.2.text) .oneFile)
        (applyPatch { directory := ⟨.working, []⟩ }
          (missedAndMade.2.text ++ missedAndMade.1.text) .oneFile) ∧
      (applyPatch { directory := ⟨.working, []⟩ }
        (missedAndMade.1.text ++ missedAndMade.2.text)
        .oneFile).exitStatus = 1 :=
  ⟨applyPatch_comm { directory := ⟨.working, []⟩ } missedAndMade.1
      missedAndMade.2 .oneFile rfl
      (by decide) (by decide +kernel) (by decide +kernel) (by decide +kernel)
      (by decide +kernel) (by decide +kernel) (by decide +kernel),
    by decide +kernel⟩

end UnifiedPatch
