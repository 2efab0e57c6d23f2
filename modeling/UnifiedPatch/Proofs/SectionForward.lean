import UnifiedPatch.Proofs.SectionStray

/-!
# Where sections end if lines may count as applied

Sections are told apart by counting, and counting goes wrong when lines that are
missed are passed over: the line of the body is used up and the counter it
belongs to may not move. The end of a section is then overlooked, and the marker
line of the next one is deleted from, or written into, the file before it.

This happens exactly at a last hunk that does not close. Read forwards, a
section whose file is too short for its last hunk takes the next marker line
with it, for there is no source line left that would tell them apart. Read
backwards, one context line that is missed in the last hunk is enough. So a run
applies every section of a patch to its own file, with its own hunks and from
its own marker lines on, exactly if the last hunk of each section but the last
one closes on the file that the section finds (`applyPatch_apart_iff`). What a
section finds depends on the ones before it, but not on those behind it: each of
them does what it would do alone.

The summary of a run is enough to see it: a marker line that was taken costs a
file or a hunk, which no later section makes up for (`closes_of_outcomes`).
-/

namespace UnifiedPatch

open Target

/-! ## When a section closes -/

/-- The last hunk of a section closes on the file that the tree has for it. -/
def WrittenSection.Closes (settings : Settings) (w : WrittenSection)
    (tree : FileTree) : Prop :=
  match (acquire settings (w.name settings.stripLevel) tree).result with
  | .error _ => True
  | .ok o =>
      (Splice.start .empty o.source).Closed settings
        (w.name settings.stripLevel) w.hunks

instance (settings : Settings) (w : WrittenSection) (tree : FileTree) :
    Decidable (w.Closes settings tree) :=
  match h : (acquire settings (w.name settings.stripLevel) tree).result with
  | .error _ => isTrue (by simp only [WrittenSection.Closes, h])
  | .ok o =>
      decidable_of_iff
        ((Splice.start .empty o.source).Closed settings
          (w.name settings.stripLevel) w.hunks)
        (by simp only [WrittenSection.Closes, h])

/-- Each section but the last one closes on the tree that the ones before it
make, applied one at a time. -/
def SectionsClose (settings : Settings) : List WrittenSection → FileTree → Prop
  | [], _ => True
  | w :: sections, tree =>
      (sections ≠ [] → w.Closes settings tree) ∧
        SectionsClose settings sections
          (applyPatch settings w.lines.flatten tree).tree

instance SectionsClose.decidable (settings : Settings) :
    ∀ (sections : List WrittenSection) (tree : FileTree),
      Decidable (SectionsClose settings sections tree)
  | [], _ => isTrue trivial
  | w :: sections, tree =>
      have := SectionsClose.decidable settings sections
        (applyPatch settings w.lines.flatten tree).tree
      inferInstanceAs (Decidable ((_ → _) ∧ _))

namespace Run

variable {settings : Settings} {name : Bytes} {r : Run}

/-- The sections are applied one after another, each of them from its own marker
lines on to the marker lines of the next, of which it takes none. -/
def Apart (settings : Settings) : List WrittenSection → Run → Prop
  | [], _ => True
  | w :: sections, r =>
      ∃ p : LineStream,
        Section.next settings.stripLevel r.patch =
          (.ok (some (w.name settings.stripLevel)), p) ∧
        ((r.entering (w.name settings.stripLevel) p).applySection settings
          (w.name settings.stripLevel)).patch.ready =
          sections.flatMap WrittenSection.lines ∧
        Apart settings sections
          ((r.entering (w.name settings.stripLevel) p).applySection settings
            (w.name settings.stripLevel))

/-! ## One section -/

theorem told_of_closes {w : WrittenSection} {sections : List WrittenSection}
    {o : OpenTarget} {tree : FileTree}
    (hopen : (acquire settings (w.name settings.stripLevel) tree).result =
      .ok o)
    (hcloses : sections ≠ [] → w.Closes settings tree) (p : LineStream) :
    (Splice.start p o.source).Told settings (w.name settings.stripLevel) w.hunks
      (sections.flatMap WrittenSection.lines) := by
  intro _ line hline
  have hne : sections ≠ [] := by
    rintro rfl
    exact absurd hline (by simp)
  have hclosed := hcloses hne
  rw [WrittenSection.Closes, hopen] at hclosed
  exact .inr ⟨WrittenSection.head_lines_marked sections line hline,
    (Splice.closed_patch settings _ w.hunks (Splice.start .empty o.source) p).2
      hclosed⟩

/-- A section that is not given up leaves the next one exactly if it closes. -/
theorem ready_applySection_iff {w : WrittenSection}
    {sections : List WrittenSection} {p : LineStream}
    (hskip : settings.skipApplied = true)
    (hp : p.ready = w.hunkLines ++ sections.flatMap WrittenSection.lines)
    (hfine : ((r.entering (w.name settings.stripLevel) p).applySection settings
      (w.name settings.stripLevel)).failure? = none) :
    ((r.entering (w.name settings.stripLevel) p).applySection settings
        (w.name settings.stripLevel)).patch.ready =
        sections.flatMap WrittenSection.lines ↔
      (sections ≠ [] → w.Closes settings r.tree) := by
  obtain ⟨o, -, hopen, hdone, hleft, -⟩ := exists_work_of_fine hfine
  rw [show (r.entering (w.name settings.stripLevel) p).patch = p from
    rfl] at hdone hleft
  rw [hleft]
  cases sections with
  | nil =>
      obtain ⟨q, hq, hrun⟩ := Splice.run_overSection_nil settings
        (w.name settings.stripLevel)
        (s := Splice.start p o.source) rfl (hp.trans (List.append_nil _))
      refine ⟨fun _ hne => absurd rfl hne, fun _ => ?_⟩
      rw [hrun] at hdone ⊢
      exact hq hdone
  | cons next sections =>
      have hhunks := Splice.overHunks_fine_of_run settings
        (w.name settings.stripLevel)
        (s := Splice.start p o.source) rfl (.inl hp) hdone
      have hleaves := Splice.ready_patch_run_iff settings
        (w.name settings.stripLevel)
        (s := Splice.start p o.source) hskip rfl hp next.oldLine_marked hhunks
      constructor
      · intro hready _
        rw [WrittenSection.Closes,
          show (acquire settings (w.name settings.stripLevel) r.tree).result =
            .ok o from hopen]
        exact (Splice.closed_patch settings _ w.hunks
          (Splice.start .empty o.source) p).1
          (hleaves.1 (.inl hready))
      · intro hcloses
        have htold := told_of_closes hopen hcloses p
        rcases htold hskip next.oldLine rfl with hnone | ⟨-, hclosed⟩
        · obtain ⟨b, hread, -⟩ :=
            BodyLine.ofLine?_of_marked next.oldLine_marked settings.reverse
          rw [hread] at hnone
          exact absurd hnone (by simp)
        · exact LineStream.Yields.ready_marked (hleaves.2 hclosed)
            next.oldLine_marked

/-- A patch of one section does what the section does. -/
theorem tree_applyPatch_section (settings : Settings) {w : WrittenSection}
    (tree : FileTree) (hnotes : w.notes = [])
    (hterminated : ∀ line ∈ w.lines, line.Terminated) :
    ∃ (patch p : LineStream), p.ready = w.hunkLines ∧
      (applyPatch settings w.lines.flatten tree).tree =
        ((entering (w.name settings.stripLevel) p { tree, patch }).applySection
          settings (w.name settings.stripLevel)).tree := by
  have hlines : w.lines = [] ++ (w.oldLine :: w.newLine :: w.hunkLines) := by
    rw [WrittenSection.lines, hnotes, List.append_nil, List.nil_append]
  have hcut : Bytes.lines w.lines.flatten = w.lines :=
    Bytes.lines_flatten hterminated
  obtain ⟨p, hp, hnext⟩ := Section.next_of_yields settings.stripLevel
    (s := .ofBytes w.lines.flatten) (.inl (hcut.trans hlines)) (by simp)
  refine ⟨.ofBytes w.lines.flatten, p, hp, ?_⟩
  generalize hname : w.name settings.stripLevel = name at hnext ⊢
  rw [applyPatch, applySections_of_some hnext]
  split
  · rfl
  · next hfail =>
      have hfine :
          ((entering name p
            { tree, patch := .ofBytes w.lines.flatten }).applySection
          settings name).failure? = none := by
        simpa using hfail
      obtain ⟨o, -, -, hdone, hleft, -⟩ := exists_work_of_fine hfine
      obtain ⟨q, hq, hrun⟩ := Splice.run_overSection_nil settings name
        (s := Splice.start p o.source) rfl hp
      rw [show (entering name p
        { tree, patch := .ofBytes w.lines.flatten }).patch = p from rfl,
        hrun] at hdone hleft
      have hrest :
          ((entering name p
            { tree, patch := .ofBytes w.lines.flatten }).applySection
          settings name).patch.Yields [] := by
        rw [hleft]
        exact .inl (hq hdone)
      obtain ⟨q', hnone⟩ :=
        Section.next_of_notes settings.stripLevel hrest (by simp)
      rw [applySections_of_none hnone]
      rfl

/-- A section that leaves the next one does what it does alone, and counts its
own hunks. -/
theorem applySection_alone {w : WrittenSection} {sections : List WrittenSection}
    {p : LineStream} (hfailure : r.failure? = none)
    (hp : p.ready = w.hunkLines ++ sections.flatMap WrittenSection.lines)
    (hnotes : w.notes = []) (hterminated : ∀ line ∈ w.lines, line.Terminated)
    (hfine : ((r.entering (w.name settings.stripLevel) p).applySection settings
      (w.name settings.stripLevel)).failure? = none)
    (hcloses : sections ≠ [] → w.Closes settings r.tree) :
    ((r.entering (w.name settings.stripLevel) p).applySection settings
        (w.name settings.stripLevel)).tree =
        (applyPatch settings w.lines.flatten r.tree).tree ∧
      ∃ result : FileResult,
        ((r.entering (w.name settings.stripLevel) p).applySection settings
          (w.name settings.stripLevel)).files = r.files.push result ∧
        result.path = settings.directory.join (w.name settings.stripLevel) ∧
        result.hunks = w.hunks.length := by
  have hwork : ∀ o,
      (acquire settings (w.name settings.stripLevel) r.tree).result = .ok o →
      ∃ q : LineStream,
      (Splice.start p o.source).run settings (w.name settings.stripLevel) =
        { (Splice.start p o.source).overSection settings
          (w.name settings.stripLevel) w.hunks with
          patch := q } := by
    intro o hopen
    obtain ⟨q, -, hrun⟩ := Splice.run_overSection settings
      (w.name settings.stripLevel)
      (fun _ => told_of_closes hopen hcloses p) rfl (.inl hp)
      (WrittenSection.head_lines_not_header sections)
    exact ⟨q, hrun⟩
  constructor
  · obtain ⟨patch, p₀, hp₀, htree⟩ := tree_applyPatch_section settings
      r.tree hnotes
      hterminated
    have hstart : Extends r.said.notices r.files { tree := r.tree, patch } r :=
      ⟨rfl, (List.append_nil _).symm, by simp, hfailure⟩
    rw [htree]
    refine (hstart.applySection_over w.hunks fun o
      hopen => ⟨?_, hwork o hopen⟩).tree
    obtain ⟨q, -, hrun⟩ := Splice.run_overSection_nil settings
      (w.name settings.stripLevel)
      (s := Splice.start p₀ o.source) rfl hp₀
    exact ⟨q, hrun⟩
  · obtain ⟨o, result, hopen, hdone, -, hfiles, hpath, hhunks⟩ :=
      exists_work_of_fine hfine
    rw [show (r.entering (w.name settings.stripLevel) p).patch = p from
      rfl] at hdone hhunks
    have hover := Splice.overHunks_fine_of_run settings
      (w.name settings.stripLevel)
      (s := Splice.start p o.source) rfl (.inl hp) hdone
    obtain ⟨q, hrun⟩ := hwork o hopen
    refine ⟨result, hfiles, hpath, ?_⟩
    rw [hhunks, hrun]
    exact congrArg Nat.cast
      ((Splice.hunks_overSection settings _ hover).trans (Nat.zero_add _))

/-! ## All sections -/

/-- What became of a file, as far as the lines of the patch say it. -/
def outcome (result : FileResult) : Path × Int := (result.path, result.hunks)

/-- What is to become of the file of a section: its pair of marker lines says
the name, and its hunks are counted. -/
def due (settings : Settings) (w : WrittenSection) : Path × Int :=
  (settings.directory.join (w.name settings.stripLevel), w.hunks.length)

theorem hunkSum_of_outcomes {sections : List WrittenSection} {after : Run}
    (hnotes : ∀ w ∈ sections, w.notes = [])
    (houtcomes : after.files.toList.map outcome =
      r.files.toList.map outcome ++ sections.map (due settings)) :
    after.hunkSum = r.hunkSum + Weight.headers.total
      (sections.flatMap WrittenSection.lines) := by
  have hhunks :=
    congrArg (fun outcomes => (outcomes.map Prod.snd).sum) houtcomes
  rw [Weight.headers_sections hnotes]
  simpa [outcome, due, hunkSum, Function.comp_def] using hhunks

/-- If the outcomes are those that are due, the section in front has closed. -/
theorem closes_of_outcomes {w : WrittenSection} {sections : List WrittenSection}
    {p : LineStream} {after : Run} (hskip : settings.skipApplied = true)
    (hnotes : ∀ v ∈ w :: sections, v.notes = [])
    (hp : p.ready = w.hunkLines ++ sections.flatMap WrittenSection.lines)
    (hafter : (r.entering (w.name settings.stripLevel) p).applySection settings
      (w.name settings.stripLevel) = after)
    (hdone : after.failure? = none)
    (hfine : (after.applySections settings).failure? = none)
    (houtcomes : (after.applySections settings).files.toList.map outcome =
      r.files.toList.map outcome ++ (w :: sections).map (due settings)) :
    sections ≠ [] → w.Closes settings r.tree := by
  have hall := hunkSum_of_outcomes hnotes houtcomes
  rw [Weight.headers_cons (hnotes w (by simp)), ← hp] at hall
  have hsections : ∀ v ∈ sections, v.notes = [] :=
    fun v hv => hnotes v (by simp [hv])
  obtain ⟨before, rest, hlines, hbefore, hrest, hwhole, hleft⟩ :=
    exists_boundary hskip hsections hp hafter hdone hfine
      (Int.le_of_eq hall.symm)
  have hbehind := size_applySections_le hskip hbefore
    (fun v hv => hsections v (hrest.subset hv)) (.inl hlines) hfine hleft
  have hone := size_applySection hafter hdone
  have hsize := congrArg List.length houtcomes
  simp only [List.length_map, List.length_append, List.length_cons,
    Array.length_toList] at hsize
  -- No section behind this one is gone, for each of them has an outcome of its
  -- own.
  obtain rfl : rest = sections :=
    hrest.eq_of_length (by have := hrest.length_le; omega)
  rw [hwhole rfl, List.nil_append] at hlines
  rw [← hafter] at hdone hlines
  exact (ready_applySection_iff hskip hp hdone).1 hlines

theorem applySections_apart_iff {sections : List WrittenSection}
    {before : List Line} (hskip : settings.skipApplied = true)
    (hbefore : ∀ line ∈ before, Bytes.after? Marker.old line = none)
    (hnotes : ∀ w ∈ sections, w.notes = [])
    (hterminated : ∀ w ∈ sections, ∀ line ∈ w.lines, line.Terminated)
    (hfailure : r.failure? = none)
    (hr : r.patch.Yields (before ++ sections.flatMap WrittenSection.lines))
    (hfine : (r.applySections settings).failure? = none) :
    ((r.applySections settings).files.toList.map outcome =
        r.files.toList.map outcome ++ sections.map (due settings) ↔
      SectionsClose settings sections r.tree) ∧
    (r.Apart settings sections ↔ SectionsClose settings sections r.tree) := by
  induction sections generalizing r before with
  | nil =>
      obtain ⟨p, hnone⟩ := Section.next_of_notes settings.stripLevel hr
        (by simpa using hbefore)
      rw [applySections_of_none hnone]
      simp [Apart, SectionsClose, Run.say]
  | cons w sections ih =>
      obtain ⟨p, after, hp, hnext, hafter, hdone, hrun⟩ :=
        exists_section hbefore (hnotes w (by simp)) hr hfine
      rw [hrun] at hfine ⊢
      have hready : after.patch.ready = sections.flatMap WrittenSection.lines ↔
          (sections ≠ [] → w.Closes settings r.tree) := by
        rw [← hafter] at hdone ⊢
        exact ready_applySection_iff hskip hp hdone
      -- From where the next section is left, the sections behind it decide.
      have hrest : (sections ≠ [] → w.Closes settings r.tree) →
          ((after.applySections settings).files.toList.map outcome =
              r.files.toList.map outcome ++ (w :: sections).map (due settings) ↔
            SectionsClose settings sections
              (applyPatch settings w.lines.flatten r.tree).tree) ∧
          (after.Apart settings sections ↔
            SectionsClose settings sections
              (applyPatch settings w.lines.flatten r.tree).tree) := by
        intro hcloses
        have halone := applySection_alone hfailure hp (hnotes w (by simp))
          (hterminated w (by simp)) (by rw [hafter]; exact hdone) hcloses
        rw [hafter] at halone
        obtain ⟨htree, result, hfiles, hpath, hhunks⟩ := halone
        have houtcome : outcome result = due settings w := by
          rw [outcome, hpath, hhunks, due]
        have hwhole := ih (List.forall_mem_nil _)
          (fun v hv => hnotes v (by simp [hv]))
          (fun v hv => hterminated v (by simp [hv])) hdone
            (.inl (hready.2 hcloses)) hfine
        rw [htree, hfiles] at hwhole
        simpa [houtcome] using hwhole
      refine ⟨⟨?_, ?_⟩, ?_, ?_⟩
      · intro houtcomes
        have hcloses :=
          closes_of_outcomes hskip hnotes hp hafter hdone hfine houtcomes
        exact ⟨hcloses, (hrest hcloses).1.1 houtcomes⟩
      · rintro ⟨hcloses, hsections⟩
        exact (hrest hcloses).1.2 hsections
      · rintro ⟨p', hnext', hleft, hapart⟩
        obtain rfl : p = p' := (Prod.mk.inj (hnext.symm.trans hnext')).2
        rw [hafter] at hleft hapart
        have hcloses := hready.1 hleft
        exact ⟨hcloses, (hrest hcloses).2.1 hapart⟩
      · rintro ⟨hcloses, hsections⟩
        refine ⟨p, hnext, ?_, ?_⟩
        · rw [hafter]
          exact hready.2 hcloses
        · rw [hafter]
          exact (hrest hcloses).2.2 hsections

end Run

/-- Sections stay apart where they close. If lines may count as applied, a run
that is not given up has one outcome for each pair of marker lines, in order,
under the name of the pair and with the number of hunks behind it, exactly if
every section but the last one closes, and exactly then it takes no line of a
section for one of another. -/
theorem applyPatch_apart_iff (settings : Settings) (p : WrittenPatch)
    (tree : FileTree) (hskip : settings.skipApplied = true)
    (hnotes : ∀ w ∈ p.sections, w.notes = [])
    (hfine : (applyPatch settings p.text tree).failure? = none) :
    ((applyPatch settings p.text tree).files.toList.map Run.outcome =
        p.sections.map (Run.due settings) ↔
          SectionsClose settings p.sections tree) ∧
      (Run.Apart settings p.sections { tree, patch := .ofBytes p.text } ↔
        SectionsClose settings p.sections tree) := by
  have h := Run.applySections_apart_iff
    (r := { tree, patch := .ofBytes p.text }) hskip
    p.preamble_unmarked hnotes p.terminated rfl (.inl p.lines_text) hfine
  simpa [applyPatch] using h

/-- The file to be deleted is there, and the section of the other one
is found. -/
theorem applyPatch_apart_deleteThenCreate :
    (applyPatch { directory := ⟨.working, []⟩, skipApplied := true }
      deleteThenCreate.text
        .oneFile).files.toList.map Run.outcome =
      [(⟨.working, [Bytes.ascii "f"]⟩, 1),
        (⟨.working, [Bytes.ascii "g"]⟩, 1)] := by
  have h :=
    (applyPatch_apart_iff { directory := ⟨.working, []⟩, skipApplied := true }
    deleteThenCreate .oneFile rfl (by decide) (by decide +kernel)).1.2
      (by decide +kernel)
  exact h.trans (by decide)

/-- Without that file the marker line of the section of `g` is taken for a line
to delete, and `g` is not created. -/
theorem not_forall_apart :
    ¬ ∀ (settings : Settings) (p : WrittenPatch) (tree : FileTree),
      settings.skipApplied = true → (∀ w ∈ p.sections, w.notes = []) →
      (applyPatch settings p.text tree).failure? = none →
      (applyPatch settings p.text tree).files.toList.map Run.outcome =
        p.sections.map (Run.due settings) := by
  intro h
  have hdue := h { directory := ⟨.working, []⟩, skipApplied := true }
    deleteThenCreate
    { entries := [([Bytes.ascii "w"], .directory), ([], .directory)]
      working := [Bytes.ascii "w"] }
    rfl (by decide) (by decide +kernel)
  exact absurd hdue (by decide +kernel)

end UnifiedPatch
