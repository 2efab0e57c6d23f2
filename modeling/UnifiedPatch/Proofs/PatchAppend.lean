import UnifiedPatch.Proofs.SectionRun

/-!
# Patches compose

Two patches one after the other do what the first and then the second do, if
the first is well-formed and the second starts with a section. The boundary
between them is not marked: `--- name` deletes a line wherever a deletion may
stand. That it is found all the same is the statement about single sections,
that hunks leave exactly what is behind them, with a well-formed patch in place
of the hunks.

The second patch may be anything. For it the argument is another one. The run on
the joined patch and the run on the second alone have the same lines left, at
the same tree, and the lines left are all that a run sees of a patch; how many
of them were taken before, and whether the first was handed back, shows nowhere.
So the two stay in step up to whatever end there is (`Extends.applySections`).
-/

namespace UnifiedPatch

namespace Splice

/-! ## A machine sees only the lines that are left -/

/-- The machines agree, and have the same lines of the patch left. -/
def SameLines (s t : Splice) : Prop :=
  ∃ p : LineStream, p.ready = s.patch.ready ∧ t = { s with patch := p }

theorem sameLines_intro (s : Splice) {p q : LineStream}
    (h : q.ready = p.ready) :
    SameLines { s with patch := p } { s with patch := q } := ⟨q, h, rfl⟩

/-- A line just read can be handed back in both. -/
theorem handBack_sameLines (s : Splice) {p q : LineStream} {line : Line}
    {rest : List Line} (hp : p.ready = line :: rest)
    (hq : q.ready = line :: rest) (back : Line) (phase : Phase)
    (r : LineStream) :
    SameLines (s.handBack (p.skip 1) back phase)
      ({ s with patch := r }.handBack (q.skip 1) back phase) := by
  obtain ⟨p', hp', hready⟩ := LineStream.unread?_skip_one hp back
  obtain ⟨q', hq', hready'⟩ := LineStream.unread?_skip_one hq back
  unfold handBack
  rw [hp', hq']
  exact ⟨q', hready'.trans hready.symm, rfl⟩

theorem failAt_sameLines (s : Splice) {p q : LineStream} {line : Line}
    {rest : List Line} (hp : p.ready = line :: rest)
    (hq : q.ready = line :: rest) (back : Line) (r : LineStream) :
    SameLines (s.failAt (p.skip 1) back)
      ({ s with patch := r }.failAt (q.skip 1) back) := by
  obtain ⟨p', hp', hready⟩ := LineStream.unread?_skip_one hp back
  obtain ⟨q', hq', hready'⟩ := LineStream.unread?_skip_one hq back
  unfold failAt
  rw [hp', hq']
  exact ⟨q', hready'.trans hready.symm, rfl⟩

theorem emit_sameLines (s : Splice) {p q : LineStream} {line : Line}
    {rest : List Line} (hp : p.ready = line :: rest)
    (hq : q.ready = line :: rest) (b : BodyLine) (ends : Tally)
    (r : LineStream) :
    SameLines (s.emit (p.skip 1) b ends)
      ({ s with patch := r }.emit (q.skip 1) b ends) := by
  unfold emit
  simp only []
  split
  · exact handBack_sameLines s hp hq b.text .header r
  · exact ⟨q.skip 1, by simp [hp, hq], rfl⟩

variable (settings : Settings) (name : Bytes) {s t : Splice}

theorem stepHeader_sameLines (s : Splice) {q : LineStream}
    (hq : q.ready = s.patch.ready) :
    SameLines (s.stepHeader settings)
      ({ s with patch := q }.stepHeader settings) := by
  unfold stepHeader
  cases hp : s.patch.ready with
  | nil =>
      rw [hp] at hq
      rw [LineStream.next?_eq_none_iff.2 hp, LineStream.next?_eq_none_iff.2 hq]
      exact ⟨q, hq.trans hp.symm, rfl⟩
  | cons line rest =>
      rw [hp] at hq
      have hskip : (q.skip 1).ready = (s.patch.skip 1).ready := by simp [hp, hq]
      rw [LineStream.next?_eq_skip hp, LineStream.next?_eq_skip hq]
      simp only []
      split
      · exact ⟨q.skip 1, hskip, rfl⟩
      · exact handBack_sameLines s hp hq line .trailing q
      · exact ⟨q.skip 1, hskip, rfl⟩

theorem stepSkipping_sameLines (hunk : Hunk) (seen : Tally) (s : Splice)
    {q : LineStream} (hq : q.ready = s.patch.ready) :
    SameLines (s.stepSkipping settings hunk seen)
      ({ s with patch := q }.stepSkipping settings hunk seen) := by
  unfold stepSkipping
  cases hp : s.patch.ready with
  | nil =>
      rw [hp] at hq
      rw [LineStream.next?_eq_none_iff.2 hp, LineStream.next?_eq_none_iff.2 hq]
      exact ⟨q, hq.trans hp.symm, rfl⟩
  | cons line rest =>
      rw [hp] at hq
      rw [LineStream.next?_eq_skip hp, LineStream.next?_eq_skip hq]
      simp only []
      split
      · exact failAt_sameLines s hp hq line q
      · next b _ =>
          split
          · exact failAt_sameLines s hp hq b.text q
          · exact ⟨q.skip 1, by simp [hp, hq], rfl⟩

theorem stepBody_sameLines (hunk : Hunk) (ends seen : Tally) (s : Splice)
    {q : LineStream} (hq : q.ready = s.patch.ready) :
    SameLines (s.stepBody settings name hunk ends seen)
      ({ s with patch := q }.stepBody settings name hunk ends seen) := by
  unfold stepBody
  cases hp : s.patch.ready with
  | nil =>
      rw [hp] at hq
      rw [LineStream.next?_eq_none_iff.2 hp, LineStream.next?_eq_none_iff.2 hq]
      exact ⟨q, hq.trans hp.symm, rfl⟩
  | cons line rest =>
      rw [hp] at hq
      have hskip : (q.skip 1).ready = (s.patch.skip 1).ready := by simp [hp, hq]
      rw [LineStream.next?_eq_skip hp, LineStream.next?_eq_skip hq]
      simp only []
      split
      · exact handBack_sameLines s hp hq line .header q
      · next b _ =>
          split
          · exact emit_sameLines _ hp hq b ends q
          · split
            · exact handBack_sameLines s hp hq b.text .header q
            · -- The line that is read from the source is the same in both.
              cases s.source.next? with
              | none =>
                  simp only [Option.map_none]
                  split
                  · split
                    · exact ⟨q.skip 1, hskip, rfl⟩
                    · exact emit_sameLines _ hp hq b ends q
                  · split
                    · exact ⟨q.skip 1, hskip, rfl⟩
                    · exact ⟨q.skip 1, hskip, rfl⟩
              | some found =>
                  simp only [Option.map_some]
                  split
                  · split
                    · exact ⟨q.skip 1, hskip, rfl⟩
                    · exact emit_sameLines _ hp hq b ends q
                  · split
                    · exact ⟨q.skip 1, hskip, rfl⟩
                    · exact ⟨q.skip 1, hskip, rfl⟩

theorem step_sameLines (h : SameLines s t) :
    SameLines (s.step settings name) (t.step settings name) := by
  obtain ⟨q, hq, rfl⟩ := h
  unfold step
  simp only []
  split
  · exact stepHeader_sameLines settings s hq
  · next hunk _ =>
      refine ⟨q, ?_, stepLeading_patch name hunk s q s.phase⟩
      unfold stepLeading
      simp only []
      split
      · exact hq
      · split
        · exact hq
        · split <;> exact hq
  · exact stepBody_sameLines settings name _ _ _ s hq
  · exact stepSkipping_sameLines settings _ _ s hq
  · unfold stepTrailing
    simp only []
    split <;> exact ⟨q, hq, rfl⟩
  · exact ⟨q, hq, rfl⟩
  · exact ⟨q, hq, rfl⟩

theorem run_sameLines (h : SameLines s t) :
    SameLines (s.run settings name) (t.run settings name) := by
  fun_induction run settings name s generalizing t with
  | case1 s hlive ih =>
      rw [← run_step settings name t]
      exact ih (step_sameLines settings name h)
  | case2 s hlive =>
      obtain ⟨q, hq, rfl⟩ := h
      rw [run_of_not_isLive settings name (by simpa using hlive)]
      exact ⟨q, hq, rfl⟩

end Splice

namespace Run

variable {settings : Settings} {notices : List Notice}
  {files : Array FileResult} {r r' : Run}

/-! ## Runs in step -/

/-- A section found by both runs leaves both with the same lines. -/
theorem Extends.applySection_sameReady (h : Extends notices files r r')
    (settings : Settings) (name : Bytes) {p q : LineStream}
    (hq : q.ready = p.ready) :
    Extends notices files ((r.entering name p).applySection settings name)
        ((r'.entering name q).applySection settings name) ∧
      (((r.entering name p).applySection settings name).failure? = none →
        ((r'.entering name q).applySection settings name).patch.ready =
          ((r.entering name p).applySection settings name).patch.ready) := by
  have hwork : ∀ source, ((Splice.start p source).run settings name).SameLines
      ((Splice.start q source).run settings name) :=
    fun source => Splice.run_sameLines settings name
      (Splice.sameLines_intro (Splice.start p source) hq)
  have hsection : Extends notices files
    ((r.entering name p).applySection settings name)
      ((r'.entering name q).applySection settings name) := by
    refine (h.entering name p q).applySection fun o _ => ?_
    obtain ⟨left, -, hrun⟩ := hwork o.source
    exact ⟨left, hrun⟩
  refine ⟨hsection, fun hfine => ?_⟩
  obtain ⟨o, -, hopen, -, hleft, -⟩ := exists_work_of_fine hfine
  obtain ⟨o', -, hopen', -, hleft', -⟩ :=
    exists_work_of_fine (hsection.failure?.trans hfine)
  rw [show (r'.entering name q).tree = (r.entering name p).tree from h.tree,
    hopen] at hopen'
  obtain rfl := Except.ok.inj hopen'
  obtain ⟨left, hready, hrun⟩ := hwork o.source
  rw [hleft, hleft']
  exact (congrArg (fun work : Splice => work.patch.ready) hrun).trans hready

/-- Runs with the same section before them stay together to the end. -/
theorem Extends.applySections (h : Extends notices files r r')
    (settings : Settings)
    (hnext : Section.SameNext settings.stripLevel r.patch r'.patch) :
    Extends notices files (r.applySections settings)
      (r'.applySections settings) := by
  fun_induction Run.applySections settings r generalizing r' with
  | case1 r e p hfound =>
      obtain ⟨q, hq, hfound'⟩ := hnext.exists_next hfound
      rw [applySections_of_error hfound']
      exact (h.withPatch p q).fail _
  | case2 r p hfound =>
      obtain ⟨q, hq, hfound'⟩ := hnext.exists_next hfound
      rw [applySections_of_none hfound']
      exact (h.withPatch p q).remark _ _
  | case3 r name p hfound next why =>
      rename_i hwhy
      obtain ⟨q, hq, hfound'⟩ := hnext.exists_next hfound
      have hsection := (h.applySection_sameReady settings name hq).1
      rw [applySections_of_some hfound', if_pos]
      · exact hsection
      · rw [hsection.failure?]
        exact congrArg Option.isSome hwhy
  | case4 r name p hfound next hnone =>
      rename_i ih
      obtain ⟨q, hq, hfound'⟩ := hnext.exists_next hfound
      obtain ⟨hsection, hleft⟩ :=
        h.applySection_sameReady settings name hq
      rw [applySections_of_some hfound', if_neg]
      · exact ih hsection (Section.sameNext_of_ready (hleft hnone).symm)
      · rw [hsection.failure?]
        exact fun hsome =>
          absurd (hsome.symm.trans (congrArg Option.isSome hnone)) (by simp)

/-! ## A well-formed patch and what follows it -/

/-- What is behind the hunks of a section does not look like one more. -/
theorem head_not_header (w : WrittenSection) (sections : List WrittenSection)
    {more : List Line}
    (hmore : ∀ line ∈ more.head?, (Bytes.after? Marker.old line).isSome) :
    ∀ line ∈ (w.notes ++ (sections.flatMap WrittenSection.lines ++ more)).head?,
      Hunk.isHeader line = false := by
  have hnotes := w.head_notes
  cases hw : w.notes with
  | cons note notes =>
      rw [hw] at hnotes
      exact hnotes
  | nil =>
      intro line hline
      refine Hunk.isHeader_of_marked ?_
      cases sections with
      | nil => exact hmore line hline
      | cons next sections =>
          obtain rfl : next.oldLine = line := by
            simpa [WrittenSection.lines] using hline
          exact next.oldLine_marked

/-- Two runs at a written section, with different things behind its hunks. -/
theorem applySection_written (name : Bytes) {w : WrittenSection}
    {more more' : List Line} {p p' : LineStream}
    (hskip : settings.skipApplied = false) (h : Extends notices files r r')
    (hp : p.ready = w.hunkLines ++ more) (hp' : p'.ready = w.hunkLines ++ more')
    (hmore : ∀ line ∈ more.head?, Hunk.isHeader line = false)
    (hmore' : ∀ line ∈ more'.head?, Hunk.isHeader line = false) :
    Extends notices files ((r.entering name p).applySection settings name)
        ((r'.entering name p').applySection settings name) ∧
      (((r.entering name p).applySection settings name).failure? = none →
        ((r.entering name p).applySection settings name).patch.Yields more ∧
          ((r'.entering name p').applySection settings name).patch.Yields
            more') := by
  have hwork : ∀ source, ∃ q,
      (((Splice.start p source).overSection settings name w.hunks).failure? =
        none →
        q.Yields more) ∧
      (Splice.start p source).run settings name =
        { (Splice.start p source).overSection settings name w.hunks with
          patch := q } :=
    fun source => Splice.run_overSection settings name
      (fun _ => Splice.told_of_not_skip settings name hskip _ _ _) rfl
      (.inl hp) hmore
  have hwork' : ∀ source, ∃ q,
      (((Splice.start p' source).overSection settings name w.hunks).failure? =
        none →
        q.Yields more') ∧
      (Splice.start p' source).run settings name =
        { (Splice.start p' source).overSection settings name w.hunks with
          patch := q } :=
    fun source => Splice.run_overSection settings name
      (fun _ => Splice.told_of_not_skip settings name hskip _ _ _) rfl
      (.inl hp') hmore'
  have hsection := h.applySection_over w.hunks fun o _ =>
    ⟨(hwork o.source).imp fun _ h => h.2,
      (hwork' o.source).imp fun _ h => h.2⟩
  refine ⟨hsection, fun hfine => ⟨?_, ?_⟩⟩
  · obtain ⟨o, -, -, hdone, hleft, -⟩ := exists_work_of_fine hfine
    obtain ⟨q, hq, hrun⟩ := hwork o.source
    rw [hleft]
    rw [show (r.entering name p).patch = p from rfl, hrun] at hdone ⊢
    exact hq hdone
  · obtain ⟨o, -, -, hdone, hleft, -⟩ :=
      exists_work_of_fine (hsection.failure?.trans hfine)
    obtain ⟨q, hq, hrun⟩ := hwork' o.source
    rw [hleft]
    rw [show (r'.entering name p').patch = p' from rfl, hrun] at hdone ⊢
    exact hq hdone

/-- Sections alone and with more behind them. The run alone ends the run of both
or leaves it where a run on what is behind would begin. -/
theorem applySections_append {sections : List WrittenSection}
    {before : List Line} {second : Bytes} (hskip : settings.skipApplied = false)
    (hsecond : ∀ line ∈ second.lines.head?,
      (Bytes.after? Marker.old line).isSome)
    (hbefore : ∀ line ∈ before, Bytes.after? Marker.old line = none)
    (h : Extends [] #[] r r') (hfine : r.failure? = none)
    (hr : r.patch.Yields (before ++ sections.flatMap WrittenSection.lines))
    (hr' : r'.patch.Yields
      (before ++ (sections.flatMap WrittenSection.lines ++ second.lines))) :
    ((r.applySections settings).failure? ≠ none →
      Extends [] #[] (r.applySections settings) (r'.applySections settings)) ∧
    ((r.applySections settings).failure? = none →
      Extends (r.applySections settings).said.notices
        (r.applySections settings).files
        (applyPatch settings second (r.applySections settings).tree)
        (r'.applySections settings)) := by
  induction sections generalizing r r' before with
  | nil =>
      rw [List.flatMap_nil, List.append_nil] at hr
      obtain ⟨p, hend⟩ := Section.next_of_notes settings.stripLevel hr hbefore
      rw [applySections_of_none hend]
      refine ⟨fun hfail => absurd hfine hfail, fun _ => ?_⟩
      -- The run on what is behind begins with the tree and the lines of the
      -- joined one.
      have hstart : Extends r.said.notices r.files
          { tree := r.tree, patch := .ofBytes second } r' := by
        refine ⟨h.tree, ?_, ?_, ?_⟩
        · rw [h.notices, show Transcript.notices #[] = [] from rfl,
            List.append_nil, List.nil_append]
        · rw [h.files, Array.append_empty, Array.empty_append]
        · rw [h.failure?, hfine]
      have hrest := hstart.applySections settings
        (Section.sameNext_of_yields (.inl (LineStream.ready_ofBytes second)) hr'
          hbefore hsecond)
      rw [show (({ r with patch := p } : Run).say
        #[.remark (.patchDone r.files.size
          r.failedFiles.length)]).said.notices = r.said.notices
        from Transcript.notices_push_remark r.said _]
      exact hrest
  | cons w sections ih =>
      have hlines : ∀ more : List Line,
          (w :: sections).flatMap WrittenSection.lines ++ more =
            w.oldLine :: w.newLine ::
              (w.hunkLines ++ (w.notes ++
                (sections.flatMap WrittenSection.lines ++ more))) := by
        intro more
        simp [WrittenSection.lines]
      rw [hlines] at hr'
      rw [← List.append_nil ((w :: sections).flatMap WrittenSection.lines),
        hlines] at hr
      obtain ⟨p, hp, hnext⟩ :=
        Section.next_of_yields settings.stripLevel hr hbefore
      obtain ⟨p', hp', hnext'⟩ :=
        Section.next_of_yields settings.stripLevel hr' hbefore
      obtain ⟨hsection, hleft⟩ := applySection_written
        (w.name settings.stripLevel) hskip h
        hp hp' (head_not_header w sections (by simp))
          (head_not_header w sections hsecond)
      rw [applySections_of_some hnext, applySections_of_some hnext',
        hsection.failure?]
      cases hfail :
        ((r.entering (w.name settings.stripLevel) p).applySection settings
        (w.name settings.stripLevel)).failure? with
      | some why =>
          rw [Option.isSome_some, if_pos rfl, if_pos rfl]
          refine ⟨fun _ => hsection, fun hnone => ?_⟩
          rw [hfail] at hnone
          exact absurd hnone (by simp)
      | none =>
          rw [Option.isSome_none, if_neg (by simp), if_neg (by simp)]
          obtain ⟨hrest, hrest'⟩ := hleft hfail
          rw [List.append_nil] at hrest
          exact ih w.notes_unmarked hsection hfail hrest hrest'

end Run

/-- A well-formed patch and another one behind it do what the two do one
after the other, each section of the first being done with before the
second begins. -/
theorem applyPatch_append (settings : Settings) (first : WrittenPatch)
    (second : Bytes) (tree : FileTree) (hskip : settings.skipApplied = false)
    (hsecond : ∀ line ∈ second.lines.head?,
      (Bytes.after? Marker.old line).isSome) :
    ((applyPatch settings first.text tree).failure? ≠ none →
      Run.Extends [] #[] (applyPatch settings first.text tree)
        (applyPatch settings (first.text ++ second) tree)) ∧
    ((applyPatch settings first.text tree).failure? = none →
      Run.Extends (applyPatch settings first.text tree).said.notices
        (applyPatch settings first.text tree).files
        (applyPatch settings second (applyPatch settings first.text tree).tree)
        (applyPatch settings (first.text ++ second) tree)) := by
  have halone : (LineStream.ofBytes first.text).ready =
      first.preamble ++ first.sections.flatMap WrittenSection.lines := by
    rw [LineStream.ready_ofBytes, first.lines_text]
    rfl
  have hjoined : (LineStream.ofBytes (first.text ++ second)).ready =
      first.preamble ++
        (first.sections.flatMap WrittenSection.lines ++ second.lines) := by
    rw [LineStream.ready_ofBytes, first.lines_text_append, WrittenPatch.lines,
      List.append_assoc]
  exact Run.applySections_append hskip hsecond first.preamble_unmarked
    ⟨rfl, rfl, rfl, rfl⟩ rfl
    (.inl halone) (.inl hjoined)

/-- The failed hunk ends where the section of `g` begins, and that one
is applied. -/
theorem applyPatch_append_misfit :
    (applyPatch { directory := ⟨.working, []⟩ }
        (misfit.text ++ Bytes.ascii "--- a/g\n+++ b/g\n@@ -0,0 +1 @@\n+z\n")
        .oneFile).said.notices =
      [.patchingFile (Bytes.ascii "f"), .hunkFailed 1 1, .fileFailed 1 1,
        .patchingFile (Bytes.ascii "g")] := by
  have h := (applyPatch_append { directory := ⟨.working, []⟩ } misfit
    (Bytes.ascii "--- a/g\n+++ b/g\n@@ -0,0 +1 @@\n+z\n") .oneFile rfl
    (by decide)).2
      (by decide +kernel)
  exact h.notices.trans (by decide +kernel)

end UnifiedPatch
