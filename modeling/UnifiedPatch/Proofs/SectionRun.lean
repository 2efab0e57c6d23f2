import UnifiedPatch.Proofs.SectionContract
import UnifiedPatch.Proofs.SpliceSection

/-!
# The part of a section in a run

A section gets its lines from a search and its target from the tree, and hands
both on. What it adds to a run is told by two machines that agree but for the
patch: with the same tree they leave the same tree, say the same, and count the
same files, whatever was said and counted before (`Extends.applySection`). So
two runs that are at the same tree with the same section in front of them stay
together, and what the patch holds behind the section shows only in what the
next search finds.

The search passes over notes and stops at a marked line. A blank put back before
a note does not change that, so it may start from any of the two readings that a
section leaves (`seekOld_of_yields`).
-/

namespace UnifiedPatch

theorem Transcript.notices_append (t u : Transcript) :
    notices (t ++ u) = t.notices ++ u.notices := by
  simp [notices]

/-! ## The search for a section -/

namespace BodyLine

theorem after?_old_restoreBlank (line : Line) :
    Bytes.after? Marker.old (restoreBlank line) =
      Bytes.after? Marker.old line := by
  unfold restoreBlank
  split
  · next h => rcases h with rfl | rfl <;> rfl
  · rfl

theorem restoreBlank_of_marked {line : Line}
    (h : (Bytes.after? Marker.old line).isSome) :
    restoreBlank line = line := by
  refine if_neg ?_
  rintro (rfl | rfl) <;> simp [Bytes.after?, Marker.old, Bytes.ascii] at h

end BodyLine

namespace LineStream

theorem Yields.ready_marked {s : LineStream} {line : Line} {more : List Line}
    (h : s.Yields (line :: more))
    (hmarked : (Bytes.after? Marker.old line).isSome) :
    s.ready = line :: more := by
  rcases h with h | h
  · exact h
  · rw [h, restoreFirst, BodyLine.restoreBlank_of_marked hmarked]

/-- The first line as it was or with its blank, the others as they were. -/
theorem Yields.exists_cons {s : LineStream} {line : Line} {more : List Line}
    (h : s.Yields (line :: more)) :
    ∃ first, s.ready = first :: more ∧
      Bytes.after? Marker.old first = Bytes.after? Marker.old line := by
  rcases h with h | h
  · exact ⟨line, h, rfl⟩
  · exact ⟨_, h, BodyLine.after?_old_restoreBlank line⟩

end LineStream

namespace Section

theorem seekOld_of_unmarked {s : LineStream} {line : Line} {more : List Line}
    (hs : s.ready = line :: more)
    (hline : Bytes.after? Marker.old line = none) :
    seekOld s = seekOld (s.skip 1) := by
  conv => lhs; rw [seekOld, LineStream.next?_eq_skip hs]
  simp [hline]

theorem seekOld_of_yields {s : LineStream} {notes more : List Line}
    (hs : s.Yields (notes ++ more))
    (hnotes : ∀ line ∈ notes, Bytes.after? Marker.old line = none)
    (hmore : ∀ line ∈ more.head?, (Bytes.after? Marker.old line).isSome) :
    ∃ p : LineStream, p.ready = more.tail ∧ seekOld s = (more.head?, p) := by
  induction notes generalizing s with
  | nil =>
      rw [List.nil_append] at hs
      cases more with
      | nil =>
          refine ⟨s, hs.ready_nil, ?_⟩
          rw [seekOld, LineStream.next?_eq_none_iff.2 hs.ready_nil]
          rfl
      | cons line more =>
          have hmarked := hmore line rfl
          have hready := hs.ready_marked hmarked
          refine ⟨s.skip 1, by simp [hready], ?_⟩
          rw [seekOld, LineStream.next?_eq_skip hready]
          exact if_pos hmarked
  | cons note notes ih =>
      obtain ⟨first, hready, hfirst⟩ := LineStream.Yields.exists_cons hs
      rw [hnotes note (by simp)] at hfirst
      obtain ⟨p, hp, hseek⟩ := ih (s := s.skip 1) (.inl (by simp [hready]))
        fun line hline => hnotes line (by simp [hline])
      exact ⟨p, hp, (seekOld_of_unmarked hready hfirst).trans hseek⟩

/-- The search finds the section that is behind the notes. -/
theorem next_of_yields (level : Int) {s : LineStream} {notes more : List Line}
    {w : WrittenSection}
    (hs : s.Yields (notes ++ (w.oldLine :: w.newLine :: more)))
    (hnotes : ∀ line ∈ notes, Bytes.after? Marker.old line = none) :
    ∃ p : LineStream, p.ready = more ∧
      next level s = (.ok (some (w.name level)), p) := by
  obtain ⟨p, hp, hseek⟩ :=
    seekOld_of_yields hs hnotes (by simpa using w.oldLine_marked)
  refine ⟨p.skip 1, by simp [hp], ?_⟩
  unfold next
  simp only [hseek, List.head?_cons,
    LineStream.next?_eq_skip (show p.ready = w.newLine :: more
    from hp), w.name?_eq]

theorem next_of_notes (level : Int) {s : LineStream} {notes : List Line}
    (hs : s.Yields notes)
    (hnotes : ∀ line ∈ notes, Bytes.after? Marker.old line = none) :
    ∃ p : LineStream, next level s = (.ok none, p) := by
  rw [← List.append_nil notes] at hs
  obtain ⟨p, -, hseek⟩ := seekOld_of_yields hs hnotes (by simp)
  refine ⟨p, ?_⟩
  unfold next
  rw [hseek]
  rfl

/-- Two searches with the same outcome and the same lines left. -/
def SameNext (level : Int) (s t : LineStream) : Prop :=
  (next level s).1 = (next level t).1 ∧
    (next level s).2.ready = (next level t).2.ready

theorem SameNext.exists_next {level : Int} {s t p : LineStream}
    {found : Except FatalError (Option Bytes)} (h : SameNext level s t)
    (hs : next level s = (found, p)) :
    ∃ q : LineStream, q.ready = p.ready ∧ next level t = (found, q) := by
  obtain ⟨hfound, hleft⟩ := h
  rw [hs] at hfound hleft
  exact ⟨_, hleft.symm, Prod.ext hfound.symm rfl⟩

theorem sameNext_of_seekOld {level : Int} {s t : LineStream}
    (hfound : (seekOld s).1 = (seekOld t).1)
    (hleft : (seekOld s).2.ready = (seekOld t).2.ready) :
    SameNext level s t := by
  unfold SameNext next
  cases hs : seekOld s with
  | mk found p =>
      cases ht : seekOld t with
      | mk found' q =>
          rw [hs, ht] at hfound hleft
          obtain rfl : found = found' := hfound
          cases found with
          | none => exact ⟨rfl, hleft⟩
          | some line =>
              simp only [] at hleft ⊢
              cases hp : p.ready with
              | nil =>
                  rw [hp] at hleft
                  rw [LineStream.next?_eq_none_iff.2 hp,
                    LineStream.next?_eq_none_iff.2 hleft.symm]
                  exact ⟨rfl, hp.trans hleft⟩
              | cons newLine more =>
                  rw [hp] at hleft
                  rw [LineStream.next?_eq_skip hp,
                    LineStream.next?_eq_skip hleft.symm]
                  simp only []
                  split <;> simp [hp, ← hleft]

theorem seekOld_congr {s t : LineStream} (h : s.ready = t.ready) :
    (seekOld s).1 = (seekOld t).1 ∧
    (seekOld s).2.ready = (seekOld t).2.ready := by
  generalize hlines : s.ready = lines at h
  induction lines generalizing s t with
  | nil =>
      rw [seekOld, seekOld, LineStream.next?_eq_none_iff.2 hlines,
        LineStream.next?_eq_none_iff.2 h.symm]
      exact ⟨rfl, hlines.trans h⟩
  | cons line lines ih =>
      rw [seekOld, seekOld, LineStream.next?_eq_skip hlines,
        LineStream.next?_eq_skip h.symm]
      have hs : (s.skip 1).ready = lines := by simp [hlines]
      have ht : lines = (t.skip 1).ready := by simp [← h]
      simp only []
      split
      · exact ⟨rfl, hs.trans ht⟩
      · exact ih hs ht

theorem sameNext_of_ready {level : Int} {s t : LineStream}
    (h : s.ready = t.ready) :
    SameNext level s t :=
  sameNext_of_seekOld (seekOld_congr h).1 (seekOld_congr h).2

/-- Notes before a search make no difference to it. -/
theorem sameNext_of_yields {level : Int} {s t : LineStream}
    {notes more : List Line} (hs : s.Yields more)
    (ht : t.Yields (notes ++ more))
    (hnotes : ∀ line ∈ notes, Bytes.after? Marker.old line = none)
    (hmore : ∀ line ∈ more.head?, (Bytes.after? Marker.old line).isSome) :
    SameNext level s t := by
  obtain ⟨p, hp, hseek⟩ :=
    seekOld_of_yields (show s.Yields ([] ++ more) from hs) (by simp) hmore
  obtain ⟨q, hq, hseek'⟩ := seekOld_of_yields ht hnotes hmore
  refine sameNext_of_seekOld ?_ ?_
  · rw [hseek, hseek']
  · rw [hseek, hseek']
    exact hp.trans hq.symm

end Section

/-! ## What a section adds to a run -/

namespace Run

open Target

/-- A run that is another one with notices and results before it. -/
structure Extends (notices : List Notice) (files : Array FileResult)
    (r r' : Run) : Prop where
  tree : r'.tree = r.tree
  notices : r'.said.notices = notices ++ r.said.notices
  files : r'.files = files ++ r.files
  failure? : r'.failure? = r.failure?

variable {settings : Settings} {name : Bytes} {notices : List Notice}
  {files : Array FileResult} {r r' : Run}

namespace Extends

theorem say (h : Extends notices files r r') (said : Transcript) :
    Extends notices files (r.say said) (r'.say said) := by
  refine ⟨h.tree, ?_, h.files, h.failure?⟩
  rw [Run.say, Run.say, Transcript.notices_append, Transcript.notices_append,
    h.notices, List.append_assoc]

theorem fail (h : Extends notices files r r') (why : Failure) :
    Extends notices files (r.fail why) (r'.fail why) :=
  ⟨h.tree, h.notices, h.files, rfl⟩

theorem move (h : Extends notices files r r') (tree : FileTree)
    (p p' : LineStream) :
    Extends notices files { r with tree := tree, patch := p }
      { r' with tree := tree, patch := p' } :=
  ⟨rfl, h.notices, h.files, h.failure?⟩

theorem withPatch (h : Extends notices files r r') (p p' : LineStream) :
    Extends notices files { r with patch := p } { r' with patch := p' } :=
  ⟨h.tree, h.notices, h.files, h.failure?⟩

/-- Remarks do not count. -/
theorem remark (h : Extends notices files r r') (a b : Remark) :
    Extends notices files (r.say #[.remark a]) (r'.say #[.remark b]) := by
  have hnone : ∀ c : Remark, Transcript.notices #[.remark c] = [] :=
    fun _ => rfl
  refine ⟨h.tree, ?_, h.files, h.failure?⟩
  rw [Run.say, Run.say, Transcript.notices_append, Transcript.notices_append,
    hnone, hnone, List.append_nil, List.append_nil, h.notices]

theorem push (h : Extends notices files r r') (result : FileResult) :
    Extends notices files { r with files := r.files.push result }
      { r' with files := r'.files.push result } := by
  refine ⟨h.tree, h.notices, ?_, h.failure?⟩
  rw [show ({ r' with files := r'.files.push result } : Run).files =
    r'.files.push result from rfl, h.files]
  simp

theorem finishSection (h : Extends notices files r r') (target : Target)
    (work : Splice) :
    Extends notices files (r.finishSection settings target work)
      (r'.finishSection settings target work) := by
  unfold Run.finishSection
  rw [h.tree]
  simp only []
  have hsettled :=
    (h.move (target.settle settings (spliced target work) r.tree).tree r.patch
    r'.patch).say (target.settle settings (spliced target work) r.tree).said
  split
  · exact hsettled.fail _
  · exact hsettled.push _

/-- A section does the same to both runs if its hunks do. -/
theorem applySection (h : Extends notices files r r')
    (hwork : ∀ o, (acquire settings name r.tree).result = .ok o →
      ((Splice.start r.patch o.source).run settings name).SameButPatch
        ((Splice.start r'.patch o.source).run settings name)) :
    Extends notices files (r.applySection settings name)
      (r'.applySection settings name) := by
  unfold Run.applySection
  rw [h.tree]
  simp only []
  have hopened := (h.move (acquire settings name r.tree).tree r.patch
    r'.patch).say
    (acquire settings name r.tree).said
  split
  · exact hopened.fail _
  · next o hopen =>
      obtain ⟨p, hp⟩ := hwork o hopen
      simp only [Run.say] at hopened ⊢
      rw [hp]
      have hclosed := (hopened.move (o.close
          ((Splice.start r.patch o.source).run settings name).output
          (acquire settings name r.tree).tree)
        ((Splice.start r.patch o.source).run settings name).patch p).say
          (#[Event.notice (.patchingFile name)] ++
            ((Splice.start r.patch o.source).run settings name).transcript)
      rw [show ({ (Splice.start r.patch o.source).run settings
        name with patch := p } :
        Splice).failure? =
        ((Splice.start r.patch o.source).run settings name).failure? from rfl]
      split
      · exact hclosed.fail _
      · exact hclosed.finishSection _ _

end Extends

/-- A section that does not fail leaves the lines that its hunks leave, and adds
a result with its path and their number. -/
theorem exists_work_of_fine
    (hfine : (r.applySection settings name).failure? = none) :
    ∃ (o : OpenTarget) (result : FileResult),
      (acquire settings name r.tree).result = .ok o ∧
      ((Splice.start r.patch o.source).run settings name).failure? = none ∧
      (r.applySection settings name).patch =
        ((Splice.start r.patch o.source).run settings name).patch ∧
      (r.applySection settings name).files = r.files.push result ∧
      result.path = settings.directory.join name ∧
      result.hunks =
        ((Splice.start r.patch o.source).run settings name).hunks := by
  obtain ⟨o, hopen⟩ := exists_open_of_fine hfine
  obtain ⟨hdone, -, -, hrest, hfiles⟩ := settled_of_fine hopen rfl rfl hfine
  refine ⟨o, _, hopen, hdone, hrest, hfiles, ?_, ?_⟩
  · rw [path_settle]
    exact path_acquire hopen
  · rw [hunks_settle]
    rfl

/-! ## From one section to the next -/

/-- The run with a section found, before it is applied. -/
def entering (name : Bytes) (p : LineStream) (r : Run) : Run :=
  { r with patch := p }.say #[.remark (.sectionFound name)]

theorem Extends.entering (h : Extends notices files r r') (name : Bytes)
    (p p' : LineStream) :
    Extends notices files (r.entering name p) (r'.entering name p') :=
  (h.withPatch p p').say _

/-- Two runs at a section of which the hunks are all that is seen. -/
theorem Extends.applySection_over (h : Extends notices files r r')
    (ws : List CountedHunk) {p p' : LineStream}
    (hwork : ∀ o, (acquire settings name r.tree).result = .ok o →
      (∃ q : LineStream, (Splice.start p o.source).run settings name =
        { (Splice.start p o.source).overSection settings name ws with
          patch := q }) ∧
      ∃ q : LineStream, (Splice.start p' o.source).run settings name =
        { (Splice.start p' o.source).overSection settings name ws with
          patch := q }) :
    Extends notices files ((r.entering name p).applySection settings name)
      ((r'.entering name p').applySection settings name) := by
  refine (h.entering name p p').applySection fun o hopen => ?_
  obtain ⟨⟨q, hrun⟩, q', hrun'⟩ := hwork o hopen
  have hover :=
    Splice.overSection_patch settings name ws (Splice.start p o.source) p'
  refine ⟨q', ?_⟩
  rw [show (r.entering name p).patch = p from rfl,
    show (r'.entering name p').patch = p' from rfl, hrun, hrun',
    show Splice.start p' o.source =
        { Splice.start p o.source with patch := p' } from rfl, hover]

theorem applySections_of_error {e : FatalError} {p : LineStream}
    (h : Section.next settings.stripLevel r.patch = (.error e, p)) :
    r.applySections settings = { r with patch := p }.fail (.fatal e) := by
  rw [applySections]
  split <;> simp_all

theorem applySections_of_none {p : LineStream}
    (h : Section.next settings.stripLevel r.patch = (.ok none, p)) :
    r.applySections settings = { r with patch := p }.say
      #[.remark (.patchDone r.files.size r.failedFiles.length)] := by
  rw [applySections]
  split <;> simp_all

theorem applySections_of_some {p : LineStream}
    (h : Section.next settings.stripLevel r.patch = (.ok (some name), p)) :
    r.applySections settings =
      if ((r.entering name p).applySection settings name).failure?.isSome then
        (r.entering name p).applySection settings name
      else ((r.entering name p).applySection settings name).applySections
        settings := by
  rw [applySections]
  split
  · simp_all
  · simp_all
  · next found q hfound =>
      rw [h] at hfound
      obtain ⟨hname, rfl⟩ := Prod.mk.inj hfound
      obtain rfl : name = found := by simpa using hname
      simp only []
      split
      · next hfail => rw [entering, hfail]; rfl
      · next hfail => rw [entering, hfail]; rfl

/-- A run that is not given up does the section in front of it, and goes on
from there. -/
theorem exists_section {w : WrittenSection} {sections : List WrittenSection}
    {before : List Line}
    (hbefore : ∀ line ∈ before, Bytes.after? Marker.old line = none)
    (hnotes : w.notes = [])
    (hr : r.patch.Yields
      (before ++ (w :: sections).flatMap WrittenSection.lines))
    (hfine : (r.applySections settings).failure? = none) :
    ∃ (p : LineStream) (after : Run),
      p.ready = w.hunkLines ++ sections.flatMap WrittenSection.lines ∧
      Section.next settings.stripLevel r.patch =
        (.ok (some (w.name settings.stripLevel)), p) ∧
      (r.entering (w.name settings.stripLevel) p).applySection settings
        (w.name settings.stripLevel) = after ∧
      after.failure? = none ∧
      r.applySections settings = after.applySections settings := by
  have hlines : (w :: sections).flatMap WrittenSection.lines =
      w.oldLine :: w.newLine ::
      (w.hunkLines ++ sections.flatMap WrittenSection.lines) := by
    simp [WrittenSection.lines, hnotes]
  rw [hlines] at hr
  obtain ⟨p, hp, hnext⟩ := Section.next_of_yields settings.stripLevel hr hbefore
  refine ⟨p, _, hp, hnext, rfl, ?_⟩
  rw [applySections_of_some hnext] at hfine ⊢
  split at hfine
  · next h => simp [hfine] at h
  · next h => exact ⟨by simpa using h, if_neg h⟩

theorem size_applySection {p : LineStream} {after : Run}
    (hafter : (r.entering name p).applySection settings name = after)
    (hdone : after.failure? = none) : after.files.size = r.files.size + 1 := by
  rw [← hafter] at hdone ⊢
  obtain ⟨-, result, -, -, -, hfiles, -⟩ := exists_work_of_fine hdone
  rw [hfiles, Array.size_push]
  rfl

end Run

end UnifiedPatch
