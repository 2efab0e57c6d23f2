import Mathlib.Algebra.GroupWithZero.Nat
import UnifiedPatch.Proofs.SpliceSection

/-!
# What becomes of the lines of a source

A run that ends well with no hunk failed has found every line it was to find, so
each hunk says where the lines came from: some were copied before it, the rest
are the one side of its body, and what was written is the same copy and the
other side (`Worked`). Nothing is asked about where hunks start; the ones that
could not be placed are ruled out by the end of the run.

Two sides of a body are two merges, of the lines that go and of the lines that
come, with the lines that stay. So are the lines that a whole run took and the
lines that it wrote, and the question is only whether the run took all there
were. It did if the rest of the source was copied, and the rest is copied as
soon as one hunk has a place; otherwise every hunk is of a file that is created
or deleted whole, nothing but bodies was followed, and what they do not account
for is gone (`run_merges_iff`).
-/

namespace UnifiedPatch

/-- The third list has the elements of the first two, each in its order. -/
inductive Merge {α : Type} : List α → List α → List α → Prop
  | nil : Merge [] [] []
  | left (a : α) {l r m : List α} : Merge l r m → Merge (a :: l) r (a :: m)
  | right (a : α) {l r m : List α} : Merge l r m → Merge l (a :: r) (a :: m)

namespace Merge

variable {α : Type} {l r m : List α}

theorem nil_left (r : List α) : Merge [] r r := by
  induction r with
  | nil => exact .nil
  | cons a r ih => exact .right a ih

theorem append {l' r' m' : List α} (h : Merge l r m) (h' : Merge l' r' m') :
    Merge (l ++ l') (r ++ r') (m ++ m') := by
  induction h with
  | nil => exact h'
  | left a _ ih => exact .left a ih
  | right a _ ih => exact .right a ih

theorem length_eq (h : Merge l r m) : m.length = l.length + r.length := by
  induction h with
  | nil => rfl
  | left a _ ih =>
      rw [List.length_cons, List.length_cons, ih]
      omega
  | right a _ ih =>
      rw [List.length_cons, List.length_cons, ih]
      omega

/-- Two merges with elements in common, continued on one side: they go on having
them in common if the other side is continued too, or if there is nothing to go
on with. Otherwise there are too few. -/
theorem exists_append_iff {l' m' : List α} (h : Merge l r m)
    (h' : Merge l' r m') (rest : List α) (copied : Bool) :
    (∃ kept, Merge l kept (m ++ rest) ∧
      Merge l' kept (m' ++ if copied then rest else [])) ↔
      copied = true ∨ rest = [] := by
  constructor
  · rintro ⟨kept, hkept, hkept'⟩
    cases copied with
    | true => exact .inl rfl
    | false =>
        right
        have h₁ := h.length_eq
        have h₂ := h'.length_eq
        have h₃ := hkept.length_eq
        have h₄ := hkept'.length_eq
        simp only [Bool.false_eq_true, if_false, List.append_nil,
          List.length_append] at h₃ h₄
        exact List.eq_nil_of_length_eq_zero (by omega)
  · intro hall
    have htail : (if copied then rest else []) = rest := by
      rcases hall with hall | hall <;> simp [hall]
    rw [htail]
    refine ⟨r ++ rest, ?_, ?_⟩
    · simpa using h.append (nil_left rest)
    · simpa using h'.append (nil_left rest)

end Merge

/-! ## The three kinds of lines of a body -/

/-- The contents of the body lines of a role. -/
def ofRole (role : Role) (body : List BodyLine) : List Line :=
  (body.filter fun b => b.role = role).map BodyLine.content

theorem ofRole_cons (role : Role) (b : BodyLine) (body : List BodyLine) :
    ofRole role (b :: body) =
      if b.role = role then b.content :: ofRole role body
      else ofRole role body := by
  simp only [ofRole, List.filter_cons, decide_eq_true_eq]
  split <;> rfl

theorem merge_sourceSide (body : List BodyLine) :
    Merge (ofRole .deletion body) (ofRole .context body) (sourceSide body) := by
  induction body with
  | nil => exact .nil
  | cons b body ih =>
      rw [ofRole_cons, ofRole_cons, sourceSide_cons]
      cases hrole : b.role with
      | context => simpa using ih.right b.content
      | deletion => simpa using ih.left b.content
      | insertion => simpa using ih

theorem merge_resultSide (body : List BodyLine) :
    Merge (ofRole .insertion body) (ofRole .context body)
      (resultSide body) := by
  induction body with
  | nil => exact .nil
  | cons b body ih =>
      rw [ofRole_cons, ofRole_cons, resultSide_cons]
      cases hrole : b.role with
      | context => simpa using ih.right b.content
      | deletion => simpa using ih
      | insertion => simpa using ih.left b.content

namespace CountedHunk

/-- The lines that hunks remove, one after another. -/
def removals (reverse : Bool) (ws : List CountedHunk) : List Line :=
  ws.flatMap fun w => ofRole .deletion (w.script reverse)

/-- The lines that hunks add, one after another. -/
def additions (reverse : Bool) (ws : List CountedHunk) : List Line :=
  ws.flatMap fun w => ofRole .insertion (w.script reverse)

/-- How many source lines the hunks speak of. -/
def accounted (reverse : Bool) (ws : List CountedHunk) : Nat :=
  (ws.map fun w => (w.facing reverse).old.count).sum

end CountedHunk

namespace Splice

open CountedHunk

variable (settings : Settings) (name : Bytes) {s : Splice} {w : CountedHunk}

/-! ## One hunk that did not fail -/

/-- A hunk did its work between two states: the lines of `gap` were copied, the
lines it takes came next, and it wrote the lines it makes. -/
structure Worked (reverse : Bool) (w : CountedHunk) (gap : List Line)
    (s s' : Splice) : Prop where
  source : s.source.ready =
    gap ++ sourceSide (w.script reverse) ++ s'.source.ready
  written : s'.written.toList =
    s.written.toList ++ gap ++ resultSide (w.script reverse)
  cursor : s'.cursor = s.cursor + gap.length + (w.facing reverse).old.count
  flush : s'.flush = (s.flush || !(w.facing reverse).wholeFile)
  unplaced : (w.facing reverse).wholeFile = true → gap = []
  placed : (w.facing reverse).wholeFile = false →
    s.cursor + gap.length = (w.facing reverse).old.start

theorem failed_stepLeading (hunk : Hunk) (s : Splice) :
    (s.stepLeading name hunk).failed = s.failed := by
  unfold stepLeading
  split
  · rfl
  · split
    · rfl
    · simp only []
      split <;> rfl

theorem failed_overFollowed (body : List BodyLine) (s : Splice) :
    (s.overFollowed body).failed =
      s.failed + if sourceSide body <+: s.source.ready then 0 else 1 := by
  unfold overFollowed
  simp only [followed_eq_self_iff]
  split <;> rfl

theorem failed_le_overBody (body : List BodyLine) (s : Splice) :
    s.failed ≤ (s.overBody settings name body).failed := by
  unfold overBody
  split
  · exact Nat.le_of_eq (overLines_passed name body s).failed.symm
  · rw [failed_overFollowed]
    exact Nat.le_add_right _ _

theorem failed_le_overHunk (w : CountedHunk) (s : Splice) :
    s.failed ≤ (s.overHunk settings name w).failed := by
  have hled : (s.overLeading settings name w).failed = s.failed :=
    failed_stepLeading name _ _
  rcases overHunk_cases settings name w s with
    ⟨run, -, h⟩ | ⟨-, ⟨why, -, h⟩ | ⟨-, h⟩⟩ <;> rw [h]
  · exact Nat.le_refl _
  · exact Nat.le_of_eq hled.symm
  · rw [← hled]
    exact failed_le_overBody settings name _ _

theorem failed_le_overHunks (ws : List CountedHunk) (s : Splice) :
    s.failed ≤ (s.overHunks settings name ws).failed := by
  induction ws generalizing s with
  | nil => exact Nat.le_refl _
  | cons w ws ih =>
      rw [overHunks]
      split
      · exact failed_le_overHunk settings name w s
      · exact Nat.le_trans (failed_le_overHunk settings name w s) (ih _)

/-- The lines before a hunk that can be entered. -/
theorem stepLeading_entered {hunk : Hunk}
    (h : (s.stepLeading name hunk).Entered hunk) :
    ∃ gap : List Line,
      s.source.ready = gap ++ (s.stepLeading name hunk).source.ready ∧
      (s.stepLeading name hunk).written.toList = s.written.toList ++ gap ∧
      (s.stepLeading name hunk).cursor = s.cursor + gap.length ∧
      (s.stepLeading name hunk).flush = (s.flush || !hunk.wholeFile) ∧
      (hunk.wholeFile = true → gap = []) ∧
      (hunk.wholeFile = false → s.cursor + gap.length = hunk.old.start) := by
  cases hwhole : hunk.wholeFile with
  | true =>
      refine ⟨[], ?_⟩
      simp [stepLeading, hwhole, enterBody]
  | false =>
      have hcursor : s.cursor ≤ hunk.old.start := by
        rcases Nat.lt_or_ge hunk.old.start s.cursor with hlt | hge
        · rw [stepLeading, if_neg (by simp [hwhole]), if_pos hlt] at h
          exact absurd h (by simp [Entered, stop])
        · exact hge
      generalize hn : hunk.old.start - s.cursor = n
      have hlines : n ≤ s.source.ready.length := by
        -- Lines that are missing would have stopped the work.
        rcases Nat.lt_or_ge s.source.ready.length n with hlt | hge
        · have hmissing : ((n : Int) - (min n s.source.ready.length : Nat)) ≠
              0 := by
            rw [Nat.min_eq_right (Nat.le_of_lt hlt)]
            omega
          rw [stepLeading, if_neg (by simp [hwhole]),
            if_neg (Nat.not_lt.2 hcursor)] at h
          simp only [hn, LineStream.copy, Int.toNat_natCast,
            LineStream.takeLines_eq_take_skip, List.length_take,
            if_neg hmissing] at h
          exact absurd h (by simp [Entered, stop])
        · exact hge
      have hlength : (s.source.ready.take n).length = n := by
        rw [List.length_take, Nat.min_eq_left hlines]
      have hled : s.stepLeading name hunk = ({ s with
          source := s.source.skip n
          written := s.written ++ s.source.ready.take n
          cursor := s.cursor + n
          emitted := s.emitted + n
          flush := true } : Splice).enterBody hunk := by
        simp only [stepLeading, hwhole, Bool.false_eq_true, if_false,
          if_neg (Nat.not_lt.2 hcursor), hn, LineStream.copy, Int.toNat_natCast,
          LineStream.takeLines_eq_take_skip, hlength, Int.sub_self, if_true]
      refine ⟨s.source.ready.take n, ?_⟩
      rw [hled, hlength]
      refine ⟨?_, ?_, rfl, ?_, by simp, fun _ => by omega⟩
      · simp [enterBody]
      · simp [enterBody]
      · simp [enterBody]

/-- A body that did not fail was found in the source. -/
theorem overFollowed_of_clean {body : List BodyLine}
    (h : (s.overFollowed body).failed = s.failed) :
    s.source.ready = sourceSide body ++ (s.overFollowed body).source.ready ∧
      (s.overFollowed body).written.toList =
        s.written.toList ++ resultSide body ∧
      (s.overFollowed body).cursor = s.cursor + (sourceSide body).length ∧
      (s.overFollowed body).flush = s.flush := by
  have hfound : sourceSide body <+: s.source.ready := by
    rw [failed_overFollowed] at h
    by_cases hfound : sourceSide body <+: s.source.ready
    · exact hfound
    · rw [if_neg hfound] at h
      omega
  obtain ⟨left, hleft⟩ := hfound
  have hover : s.overFollowed body = ({ s with
      source := s.source.skip (sourceSide body).length
      written := s.written ++ resultSide body
      cursor := s.cursor + (sourceSide body).length
      emitted := s.emitted + (resultSide body).length
      phase := .header } : Splice) :=
    if_pos (followed_eq_self_iff.2 ⟨left, hleft⟩)
  rw [hover]
  refine ⟨?_, by simp, rfl, rfl⟩
  rw [LineStream.ready_skip, ← hleft, List.drop_left]

/-- A hunk that did not stop the work and did not fail did its work. -/
theorem overHunk_worked (hskip : settings.skipApplied = false)
    (hfine : (s.overHunk settings name w).failure? = none)
    (hclean : (s.overHunk settings name w).failed = s.failed) :
    ∃ gap : List Line,
      Worked settings.reverse w gap s (s.overHunk settings name w) := by
  obtain ⟨-, henter, hover⟩ := entered_of_fine settings name hfine
  have hbody : (s.overLeading settings name w).overBody settings name
      (w.script settings.reverse) =
        (s.overLeading settings name w).overFollowed
          (w.script settings.reverse) := by
    rw [overBody, hskip]
    rfl
  rw [hover, hbody] at hclean ⊢
  obtain ⟨gap, hsource, hwritten, hcursor, hflush, hunplaced, hplaced⟩ :=
    stepLeading_entered name henter
  have hsame : (s.overLeading settings name w).failed = s.failed :=
    failed_stepLeading name _ _
  obtain ⟨hsource', hwritten', hcursor', hflush'⟩ :=
    overFollowed_of_clean (hclean.trans hsame.symm)
  refine ⟨gap, ⟨?_, ?_, ?_, hflush'.trans hflush, hunplaced, hplaced⟩⟩
  · rw [List.append_assoc, ← hsource']
    exact hsource
  · rw [hwritten']
    exact congrArg (· ++ _) hwritten
  · rw [hcursor', w.length_sourceSide_script]
    exact congrArg (· + _) hcursor

/-- Hunks that all did their work, the first one seen from the rest. -/
theorem overHunks_cons_clean {ws : List CountedHunk}
    (hskip : settings.skipApplied = false)
    (hfine : (s.overHunks settings name (w :: ws)).failure? = none)
    (hclean : (s.overHunks settings name (w :: ws)).failed = s.failed) :
    ∃ (gap : List Line) (s' : Splice), Worked settings.reverse w gap s s' ∧
      s'.failed = s.failed ∧
      s.overHunks settings name (w :: ws) = s'.overHunks settings name ws := by
  obtain ⟨hhead, heq⟩ := overHunks_cons_fine settings name hfine
  have hfailed : (s.overHunk settings name w).failed = s.failed := by
    have hlow := failed_le_overHunk settings name w s
    have hhigh :=
      failed_le_overHunks settings name ws (s.overHunk settings name w)
    rw [← heq, hclean] at hhigh
    exact Nat.le_antisymm hhigh hlow
  obtain ⟨gap, hworked⟩ :=
    overHunk_worked settings name hskip (failure?_of_header hhead) hfailed
  exact ⟨gap, _, hworked, hfailed, heq⟩

/-! ## Hunks one after another -/

/-- Hunks did their work between two states: they took the first `size` lines of
the source, and what they took and what they wrote have the lines of `kept` in
common. -/
structure Merged (reverse : Bool) (ws : List CountedHunk)
    (kept taken made : List Line) (s s' : Splice) : Prop where
  source : s.source.ready = taken ++ s'.source.ready
  written : s'.written.toList = s.written.toList ++ made
  merge_taken : Merge (removals reverse ws) kept taken
  merge_made : Merge (additions reverse ws) kept made
  flush : s'.flush = (s.flush || ws.any fun w => !(w.facing reverse).wholeFile)
  accounted : (∀ w ∈ ws, (w.facing reverse).wholeFile = true) →
    taken.length = accounted reverse ws

theorem overHunks_merged {ws : List CountedHunk}
    (hskip : settings.skipApplied = false)
    (hfine : (s.overHunks settings name ws).failure? = none)
    (hclean : (s.overHunks settings name ws).failed = s.failed) :
    ∃ kept taken made : List Line,
      Merged settings.reverse ws kept taken made s
        (s.overHunks settings name ws) := by
  induction ws generalizing s with
  | nil =>
      exact ⟨[], [], [],
        ⟨rfl, (List.append_nil _).symm, .nil, .nil, by simp [overHunks],
          fun _ => rfl⟩⟩
  | cons w ws ih =>
      obtain ⟨gap, s', hworked, hfailed, heq⟩ :=
        overHunks_cons_clean settings name hskip hfine hclean
      rw [heq] at hfine hclean ⊢
      obtain ⟨kept, taken, made, hmerged⟩ :=
        ih hfine (hclean.trans hfailed.symm)
      refine ⟨gap ++ ofRole .context (w.script settings.reverse) ++ kept,
        gap ++ sourceSide (w.script settings.reverse) ++ taken,
        gap ++ resultSide (w.script settings.reverse) ++ made,
        ⟨?_, ?_, ?_, ?_, ?_, ?_⟩⟩
      · rw [hworked.source, hmerged.source]
        simp only [List.append_assoc]
      · rw [hmerged.written, hworked.written]
        simp only [List.append_assoc]
      · exact ((Merge.nil_left gap).append (merge_sourceSide _)).append
          hmerged.merge_taken
      · exact ((Merge.nil_left gap).append (merge_resultSide _)).append
          hmerged.merge_made
      · rw [hmerged.flush, hworked.flush, List.any_cons, Bool.or_assoc]
      · intro hwhole
        have hgap : gap = [] := hworked.unplaced (hwhole w (by simp))
        have hrest := hmerged.accounted fun v hv => hwhole v (by simp [hv])
        rw [hgap, List.nil_append, List.length_append,
          w.length_sourceSide_script, hrest]
        rfl

/-! ## The whole run -/

/-- A section that ended well: its hunks did, and the rest of the source was
copied if one of them had a place. -/
theorem overSection_fine {ws : List CountedHunk}
    (hfine : (s.overSection settings name ws).failure? = none) :
    (s.overHunks settings name ws).failure? = none ∧
      (s.overSection settings name ws).failed =
        (s.overHunks settings name ws).failed ∧
      (s.overSection settings name ws).written.toList =
        (s.overHunks settings name ws).written.toList ++
          if (s.overHunks settings name ws).flush then
            (s.overHunks settings name ws).source.ready
          else [] := by
  cases hlast : (s.overHunks settings name ws).failure? with
  | some why =>
      have heq : s.overSection settings name ws =
          s.overHunks settings name ws := by
        simp [overSection, hlast]
      rw [heq, hlast] at hfine
      exact absurd hfine (by simp)
  | none =>
      have heq : s.overSection settings name ws =
          ({ s.overHunks settings name ws with phase := .trailing } :
            Splice).stepTrailing
            name := by
        simp [overSection, hlast]
      rw [heq, stepTrailing]
      cases hflush : (s.overHunks settings name ws).flush with
      | true => simp [LineStream.copy, LineStream.drain_eq, say]
      | false => simp [say]

/-- A run without a failure loses no line exactly if one of the hunks has a
place or the hunks speak of every line there is. No line is lost: the source is
a merge of the lines removed and of others, and the result is a merge of the
lines added and of the same others. -/
theorem run_merges_iff (patch stream : LineStream) (ws : List CountedHunk)
    (rest : List Line) (hskip : settings.skipApplied = false)
    (hpatch : patch.ready = ws.flatMap CountedHunk.lines ++ rest)
    (hrest : ∀ line ∈ rest.head?, Hunk.isHeader line = false)
    (hfine : ((start patch stream).run settings name).failure? = none)
    (hclean : ((start patch stream).run settings name).failed = 0) :
    (∃ kept : List Line,
      Merge (removals settings.reverse ws) kept stream.ready ∧
      Merge (additions settings.reverse ws) kept
        ((start patch stream).run settings name).written.toList) ↔
      (∃ w ∈ ws, (w.facing settings.reverse).wholeFile = false) ∨
        stream.ready.length ≤ accounted settings.reverse ws := by
  obtain ⟨p, -, hrun⟩ := run_overSection settings name (s := start patch stream)
    (fun _ => told_of_not_skip settings name hskip _ _ _) rfl
    (.inl hpatch) hrest
  rw [hrun] at hfine hclean ⊢
  obtain ⟨hhunks, hfailed, hwritten⟩ := overSection_fine settings name hfine
  obtain ⟨kept, taken, made, hmerged⟩ :=
    overHunks_merged settings name hskip hhunks (hfailed.symm.trans hclean)
  generalize (start patch stream).overHunks settings name ws =
    last at hwritten hmerged
  have hsource : stream.ready = taken ++ last.source.ready := hmerged.source
  have hmade : last.written.toList = made := hmerged.written
  have hflush : last.flush = ws.any fun w =>
      !(w.facing settings.reverse).wholeFile :=
    hmerged.flush
  have hlength := congrArg List.length hsource
  rw [List.length_append] at hlength
  simp only []
  rw [hwritten, hmade, hsource,
    hmerged.merge_taken.exists_append_iff hmerged.merge_made last.source.ready
      last.flush,
    ← hsource]
  cases hplaced : last.flush with
  | true =>
      rw [hplaced] at hflush
      refine ⟨fun _ => .inl ?_, fun _ => .inl rfl⟩
      obtain ⟨w, hw, hwhole⟩ := List.any_eq_true.1 hflush.symm
      exact ⟨w, hw, by simpa using hwhole⟩
  | false =>
      rw [hplaced] at hflush
      have hwhole : ∀ w ∈ ws, (w.facing settings.reverse).wholeFile = true := by
        intro w hw
        simpa using List.any_eq_false.1 hflush.symm w hw
      -- Only bodies were followed, so the hunks say how many lines are used up.
      have htaken := hmerged.accounted hwhole
      constructor
      · rintro (hcopied | hnil)
        · exact absurd hcopied (by simp)
        · right
          rw [hnil, List.length_nil] at hlength
          omega
      · rintro (⟨w, hw, hplace⟩ | hall)
        · rw [hwhole w hw] at hplace
          exact absurd hplace (by simp)
        · exact .inr (List.eq_nil_of_length_eq_zero (by omega))

/-- A hunk with a place behind the one line of `wholeRemoval`. -/
def secondLine : CountedHunk where
  header := Bytes.ascii "@@ -2 +1 @@\n"
  runs := ⟨Bytes.ascii "2", none, Bytes.ascii "1", none⟩
  body := [Bytes.ascii "-b\n", Bytes.ascii "+c\n"]
  header_runs := rfl
  body_lines := by decide
  old_count := rfl
  new_count := rfl

/-- The hunk with a place brings the rest of the source, also for the
one without. -/
theorem run_merges_mixed :
    ∃ kept : List Line,
      Merge [Bytes.ascii "a\n", Bytes.ascii "b\n"] kept
        (Bytes.ascii "a\nb\nd\n").lines ∧
        Merge [Bytes.ascii "c\n"] kept
          ((start
            (.ofBytes (Bytes.ascii "@@ -1 +0,0 @@\n-a\n@@ -2 +1 @@\n-b\n+c\n"))
            (.ofBytes (Bytes.ascii "a\nb\nd\n"))).run
              { directory := ⟨.working, []⟩ } []).written.toList := by
  have h := (run_merges_iff { directory := ⟨.working, []⟩ } []
    (.ofBytes (Bytes.ascii "@@ -1 +0,0 @@\n-a\n@@ -2 +1 @@\n-b\n+c\n"))
    (.ofBytes (Bytes.ascii "a\nb\nd\n")) [wholeRemoval, secondLine] [] rfl
      (by decide) (by decide)
    (by decide +kernel) (by decide +kernel)).2 (.inl (by decide))
  rwa [show removals false [wholeRemoval, secondLine] =
      [Bytes.ascii "a\n", Bytes.ascii "b\n"] by decide,
    show additions false [wholeRemoval, secondLine] =
      [Bytes.ascii "c\n"] by decide] at h

/-- A hunk without a place leaves the lines behind it, and they are lost. -/
theorem not_forall_run_merges :
    ¬ ∀ (settings : Settings) (name : Bytes) (patch stream : LineStream)
      (ws : List CountedHunk),
      settings.skipApplied = false → ws ≠ [] →
      patch.ready = ws.flatMap CountedHunk.lines →
      ((start patch stream).run settings name).failure? = none →
      ((start patch stream).run settings name).failed = 0 →
      ∃ kept : List Line,
        Merge (removals settings.reverse ws) kept stream.ready ∧
        Merge (additions settings.reverse ws) kept
          ((start patch stream).run settings name).written.toList := by
  intro h
  obtain ⟨kept, hfrom, hto⟩ := h { directory := ⟨.working, []⟩ } []
    (.ofBytes (Bytes.ascii "@@ -1 +0,0 @@\n-a\n"))
    (.ofBytes (Bytes.ascii "a\nb\n")) [wholeRemoval] rfl (by decide) (by decide)
    (by decide +kernel) (by decide +kernel)
  have hone : kept.length = 1 := by
    have h := hfrom.length_eq
    rw [show (removals false [wholeRemoval]).length = 1 by decide] at h
    have hsource : (LineStream.ofBytes (Bytes.ascii "a\nb\n")).ready.length =
        2 := by decide
    omega
  have hnone : kept.length = 0 := by
    have h := hto.length_eq
    have hwritten : ((start (.ofBytes (Bytes.ascii "@@ -1 +0,0 @@\n-a\n"))
        (.ofBytes (Bytes.ascii "a\nb\n"))).run { directory := ⟨.working, []⟩ }
          []).written.toList.length = 0 := by decide +kernel
    omega
  omega

end Splice

end UnifiedPatch
