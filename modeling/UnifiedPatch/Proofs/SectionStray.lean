import UnifiedPatch.Proofs.HunkCount

/-!
# Where a section gets to that has missed its end

A section that takes the marker line behind its hunks for one of theirs is among
the lines of others, and goes on with the same two counters. It cannot get just
anywhere, though. A line that it looks at is taken or handed back, the hunks
that it meets are gone over as a whole, and a marker line that is handed back
ends it, since it is no header. So what it leaves are whole sections, or whole
sections of which the first has lost its first marker line (`Cut`).

The counts of a run show it. If every hunk of the patch was counted for some
file, no header was passed over by the search for a section, and then the
sections were taken as wholes: by their own marker lines or by a section before
them. In the second case there is a file too few (`size_applySections_le`).
-/

namespace UnifiedPatch

/-- What a run can leave of sections behind its own: whole ones, or the first of
them without its first marker line. -/
inductive Cut : List WrittenSection → List Line → Prop
  | whole (sections : List WrittenSection) :
      Cut sections (sections.flatMap WrittenSection.lines)
  | marker (w : WrittenSection) (sections : List WrittenSection) :
      Cut (w :: sections)
        (w.newLine :: (w.hunkLines ++ sections.flatMap WrittenSection.lines))
  | behind (w : WrittenSection) {sections : List WrittenSection}
      {lines : List Line} :
      Cut sections lines → Cut (w :: sections) lines

/-- A marker line of the new file is a body line too. -/
theorem BodyLine.ofLine?_of_new {line : Line}
    (h : (Bytes.after? Marker.new line).isSome) (reverse : Bool) :
    ∃ b : BodyLine, ofLine? reverse line = some b ∧ b.text = line := by
  obtain ⟨rest, hrest⟩ := Option.isSome_iff_exists.1 h
  obtain rfl := Bytes.after?_eq_some_iff.1 hrest
  refine ⟨BodyLine.facing reverse ⟨.insertion, Bytes.ascii "++ " ++ rest,
    Marker.new ++ rest⟩, ?_, rfl⟩
  rw [ofLine?_eq_map]
  rfl

namespace Splice

variable (settings : Settings) (name : Bytes) {s : Splice} {rest : List Line}

/-! ## A line is taken or goes back -/

theorem handBack_left (s : Splice) {q : LineStream} {line : Line}
    (hq : q.ready = line :: rest) (back : Line) (phase : Phase) :
    (s.handBack (q.skip 1) back phase).phase = phase ∧
      (s.handBack (q.skip 1) back phase).patch.ready = back :: rest := by
  obtain ⟨p, hp, hready⟩ := LineStream.unread?_skip_one hq back
  rw [handBack, hp]
  exact ⟨rfl, hready⟩

theorem emit_left (s : Splice) {q : LineStream} {line : Line}
    (hq : q.ready = line :: rest) (b : BodyLine) (ends : Tally) :
    ((s.emit (q.skip 1) b ends).phase = .header ∧
        (s.emit (q.skip 1) b ends).patch.ready = b.text :: rest) ∨
      (s.emit (q.skip 1) b ends).phase = s.phase ∧
        (s.emit (q.skip 1) b ends).patch.ready = rest := by
  unfold emit
  split
  · exact .inl (handBack_left s hq b.text .header)
  · exact .inr ⟨rfl, by simp [hq]⟩

/-- A body line met in a body is handed back, or the body goes on behind it. -/
theorem step_body_left {hunk : Hunk} {ends seen : Tally} {line : Line}
    {b : BodyLine} (hskip : settings.skipApplied = true)
    (hphase : s.phase = .body hunk ends seen)
    (hpatch : s.patch.ready = line :: rest)
    (hread : BodyLine.ofLine? settings.reverse line = some b) :
    ((s.step settings name).phase = .header ∧
        (s.step settings name).patch.ready = b.text :: rest) ∨
      ∃ seen', (s.step settings name).phase = .body hunk ends seen' ∧
        (s.step settings name).patch.ready = rest := by
  have htaken : (s.patch.skip 1).ready = rest := by simp [hpatch]
  have hemit : ∀ s' : Splice, s'.phase = .body hunk ends (seen.count b.role) →
      ((s'.emit (s.patch.skip 1) b ends).phase = .header ∧
          (s'.emit (s.patch.skip 1) b ends).patch.ready = b.text :: rest) ∨
        ∃ seen',
          (s'.emit (s.patch.skip 1) b ends).phase = .body hunk ends seen' ∧
          (s'.emit (s.patch.skip 1) b ends).patch.ready = rest := by
    intro s' hs'
    refine (emit_left s' hpatch b ends).imp_right fun h =>
      ⟨seen.count b.role, ?_, h.2⟩
    rw [h.1, hs']
  simp only [step, hphase, stepBody, LineStream.next?_eq_skip hpatch, hread]
  split
  · exact hemit _ rfl
  · split
    · exact .inl (handBack_left s hpatch b.text .header)
    · cases s.source.next? with
      | none =>
          simp only [Option.map_none]
          split
          · split
            · exact .inr ⟨_, rfl, htaken⟩
            · exact hemit _ rfl
          · exact .inr ⟨_, rfl, htaken⟩
      | some found =>
          simp only [Option.map_some]
          split
          · split
            · exact .inr ⟨_, rfl, htaken⟩
            · exact hemit _ rfl
          · exact .inr ⟨_, rfl, htaken⟩

/-- At a line that is no header the hunks are at an end, and the line
is left. -/
theorem ready_patch_run_of_header (hphase : s.phase = .header)
    (hhead : ∀ line ∈ s.patch.ready.head?, Hunk.isHeader line = false) :
    (s.run settings name).patch.ready = s.patch.ready := by
  obtain ⟨p, hp, hrun⟩ := run_header_end settings name hphase hhead
  rw [hrun, ← run_step, run_of_not_isLive settings name rfl, ← hp]
  simp only [step, stepTrailing]
  split <;> rfl

/-! ## From line to line -/

/-- A run that ends as it should passes a hunk over as a whole, and is then in
its body still. -/
theorem run_hunk_passed {w : CountedHunk} (hskip : settings.skipApplied = true)
    (hphase : s.phase = .header) (hpatch : s.patch.ready = w.lines ++ rest)
    (hfine : (s.overHunk settings name w).failure? = none) :
    ∃ (t : Splice) (hunk : Hunk) (ends seen : Tally),
      t.phase = .body hunk ends seen ∧
      t.patch.ready = rest ∧ s.run settings name = t.run settings name := by
  obtain ⟨hread, henter, -⟩ := entered_of_fine settings name hfine
  have hlines : (s.patch.skip 1).ready = w.body ++ rest := by
    rw [LineStream.ready_skip, hpatch]
    rfl
  obtain ⟨p, seen, hp, hrun⟩ := run_body_passed settings name
    (s := { s.overLeading settings name w with patch := s.patch.skip 1 }) hskip
    henter hlines
  exact ⟨_, _, _, _, rfl, hp,
    (run_overLeading settings name hphase hpatch hread).trans hrun⟩

/-- If bodies that are followed by sections leave a part of these, so do hunks:
the last of them ends as such a body. -/
theorem cut_run_of_hunks {ws : List CountedHunk}
    {sections : List WrittenSection}
    (hbody : ∀ (t : Splice) (hunk : Hunk) (ends seen : Tally),
      t.phase = .body hunk ends seen →
      t.patch.ready = sections.flatMap WrittenSection.lines →
      (t.run settings name).failure? = none →
        Cut sections (t.run settings name).patch.ready)
    (hskip : settings.skipApplied = true) (hphase : s.phase = .header)
    (hpatch : s.patch.ready =
      ws.flatMap CountedHunk.lines ++ sections.flatMap WrittenSection.lines)
    (hfine : (s.run settings name).failure? = none) :
    Cut sections (s.run settings name).patch.ready := by
  induction ws generalizing s with
  | nil =>
      rw [List.flatMap_nil, List.nil_append] at hpatch
      rw [ready_patch_run_of_header settings name hphase
        (by rw [hpatch]; exact WrittenSection.head_lines_not_header sections),
        hpatch]
      exact .whole sections
  | cons w ws ih =>
      have hhunks :=
        overHunks_fine_of_run settings name hphase (.inl hpatch) hfine
      obtain ⟨hhead, -⟩ := overHunks_cons_fine settings name hhunks
      rw [List.flatMap_cons, List.append_assoc] at hpatch
      obtain ⟨t, hunk, ends, seen, ht, hp, hrun⟩ :=
        run_hunk_passed settings name hskip hphase hpatch
          (failure?_of_header hhead)
      rw [hrun] at hfine ⊢
      cases ws with
      | nil => exact hbody t hunk ends seen ht hp hfine
      | cons w' ws =>
          -- The header behind the body is no body line, and so the body ends
          -- there.
          obtain ⟨q, hq, hback⟩ :=
            run_body_other settings name ht (fun line hline => by
            obtain rfl : w'.header = line := by
              simpa [hp, CountedHunk.lines] using hline
            exact w'.ofLine?_header settings.reverse)
          rw [hback] at hfine ⊢
          exact ih rfl (hq.trans hp) hfine

theorem cut_run_of_body {sections : List WrittenSection} {hunk : Hunk}
    {ends seen : Tally} (hskip : settings.skipApplied = true)
    (hnotes : ∀ w ∈ sections, w.notes = [])
    (hphase : s.phase = .body hunk ends seen)
    (hpatch : s.patch.ready = sections.flatMap WrittenSection.lines)
    (hfine : (s.run settings name).failure? = none) :
    Cut sections (s.run settings name).patch.ready := by
  induction sections generalizing s hunk ends seen with
  | nil =>
      obtain ⟨p, hp, hrun⟩ :=
        run_body_other settings name hphase (by simp [hpatch])
      rw [hpatch] at hp
      rw [hrun, ready_patch_run_of_header settings name rfl (by simp [hp])]
      simp only [hp]
      exact .whole []
  | cons w sections ih =>
      have hrest : ∀ (t : Splice) (hunk : Hunk) (ends seen : Tally),
          t.phase = .body hunk ends seen →
          t.patch.ready = sections.flatMap WrittenSection.lines →
          (t.run settings name).failure? = none →
          Cut sections (t.run settings name).patch.ready :=
        fun t hunk ends seen => ih fun v hv => hnotes v (by simp [hv])
      have hlines : s.patch.ready = w.oldLine :: w.newLine ::
          (w.hunkLines ++ sections.flatMap WrittenSection.lines) := by
        rw [hpatch]
        simp [WrittenSection.lines, hnotes w (by simp)]
      obtain ⟨b, hread, hback, -⟩ :=
        BodyLine.ofLine?_of_marked w.oldLine_marked settings.reverse
      rw [← run_step] at hfine ⊢
      rcases step_body_left settings name hskip hphase hlines hread with
        ⟨hhead, hready⟩ | ⟨seen', hbody, hready⟩
      · rw [hback] at hready
        rw [ready_patch_run_of_header settings name hhead
          (by simpa [hready] using Hunk.isHeader_of_marked w.oldLine_marked),
          hready, ← hlines, hpatch]
        exact .whole (w :: sections)
      · obtain ⟨b', hread', hback'⟩ :=
          BodyLine.ofLine?_of_new w.newLine_marked settings.reverse
        rw [← run_step] at hfine ⊢
        rcases step_body_left settings name hskip hbody hready hread' with
          ⟨hhead, hready'⟩ | ⟨seen'', hbody', hready'⟩
        · rw [hback'] at hready'
          rw [ready_patch_run_of_header settings name hhead
            (by simpa [hready'] using
              Hunk.isHeader_of_marked_new w.newLine_marked), hready']
          exact .marker w sections
        · -- Both marker lines are gone, and what is next are the hunks of
          -- that section.
          refine .behind w ?_
          cases hhunks : w.hunks with
          | nil =>
              rw [WrittenSection.hunkLines, hhunks, List.flatMap_nil,
                List.nil_append] at hready'
              exact hrest _ _ _ _ hbody' hready' hfine
          | cons v vs =>
              obtain ⟨p, hp, hrun⟩ :=
                run_body_other settings name hbody' (fun line hline => by
                obtain rfl : v.header = line := by
                  simpa [hready', WrittenSection.hunkLines, hhunks,
                    CountedHunk.lines] using hline
                exact v.ofLine?_header settings.reverse)
              rw [hrun] at hfine ⊢
              exact cut_run_of_hunks settings name hrest hskip rfl
                (hp.trans hready') hfine

/-- A run on hunks with sections behind them leaves a part of the sections. -/
theorem cut_run {ws : List CountedHunk} {sections : List WrittenSection}
    (hskip : settings.skipApplied = true)
    (hnotes : ∀ w ∈ sections, w.notes = []) (hphase : s.phase = .header)
    (hpatch : s.patch.ready =
      ws.flatMap CountedHunk.lines ++ sections.flatMap WrittenSection.lines)
    (hfine : (s.run settings name).failure? = none) :
    Cut sections (s.run settings name).patch.ready :=
  cut_run_of_hunks settings name
    (fun _ _ _ _ hbody hready => cut_run_of_body settings name hskip hnotes
      hbody hready)
    hskip hphase hpatch hfine

end Splice

/-! ## What the counts tell -/

/-- Where a section has left the others, and no header is passed over on the way
to the next marker line, whole sections are next. -/
theorem Cut.exists_boundary {sections : List WrittenSection} {lines : List Line}
    (hcut : Cut sections lines) (hnotes : ∀ w ∈ sections, w.notes = [])
    {s : LineStream} (hs : s.ready = lines)
    (hcounted : Weight.headers.total lines ≤
      Weight.headers.total (Section.seekOld s).2.ready) :
    ∃ (before : List Line) (rest : List WrittenSection),
      lines = before ++ rest.flatMap WrittenSection.lines ∧
      (∀ line ∈ before, Bytes.after? Marker.old line = none) ∧
      rest <:+ sections ∧
      (rest = sections → before = []) := by
  induction hcut with
  | whole sections =>
      exact ⟨[], sections, rfl, by simp, List.suffix_refl _, fun _ => rfl⟩
  | marker w sections =>
      have hnew := Marker.after?_old_of_new w.newLine_marked
      cases hhunks : w.hunks with
      | nil =>
          refine ⟨[w.newLine], sections,
            by simp [WrittenSection.hunkLines, hhunks], by simpa using hnew,
            List.suffix_cons _ _, fun h => ?_⟩
          exact absurd (congrArg List.length h) (by simp)
      | cons v vs =>
          -- The search passes over the header of `v`.
          obtain ⟨behind, hlines⟩ :
              ∃ behind, s.ready = w.newLine :: v.header :: behind := by
            rw [hs, WrittenSection.hunkLines, hhunks]
            exact ⟨_, rfl⟩
          have hseek : Section.seekOld s =
              Section.seekOld ((s.skip 1).skip 1) := by
            rw [Section.seekOld_of_unmarked hlines hnew,
              Section.seekOld_of_unmarked
              (by rw [LineStream.ready_skip, hlines]; rfl)
              (Hunk.after?_old_of_isHeader v.isHeader_header)]
          have hlost :=
            Weight.headers.total_le_of_suffix
              (Section.ready_seekOld ((s.skip 1).skip 1))
          have hheader := Weight.headers.header v.header v.isHeader_header
          rw [← hseek, show ((s.skip 1).skip 1).ready =
            behind by simp [hlines]] at hlost
          rw [← hs, hlines, Weight.total_cons, Weight.total_cons] at hcounted
          omega
  | behind w _ ih =>
      obtain ⟨before, rest, hlines, hbefore, hrest, -⟩ :=
        ih (fun v hv => hnotes v (by simp [hv])) hs hcounted
      refine ⟨before, rest, hlines, hbefore, hrest.trans (List.suffix_cons _ _),
        fun h => ?_⟩
      have hlength := hrest.length_le
      rw [h, List.length_cons] at hlength
      omega

namespace Run

variable {settings : Settings} {r : Run}

/-- A section that is done and after which no hunk is missed has whole sections
in front of it. -/
theorem exists_boundary {w : WrittenSection} {sections : List WrittenSection}
    {p : LineStream} {after : Run} (hskip : settings.skipApplied = true)
    (hnotes : ∀ v ∈ sections, v.notes = [])
    (hp : p.ready = w.hunkLines ++ sections.flatMap WrittenSection.lines)
    (hafter : (r.entering (w.name settings.stripLevel) p).applySection settings
      (w.name settings.stripLevel) = after)
    (hdone : after.failure? = none)
    (hfine : (after.applySections settings).failure? = none)
    (hall : r.hunkSum + Weight.headers.total p.ready ≤
      (after.applySections settings).hunkSum) :
    ∃ (before : List Line) (rest : List WrittenSection),
      after.patch.ready = before ++ rest.flatMap WrittenSection.lines ∧
      (∀ line ∈ before, Bytes.after? Marker.old line = none) ∧
      rest <:+ sections ∧
      (rest = sections → before = []) ∧
      after.hunkSum + Weight.headers.total (rest.flatMap WrittenSection.lines) ≤
        (after.applySections settings).hunkSum := by
  have hcut : Cut sections after.patch.ready := by
    rw [← hafter] at hdone ⊢
    obtain ⟨o, -, -, hran, hleft, -⟩ := exists_work_of_fine hdone
    rw [hleft]
    exact Splice.cut_run settings _ hskip hnotes rfl hp hran
  -- What the section has counted, what it leaves, and what can still be
  -- counted.
  have hsection : after.hunkSum + Weight.headers.total after.patch.ready ≤
      r.hunkSum + Weight.headers.total p.ready := by
    rw [← hafter] at hdone ⊢
    exact hunkSum_applySection_le Weight.headers hdone
  have hbehind := hunkSum_applySections_le Weight.headers hfine
  obtain ⟨before, rest, hlines, hbefore, hrest, hwhole⟩ :=
    hcut.exists_boundary hnotes rfl (by omega)
  have hpassed :=
    Weight.headers.total_le_of_suffix (Section.ready_seekOld after.patch)
  refine ⟨before, rest, hlines, hbefore, hrest, hwhole, ?_⟩
  rw [hlines, Weight.total_append] at hsection
  omega

/-- A run that misses no hunk settles no more files than there are sections. -/
theorem size_applySections_le {sections : List WrittenSection}
    {before : List Line} (hskip : settings.skipApplied = true)
    (hbefore : ∀ line ∈ before, Bytes.after? Marker.old line = none)
    (hnotes : ∀ w ∈ sections, w.notes = [])
    (hr : r.patch.Yields (before ++ sections.flatMap WrittenSection.lines))
    (hfine : (r.applySections settings).failure? = none)
    (hall : r.hunkSum + Weight.headers.total
      (sections.flatMap WrittenSection.lines) ≤
      (r.applySections settings).hunkSum) :
    (r.applySections settings).files.size ≤ r.files.size + sections.length := by
  -- A section can take whole sections behind it, so the induction is on how
  -- many are left.
  induction hn : sections.length using Nat.strongRecOn generalizing sections
    before r with
  | ind n ih =>
  cases sections with
  | nil =>
      obtain ⟨p, hnone⟩ :=
        Section.next_of_notes settings.stripLevel hr (by simpa using hbefore)
      rw [applySections_of_none hnone]
      exact Nat.le_add_right _ _
  | cons w sections =>
      subst hn
      obtain ⟨p, after, hp, -, hafter, hdone, hrun⟩ :=
        exists_section hbefore (hnotes w (by simp)) hr hfine
      have hsections : ∀ v ∈ sections, v.notes = [] :=
        fun v hv => hnotes v (by simp [hv])
      rw [hrun] at hfine hall ⊢
      rw [Weight.headers_cons (hnotes w (by simp)), ← hp] at hall
      obtain ⟨notes, rest, hlines, hunmarked, hrest, -, hleft⟩ :=
        exists_boundary hskip hsections hp hafter hdone hfine hall
      have hbehind := ih rest.length (Nat.lt_succ_of_le hrest.length_le)
        hunmarked (fun v hv => hsections v (hrest.subset hv)) (.inl hlines)
        hfine hleft rfl
      have hone := size_applySection hafter hdone
      have hlength := hrest.length_le
      rw [List.length_cons]
      omega

end Run

end UnifiedPatch
