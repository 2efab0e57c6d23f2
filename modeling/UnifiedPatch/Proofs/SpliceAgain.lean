import UnifiedPatch.Proofs.SpliceReverse

/-!
# A patch applied to its own result

If lines may count as applied already, a line that is missed is passed over: the
source moves on and nothing is written. So a hunk with a place makes something
of every source that reaches as far as its place, and what it makes can be said
without the machine, as it can for hunks that fit (`leftover`, `rebuilt`). A
source that ends before the place of a hunk stops the work, and there is no
other way to stop it (`failure?_overHunks_iff`).

On the result of a first run this was to find every hunk done and to change
nothing. It does so if each hunk puts as many lines as it takes away between any
two lines that stay (`LineForLine`): the old lines are missed, as many lines of
the result are passed over, and the new lines come in their place. But a line
that was only added is not passed over when it is added again. The context
behind it then meets a source that is a line behind, is missed, and is lost
(`not_forall_run_again`). Which patches leave their result alone is therefore a
question of lines, and the answer is an equivalence (`run_again_iff`).
-/

namespace UnifiedPatch

/-- Between lines that stay, as many lines come as go; `ahead` more have gone
than come so far. -/
def LineForLine : Int → List BodyLine → Prop
  | ahead, [] => ahead = 0
  | ahead, ⟨.context, _, _⟩ :: body => ahead = 0 ∧ LineForLine 0 body
  | ahead, ⟨.deletion, _, _⟩ :: body => LineForLine (ahead + 1) body
  | ahead, ⟨.insertion, _, _⟩ :: body => LineForLine (ahead - 1) body

instance LineForLine.decidable : ∀ (ahead : Int) (body : List BodyLine),
    Decidable (LineForLine ahead body)
  | ahead, [] => inferInstanceAs (Decidable (ahead = 0))
  | _, ⟨.context, _, _⟩ :: body =>
      have := LineForLine.decidable 0 body
      inferInstanceAs (Decidable (_ ∧ _))
  | ahead, ⟨.deletion, _, _⟩ :: body => LineForLine.decidable (ahead + 1) body
  | ahead, ⟨.insertion, _, _⟩ :: body => LineForLine.decidable (ahead - 1) body

/-- A line replaced goes line for line; a line only added does not, though
another one is taken away behind a line that stays. -/
example :
    LineForLine 0 [⟨.deletion, [97, 10], [45, 97, 10]⟩,
      ⟨.insertion, [98, 10], [43, 98, 10]⟩] ∧
      ¬ LineForLine 0 [⟨.insertion, [98, 10], [43, 98, 10]⟩,
        ⟨.context, [99, 10], [32, 99, 10]⟩,
        ⟨.deletion, [97, 10], [45, 97, 10]⟩] := by
  decide

/-- The two sides of such a body are as long as each other. -/
theorem LineForLine.length_eq {ahead : Int} {body : List BodyLine}
    (h : LineForLine ahead body) :
    ahead + (sourceSide body).length = (resultSide body).length := by
  fun_induction LineForLine ahead body with
  | case1 ahead => simp [h]
  | case2 ahead content text body ih =>
      have := ih h.2
      simp [sourceSide_cons, resultSide_cons, h.1]
      omega
  | case3 ahead content text body ih =>
      have := ih h
      simp [sourceSide_cons, resultSide_cons]
      omega
  | case4 ahead content text body ih =>
      have := ih h
      simp [sourceSide_cons, resultSide_cons]
      omega

/-- A body that goes line for line makes its result again out of that result.
The source has been read up to `i`, the result stands from `j` on, and the one
is as far behind the other as more lines have gone than come. -/
theorem forwarded_of_lineForLine {ahead : Int} {body : List BodyLine}
    {lines rest : List Line} {i j : Nat} (h : LineForLine ahead body)
    (hahead : (i : Int) = j + ahead)
    (hlines : lines.drop j = resultSide body ++ rest) :
    forwarded body (lines.drop i) = resultSide body := by
  fun_induction LineForLine ahead body generalizing i j with
  | case1 ahead => rfl
  | case2 ahead content text body ih =>
      -- At a line that stays the source is where the result is.
      obtain rfl : i = j := by omega
      simp only [resultSide_cons, Role.inResult_context, if_true,
        List.cons_append] at hlines ⊢
      have htail : lines.drop (i + 1) = resultSide body ++ rest := by
        rw [← List.tail_drop, hlines, List.tail_cons]
      have hrest := ih (i := i + 1) h.2 (by omega) htail
      rw [forwarded, List.tail_drop, hrest, hlines]
      simp
  | case3 ahead content text body ih =>
      simp only [resultSide_cons, Role.inResult_deletion] at hlines ⊢
      have hrest := ih (i := i + 1) h (by omega) hlines
      rw [forwarded, List.tail_drop, hrest]
      simp
  | case4 ahead content text body ih =>
      simp only [resultSide_cons, Role.inResult_insertion, if_true,
        List.cons_append] at hlines ⊢
      have htail : lines.drop (j + 1) = resultSide body ++ rest := by
        rw [← List.tail_drop, hlines, List.tail_cons]
      have hrest := ih (i := i) (j := j + 1) h (by omega) htail
      rw [forwarded, hrest]
      simp

namespace WrittenHunk

variable {reverse : Bool} {source target : List Line} {ws : List WrittenHunk}

/-- What a hunk makes of a source if the lines that are missed are
passed over. -/
def leftover (reverse : Bool) (source : List Line) (w : WrittenHunk) :
    List Line :=
  forwarded (w.script reverse) (source.drop (w.place reverse))

theorem reads_counted (w : WrittenHunk) :
    Hunk.readHeader w.counted.header =
      .ok (some (Hunk.ofDigits w.counted.runs)) := by
  rw [show Hunk.ofDigits w.counted.runs = w.hunk from w.ofDigits_get]
  exact w.reads

theorem terminated_of_mem_leftover {w : WrittenHunk} {line : Line}
    (h : line ∈ w.leftover reverse source) : line.Terminated := by
  have hafter : line ∈ w.after reverse := by
    rw [← w.resultSide_script reverse]
    exact (forwarded_sublist _ _).subset h
  exact terminated_of_mem_after hafter

theorem length_after_of_lineForLine {w : WrittenHunk}
    (h : LineForLine 0 (w.script reverse)) :
    (w.after reverse).length = (w.facing reverse).old.count := by
  have hsides := h.length_eq
  rw [w.sourceSide_script, w.length_before, w.resultSide_script] at hsides
  omega

/-- Hunks that go line for line gain no line. -/
theorem length_rebuilt_of_lineForLine {start : Nat}
    (hlines : ∀ w ∈ ws, LineForLine 0 (w.script reverse))
    (horder : InOrder reverse source.length start ws)
    (hfits : ∀ w ∈ ws, w.Fits reverse source) :
    (rebuilt reverse source (after reverse) start ws).length =
      source.length - start := by
  induction ws generalizing start with
  | nil => exact List.length_drop
  | cons w ws ih =>
      obtain ⟨-, hlow, hhigh, horder⟩ := horder
      have hcount := length_after_of_lineForLine (hlines w (by simp))
      have hrest := ih (fun v hv => hlines v (by simp [hv])) horder
        fun v hv => hfits v (by simp [hv])
      have hrange := congrArg List.length (hfits w (by simp))
      rw [range, List.length_take, List.length_drop, w.length_before] at hrange
      have hstop : w.stop reverse =
          w.place reverse + (w.facing reverse).old.count := rfl
      rw [rebuilt, List.length_append, List.length_append, List.length_take,
        List.length_drop, hrest, hcount]
      omega

theorem place_le_of_inOrder {size start : Nat}
    (horder : InOrder reverse size start ws) {w : WrittenHunk} (hw : w ∈ ws) :
    w.place reverse ≤ size := by
  induction ws generalizing start with
  | nil => exact absurd hw (by simp)
  | cons v ws ih =>
      obtain ⟨-, -, hhigh, horder⟩ := horder
      rcases List.mem_cons.1 hw with rfl | hw
      · exact hhigh
      · exact ih horder hw

/-- Such hunks leave their own result as it is, wherever they say that they are
in the new file. -/
theorem rebuilt_leftover {start : Nat}
    (hlines : ∀ w ∈ ws, LineForLine 0 (w.script reverse))
    (horder : InOrder reverse source.length start ws)
    (htarget : target.drop start =
      rebuilt reverse source (after reverse) start ws) :
    rebuilt reverse target (leftover reverse target) start ws =
      target.drop start := by
  induction ws generalizing start with
  | nil => rfl
  | cons w ws ih =>
      obtain ⟨-, hlow, hhigh, horder⟩ := horder
      have hcount := length_after_of_lineForLine (hlines w (by simp))
      generalize hg : (source.drop start).take (w.place reverse - start) = gap
      have hgap : start + gap.length = w.place reverse := by
        rw [← hg, List.length_take, List.length_drop]
        omega
      rw [rebuilt, hg, List.append_assoc] at htarget
      have hplace : target.drop (w.place reverse) =
          w.after reverse ++ rebuilt reverse source (after reverse)
            (w.stop reverse) ws := by
        rw [← hgap, ← List.drop_drop, htarget, List.drop_left]
      have hbehind : target.drop (w.stop reverse) =
          rebuilt reverse source (after reverse) (w.stop reverse) ws := by
        have hdrop := congrArg (List.drop (w.after reverse).length) hplace
        rw [List.drop_drop, List.drop_left, hcount] at hdrop
        exact hdrop
      have hleft : w.leftover reverse target = w.after reverse := by
        rw [← w.resultSide_script reverse] at hplace ⊢
        exact forwarded_of_lineForLine (hlines w (by simp))
          (Int.add_zero _).symm hplace
      have hrest := ih (fun v hv => hlines v (by simp [hv])) horder hbehind
      rw [rebuilt, hleft, hrest, hbehind, htarget,
        show w.place reverse - start =
          gap.length by omega, List.take_left, List.append_assoc]

end WrittenHunk

/-! ## Hunks whose missed lines are passed over -/

namespace Splice

open WrittenHunk

variable (settings : Settings) (name : Bytes) {s : Splice} {source : List Line}
  {reverse : Bool} {w : WrittenHunk} {ws : List WrittenHunk} {consumed : Nat}

/-- Between two hunks, with `consumed` lines of the source gone, or all of them
if there were fewer. -/
structure Between (lines : List Line) (consumed : Nat) (s : Splice) : Prop where
  source : s.source.ready = lines.drop consumed
  cursor : s.cursor = min consumed lines.length + 1

/-- A hunk with a place is entered if the source reaches to that place. -/
theorem entered_stepLeading_iff (hs : Between source consumed s)
    (hwhole : (w.facing reverse).wholeFile = false)
    (hlow : consumed ≤ w.place reverse) :
    (s.stepLeading name (w.facing reverse)).Entered (w.facing reverse) ↔
      w.place reverse ≤ source.length := by
  have hstart := start_eq_place_add_one hwhole
  have hcursor := hs.cursor
  have hlines : s.source.ready.length = source.length - consumed := by
    rw [hs.source, List.length_drop]
  constructor
  · intro h
    obtain ⟨gap, hsource, -, -, -, -, hplaced⟩ := stepLeading_entered name h
    have hlength := congrArg List.length hsource
    rw [List.length_append] at hlength
    have := hplaced hwhole
    omega
  · intro h
    have hle : s.cursor ≤ (w.facing reverse).old.start := by omega
    have hcopied :
        (s.source.ready.take ((w.facing reverse).old.start - s.cursor)).length =
        (w.facing reverse).old.start - s.cursor := by
      rw [List.length_take]
      omega
    simp only [stepLeading, hwhole, Bool.false_eq_true, if_false,
      if_neg (Nat.not_lt.2 hle), LineStream.copy, Int.toNat_natCast,
      LineStream.takeLines_eq_take_skip, hcopied, Int.sub_self, if_true]
    rfl

/-- Where the source stands before the body of a hunk, and what was copied. -/
theorem between_stepLeading (hs : Between source consumed s)
    (hwhole : (w.facing reverse).wholeFile = false)
    (hlow : consumed ≤ w.place reverse)
    (hhigh : w.place reverse ≤ source.length) :
    Between source (w.place reverse) (s.stepLeading name (w.facing reverse)) ∧
      (s.stepLeading name (w.facing reverse)).written.toList =
        s.written.toList ++ (source.drop consumed).take
          (w.place reverse - consumed) ∧
      (s.stepLeading name (w.facing reverse)).flush = true := by
  have hstart := start_eq_place_add_one hwhole
  have hcursor := hs.cursor
  obtain ⟨gap, hsource, hwritten, hled, hflush, -, hplaced⟩ :=
    stepLeading_entered name
      ((entered_stepLeading_iff name hs hwhole hlow).2 hhigh)
  have hgap := hplaced hwhole
  have hlength : gap.length = w.place reverse - consumed := by omega
  rw [hs.source] at hsource
  refine ⟨⟨?_, by omega⟩, ?_, ?_⟩
  · rw [← Nat.add_sub_cancel' hlow, ← List.drop_drop, hsource, ← hlength,
      List.drop_left]
  · rw [hwritten, hsource, ← hlength, List.take_left]
  · rw [hflush, hwhole]
    simp

/-- A hunk stops the work exactly if the source ends before its place. -/
theorem failure?_overHunk_iff (hs : Between source consumed s)
    (hwhole : (w.facing settings.reverse).wholeFile = false)
    (hlow : consumed ≤ w.place settings.reverse) :
    (s.overHunk settings name w.counted).failure? = none ↔
      w.place settings.reverse ≤ source.length := by
  have hnext : Between source consumed { s with hunks := s.hunks + 1 } :=
    ⟨hs.source, hs.cursor⟩
  rw [← entered_stepLeading_iff name hnext hwhole hlow]
  rcases overHunk_cases settings name w.counted s with
    ⟨run, hbad, -⟩ | ⟨-, ⟨why, hwhy, hover⟩ | ⟨henter, hover⟩⟩
  · rw [w.reads_counted] at hbad
    exact absurd hbad (by simp)
  · rw [hover, failure?_eq_some_iff.2 hwhy]
    rw [overLeading, facing_counted] at hwhy
    refine iff_of_false (by simp) fun henter => ?_
    exact absurd (hwhy.symm.trans henter) (by simp)
  · rw [hover, failure?_of_header (overBody_phase settings name _ _)]
    rw [overLeading, facing_counted] at henter
    exact iff_of_true rfl henter

/-- What a hunk makes of a source that reaches to its place. -/
theorem overHunk_forward (hskip : settings.skipApplied = true)
    (hs : Between source consumed s)
    (hwhole : (w.facing settings.reverse).wholeFile = false)
    (hlow : consumed ≤ w.place settings.reverse)
    (hhigh : w.place settings.reverse ≤ source.length) :
    Between source (w.stop settings.reverse)
      (s.overHunk settings name w.counted) ∧
      (s.overHunk settings name w.counted).written.toList =
        s.written.toList ++ (source.drop consumed).take
          (w.place settings.reverse - consumed) ++
            w.leftover settings.reverse source ∧
      (s.overHunk settings name w.counted).flush = true := by
  have hnext : Between source consumed { s with hunks := s.hunks + 1 } :=
    ⟨hs.source, hs.cursor⟩
  obtain ⟨hled, hcopied, hflush⟩ :=
    between_stepLeading name hnext hwhole hlow hhigh
  obtain ⟨-, -, hover⟩ := entered_of_fine settings name
    ((failure?_overHunk_iff settings name hs hwhole hlow).2 hhigh)
  rw [overBody, if_pos hskip, overLeading, facing_counted,
    script_counted] at hover
  have hpassed := overLines_passed name (w.script settings.reverse)
    (({ s with hunks := s.hunks + 1 } : Splice).stepLeading name
      (w.facing settings.reverse))
  have hcount : (sourceSide (w.script settings.reverse)).length =
      (w.facing settings.reverse).old.count := by
    rw [sourceSide_script, length_before]
  rw [hover]
  refine ⟨⟨?_, ?_⟩, ?_, ?_⟩
  · show (overLines _ _ _).source.ready = _
    rw [hpassed.source, hled.source, hcount, List.drop_drop]
    rfl
  · show (overLines _ _ _).cursor = _
    rw [hpassed.cursor, hled.cursor, hled.source, hcount, List.length_drop,
      WrittenHunk.stop]
    omega
  · show (overLines _ _ _).written.toList = _
    rw [hpassed.written, hled.source, hcopied]
    rfl
  · show (overLines _ _ _).flush = _
    rw [hpassed.flush, hflush]

theorem failed_overHunks_of_skip (hskip : settings.skipApplied = true)
    (ws : List CountedHunk) (s : Splice) :
    (s.overHunks settings name ws).failed = s.failed := by
  induction ws generalizing s with
  | nil => rfl
  | cons w ws ih =>
      have hone : (s.overHunk settings name w).failed = s.failed := by
        have hled : (s.overLeading settings name w).failed = s.failed :=
          failed_stepLeading name _ _
        rcases overHunk_cases settings name w s with
          ⟨run, -, h⟩ | ⟨-, ⟨why, -, h⟩ | ⟨-, h⟩⟩ <;> rw [h]
        · rfl
        · exact hled
        · rw [overBody, if_pos hskip]
          exact (overLines_passed name _ _).failed.trans hled
      rw [overHunks]
      split
      · exact hone
      · rw [ih, hone]

/-- Hunks one after another get done exactly if the source reaches to all their
places. -/
theorem failure?_overHunks_iff {size : Nat}
    (hskip : settings.skipApplied = true) (hs : Between source consumed s)
    (hfine : s.failure? = none)
    (horder : InOrder settings.reverse size consumed ws) :
    (s.overHunks settings name (ws.map counted)).failure? = none ↔
      ∀ w ∈ ws, w.place settings.reverse ≤ source.length := by
  induction ws generalizing s consumed with
  | nil => exact iff_of_true hfine (by simp)
  | cons w ws ih =>
      obtain ⟨hwhole, hlow, -, horder⟩ := horder
      have hone := failure?_overHunk_iff settings name hs hwhole hlow
      rw [List.map_cons, overHunks, List.forall_mem_cons]
      by_cases hhigh : w.place settings.reverse ≤ source.length
      · have hgone := hone.2 hhigh
        obtain ⟨hnext, -⟩ :=
          overHunk_forward settings name hskip hs hwhole hlow hhigh
        rw [if_neg (by simp [hgone]), ih hnext hgone horder]
        exact ⟨fun h => ⟨hhigh, h⟩, fun h => h.2⟩
      · have hstopped := mt hone.1 hhigh
        rw [if_pos (by simpa [Option.isSome_iff_ne_none] using hstopped)]
        exact iff_of_false hstopped fun h => hhigh h.1

/-- What is written then, and what is still to be read, make up the
source rebuilt. -/
theorem overHunks_forward {size : Nat} (hskip : settings.skipApplied = true)
    (hs : Between source consumed s)
    (horder : InOrder settings.reverse size consumed ws)
    (hplaces : ∀ w ∈ ws, w.place settings.reverse ≤ source.length) :
    (s.overHunks settings name (ws.map counted)).written.toList ++
        (s.overHunks settings name (ws.map counted)).source.ready =
      s.written.toList ++
        rebuilt settings.reverse source (leftover settings.reverse source)
          consumed ws ∧
      (ws ≠ [] → (s.overHunks settings name (ws.map counted)).flush = true) ∧
      (s.flush = true →
        (s.overHunks settings name (ws.map counted)).flush = true) := by
  induction ws generalizing s consumed with
  | nil =>
      refine ⟨?_, by simp, id⟩
      show s.written.toList ++ s.source.ready = _
      rw [hs.source]
      rfl
  | cons w ws ih =>
      obtain ⟨hwhole, hlow, -, horder⟩ := horder
      obtain ⟨hhigh, hplaces⟩ := List.forall_mem_cons.1 hplaces
      have hgone := (failure?_overHunk_iff settings name hs hwhole hlow).2 hhigh
      obtain ⟨hnext, hwritten, hflush⟩ :=
        overHunk_forward settings name hskip hs hwhole hlow hhigh
      obtain ⟨hlines, -, hkept⟩ := ih hnext horder hplaces
      rw [List.map_cons, overHunks, if_neg (by simp [hgone])]
      refine ⟨?_, fun _ => hkept hflush, fun _ => hkept hflush⟩
      rw [hlines, hwritten, rebuilt]
      simp only [List.append_assoc]

theorem failure?_overSection_iff {ws : List CountedHunk} :
    (s.overSection settings name ws).failure? = none ↔
      (s.overHunks settings name ws).failure? = none := by
  refine ⟨fun h => (overSection_fine settings name h).1, fun h => ?_⟩
  rw [overSection, h]
  rfl

theorem failed_overSection (ws : List CountedHunk) (s : Splice) :
    (s.overSection settings name ws).failed =
      (s.overHunks settings name ws).failed := by
  unfold overSection stepTrailing
  simp only []
  split
  · rfl
  · split <;> rfl

/-- A run that passes over missed lines fails at no hunk. It ends exactly if the
source reaches to all places, and then it leaves the source rebuilt. -/
theorem run_forward {patch stream : LineStream} {tail : Bytes} {size : Nat}
    (hskip : settings.skipApplied = true) (hne : ws ≠ [])
    (hpatch : patch.ready = Bytes.lines (textOf ws ++ tail))
    (horder : InOrder settings.reverse size 0 ws)
    (htail : ∀ line ∈ tail.lines.head?,
      Hunk.isHeader line = false ∧
        BodyLine.ofLine? settings.reverse line = none) :
    ((start patch stream).run settings name).failed = 0 ∧
      (((start patch stream).run settings name).failure? = none ↔
        ∀ w ∈ ws, w.place settings.reverse ≤ stream.ready.length) ∧
      ((∀ w ∈ ws, w.place settings.reverse ≤ stream.ready.length) →
        ((start patch stream).run settings name).written.toList =
          rebuilt settings.reverse stream.ready
            (leftover settings.reverse stream.ready) 0 ws) := by
  have hlines : (start patch stream).patch.ready =
      (ws.map counted).flatMap CountedHunk.lines ++ tail.lines := by
    rw [flatMap_lines_counted, ← lines_textOf_append]
    exact hpatch
  obtain ⟨p, -, hrun⟩ := run_overSection settings name
    (fun _ _ line hline => .inl (htail line hline).2) rfl (.inl hlines)
    fun line hline => (htail line hline).1
  have hs : Between stream.ready 0 (start patch stream) :=
    ⟨rfl, by simp [start]⟩
  have hends := failure?_overHunks_iff settings name hskip hs rfl horder
  rw [hrun]
  refine ⟨?_, (failure?_overSection_iff settings name).trans hends,
    fun hplaces => ?_⟩
  · show ((start patch stream).overSection settings name
      (ws.map counted)).failed = 0
    rw [failed_overSection, failed_overHunks_of_skip settings name hskip]
    rfl
  · obtain ⟨hall, hflush, -⟩ :=
      overHunks_forward settings name hskip hs horder hplaces
    obtain ⟨-, -, hwritten⟩ := overSection_fine settings name
      ((failure?_overSection_iff settings name).2 (hends.2 hplaces))
    show ((start patch stream).overSection settings name
      (ws.map counted)).written.toList = _
    rw [hwritten, hflush hne, if_pos rfl, hall]
    rfl

/-! ## The result of a first run -/

/-- What a run leaves that went well, cut into lines again, is the
source rebuilt. -/
theorem lines_output_of_clean {patch stream : LineStream} {tail : Bytes}
    (hskip : settings.skipApplied = false) (hne : ws ≠ [])
    (hpatch : patch.ready = Bytes.lines (textOf ws ++ tail))
    (hsource : ∀ line ∈ stream.ready, Line.Terminated line)
    (hplaced : ∀ w ∈ ws, w.hunk.wholeFile = false)
    (htail : ∀ line ∈ tail.lines.head?, Hunk.isHeader line = false)
    (hfine : ((start patch stream).run settings name).failure? = none)
    (hclean : ((start patch stream).run settings name).failed = 0) :
    ((start patch stream).run settings name).output.lines =
      rebuilt settings.reverse stream.ready (after settings.reverse) 0 ws := by
  obtain ⟨-, -, hwritten⟩ :=
    run_of_clean settings name hskip hne hpatch hplaced htail hfine hclean
  rw [output, hwritten]
  exact Bytes.lines_flatten fun line =>
    terminated_of_mem_rebuilt hsource fun _ _ _ => terminated_of_mem_after

/-- The machine at the end of a second run, on what the first one left, with the
lines that are missed passed over. -/
def runAgain (settings : Settings) (name patch source : Bytes) : Splice :=
  runOn { settings with skipApplied := true } name patch
    (runOn settings name patch source).output

variable {tail bytes : Bytes}

theorem runAgain_forward (hskip : settings.skipApplied = false) (hne : ws ≠ [])
    (hplaced : ∀ w ∈ ws, w.hunk.wholeFile = false)
    (htail : ∀ line ∈ tail.lines.head?,
      Hunk.isHeader line = false ∧
        BodyLine.ofLine? settings.reverse line = none)
    (hfine : (runOn settings name (textOf ws ++ tail) bytes).failure? = none)
    (hclean : (runOn settings name (textOf ws ++ tail) bytes).failed = 0)
    (target : List Line)
    (htarget : (runOn settings name (textOf ws ++ tail) bytes).output.lines =
      target) :
    (runAgain settings name (textOf ws ++ tail) bytes).failed = 0 ∧
      ((runAgain settings name (textOf ws ++ tail) bytes).failure? = none ↔
        ∀ w ∈ ws, w.place settings.reverse ≤ target.length) ∧
      ((∀ w ∈ ws, w.place settings.reverse ≤ target.length) →
        (runAgain settings name (textOf ws ++ tail) bytes).written.toList =
          rebuilt settings.reverse target
            (leftover settings.reverse target) 0 ws) := by
  obtain ⟨horder, -, -⟩ := run_of_clean settings name hskip hne
    (LineStream.ready_ofBytes _) hplaced
    (fun line hline => (htail line hline).1) hfine hclean
  subst htarget
  exact run_forward { settings with skipApplied := true } name rfl hne
    (LineStream.ready_ofBytes _)
    horder htail

/-- When a patch leaves its own result alone. The second run never has a failed
hunk; it ends if the result reaches to all places, and it gives the result back
if the pieces that it makes of the result put it together again. -/
theorem run_again_iff (source tail : Bytes) (ws : List WrittenHunk)
    (hskip : settings.skipApplied = false) (hne : ws ≠ [])
    (hsource : ∀ line ∈ source.lines, line.Terminated)
    (hplaced : ∀ w ∈ ws, w.hunk.wholeFile = false)
    (htail : ∀ line ∈ tail.lines.head?,
      Hunk.isHeader line = false ∧
        BodyLine.ofLine? settings.reverse line = none)
    (hfine : (runOn settings name (textOf ws ++ tail) source).failure? = none)
    (hclean : (runOn settings name (textOf ws ++ tail) source).failed = 0) :
    (runAgain settings name (textOf ws ++ tail) source).failed = 0 ∧
      ((runAgain settings name (textOf ws ++ tail) source).failure? = none ∧
          (runAgain settings name (textOf ws ++ tail) source).output =
            (runOn settings name (textOf ws ++ tail) source).output ↔
        (∀ w ∈ ws,
          w.place settings.reverse ≤
            (runOn settings name (textOf ws ++ tail)
              source).output.lines.length) ∧
        rebuilt settings.reverse
          (runOn settings name (textOf ws ++ tail) source).output.lines
          (leftover settings.reverse
            (runOn settings name (textOf ws ++ tail) source).output.lines)
          0 ws =
          (runOn settings name (textOf ws ++ tail) source).output.lines) := by
  have hhead : ∀ line ∈ tail.lines.head?, Hunk.isHeader line = false :=
    fun line hline => (htail line hline).1
  have hcut := lines_output_of_clean settings name hskip hne
    (LineStream.ready_ofBytes _) hsource
    hplaced hhead hfine hclean
  have hlines :
    ∀ line ∈ (runOn settings name (textOf ws ++ tail) source).output.lines,
      line.Terminated := by
    intro line hline
    rw [runOn, hcut] at hline
    exact terminated_of_mem_rebuilt hsource
      (fun _ _ _ => terminated_of_mem_after) hline
  obtain ⟨hfailed, hends, hwritten⟩ := runAgain_forward settings name hskip hne
    hplaced htail hfine
    hclean _ rfl
  refine ⟨hfailed, ?_⟩
  rw [hends]
  refine and_congr_right fun hplaces => ?_
  rw [output, hwritten hplaces]
  constructor
  · intro h
    -- Lines with their newlines are what their bytes are cut into.
    have hall : ∀ line ∈ rebuilt settings.reverse
        (runOn settings name (textOf ws ++ tail) source).output.lines
        (leftover settings.reverse
          (runOn settings name (textOf ws ++ tail) source).output.lines)
        0 ws, line.Terminated :=
      fun line => terminated_of_mem_rebuilt hlines fun _ _ _ =>
        terminated_of_mem_leftover
    have hagain := Bytes.lines_flatten_append hall []
    rw [List.append_nil, Bytes.lines, List.append_nil, h] at hagain
    exact hagain.symm
  · intro h
    rw [h, Bytes.flatten_lines]

/-- Two lines that were replaced are found replaced. -/
theorem run_again_twoHunks :
    (runAgain { directory := ⟨.working, []⟩ } [] (textOf twoHunks)
      (Bytes.ascii "-- x\nb\n")).output = Bytes.ascii "y\nc\n" := by
  have hfirst : (runOn { directory := ⟨.working, []⟩ } [] (textOf twoHunks)
      (Bytes.ascii "-- x\nb\n")).output = Bytes.ascii "y\nc\n" := by
      decide +kernel
  have hiff := (run_again_iff { directory := ⟨.working, []⟩ } []
    (Bytes.ascii "-- x\nb\n") []
    twoHunks rfl (by decide) (by decide) (by decide) (by decide)
      (by decide +kernel)
    (by decide +kernel)).2
  rw [List.append_nil, hfirst] at hiff
  exact (hiff.2 ⟨by decide +kernel, by decide +kernel⟩).2

/-- A line added between the first two of three. -/
def insertion : WrittenHunk where
  header := Bytes.ascii "@@ -1,3 +1,4 @@\n"
  hunk := ⟨⟨1, 3⟩, ⟨1, 4⟩⟩
  body :=
    [{ role := .context, content := Bytes.ascii "one\n", terminated := by decide
       blank_of_bare := by simp },
     { role := .insertion
       content := Bytes.ascii "new\n"
       terminated := by decide
       blank_of_bare := by simp },
     { role := .context, content := Bytes.ascii "two\n", terminated := by decide
       blank_of_bare := by simp },
     { role := .context
       content := Bytes.ascii "three\n"
       terminated := by decide
       blank_of_bare := by simp }]
  reads := rfl
  terminated := by decide
  old_count := rfl
  new_count := rfl

/-- The second run loses a line: with `new` written again, `two` meets the `new`
of the result and `three` meets `two`. -/
theorem not_forall_run_again :
    ¬ ∀ (settings : Settings) (name source : Bytes) (ws : List WrittenHunk),
      settings.reverse = false → settings.skipApplied = false → ws ≠ [] →
      (∀ line ∈ source.lines, line.Terminated) →
      (∀ w ∈ ws, w.hunk.wholeFile = false) →
      InOrder false source.lines.length 0 ws → Renumbered 0 ws →
      (runOn settings name (textOf ws) source).failure? = none →
      (runOn settings name (textOf ws) source).failed = 0 →
      (runAgain settings name (textOf ws) source).failure? = none ∧
        (runAgain settings name (textOf ws) source).failed = 0 ∧
        (runAgain settings name (textOf ws) source).output =
          (runOn settings name (textOf ws) source).output := by
  intro h
  obtain ⟨-, -, houtput⟩ := h { directory := ⟨.working, []⟩ } []
    (Bytes.ascii "one\ntwo\nthree\n") [insertion] rfl rfl (by decide)
    (by decide) (by decide) (by decide) (by decide)
    (by decide +kernel) (by decide +kernel)
  have hfirst : (runOn { directory := ⟨.working, []⟩ } [] (textOf [insertion])
      (Bytes.ascii "one\ntwo\nthree\n")).output =
      Bytes.ascii "one\nnew\ntwo\nthree\n" := by
    decide +kernel
  have hsecond :
      (runAgain { directory := ⟨.working, []⟩ } [] (textOf [insertion])
      (Bytes.ascii "one\ntwo\nthree\n")).output =
        Bytes.ascii "one\nnew\nthree\n" := by
    decide +kernel
  rw [hfirst, hsecond] at houtput
  exact absurd houtput (by decide)

/-- Hunks that go line for line find their own result as it should be. -/
theorem runAgain_of_lineForLine (source tail : Bytes) (ws : List WrittenHunk)
    (hskip : settings.skipApplied = false) (hne : ws ≠ [])
    (hsource : ∀ line ∈ source.lines, line.Terminated)
    (hplaced : ∀ w ∈ ws, w.hunk.wholeFile = false)
    (htail : ∀ line ∈ tail.lines.head?,
      Hunk.isHeader line = false ∧
        BodyLine.ofLine? settings.reverse line = none)
    (hlines : ∀ w ∈ ws, LineForLine 0 (w.script settings.reverse))
    (hfine : (runOn settings name (textOf ws ++ tail) source).failure? = none)
    (hclean : (runOn settings name (textOf ws ++ tail) source).failed = 0) :
    (runAgain settings name (textOf ws ++ tail) source).failure? = none ∧
      (runAgain settings name (textOf ws ++ tail) source).failed = 0 ∧
      (runAgain settings name (textOf ws ++ tail) source).output =
        (runOn settings name (textOf ws ++ tail) source).output := by
  have hhead : ∀ line ∈ tail.lines.head?, Hunk.isHeader line = false :=
    fun line hline => (htail line hline).1
  have hcut := lines_output_of_clean settings name hskip hne
    (LineStream.ready_ofBytes _) hsource
    hplaced hhead hfine hclean
  obtain ⟨horder, hfits, -⟩ := run_of_clean settings name hskip hne
    (LineStream.ready_ofBytes _)
    hplaced hhead hfine hclean
  obtain ⟨hfailed, hends, hwritten⟩ := runAgain_forward settings name hskip hne
    hplaced htail hfine
    hclean _ hcut
  generalize htarget :
    rebuilt settings.reverse (LineStream.ofBytes source).ready
    (after settings.reverse) 0 ws = target at hcut hends hwritten
  have hlength : target.length = (LineStream.ofBytes source).ready.length := by
    rw [← htarget, length_rebuilt_of_lineForLine hlines horder hfits,
      Nat.sub_zero]
  have hplaces : ∀ w ∈ ws, w.place settings.reverse ≤ target.length := by
    rw [hlength]
    exact fun w hw => place_le_of_inOrder horder hw
  have hback : target.drop 0 =
    rebuilt settings.reverse (LineStream.ofBytes source).ready
      (after settings.reverse) 0 ws := htarget.symm
  refine ⟨hends.2 hplaces, hfailed, ?_⟩
  rw [output, hwritten hplaces, rebuilt_leftover hlines horder hback,
    List.drop_zero, ← hcut]
  exact Bytes.flatten_lines _

end Splice

end UnifiedPatch
