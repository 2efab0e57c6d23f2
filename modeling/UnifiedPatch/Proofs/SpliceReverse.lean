import UnifiedPatch.Proofs.SpliceHunks
import UnifiedPatch.Proofs.SpliceMerge

/-!
# A patch taken back

A run that went well can be undone by the same patch read backwards, if the
patch numbers the lines of the new file as it numbers those of the old one: a
hunk is as far down in the new file as the hunks before it have made the file
longer (`Renumbered`). The first run never looks at the numbers of the new file,
so this has to be asked for. That the hunks are in order and do not overlap has
not, since a run on others does not go well (`fits_of_clean`).

What the first run leaves is the source rebuilt, and the second one rebuilds
that. The two rebuildings are compared from hunk to hunk: behind the same hunk
the one has as many lines more than the other as was gained so far, the lines
before the hunk are the same, and the lines that the hunk made are the ones that
it now takes (`rebuilt_rebuilt`). Between the runs the lines are put together
and cut again, which gives them back if each has its newline.
-/

namespace UnifiedPatch

theorem Hunk.wholeFile_swap (h : Hunk) : h.swap.wholeFile = h.wholeFile :=
  Bool.or_comm _ _

namespace WrittenHunk

variable {reverse : Bool} {source target : List Line} {ws : List WrittenHunk}

/-! ## A written hunk by its lines -/

theorem script_eq_filterMap (reverse : Bool) (w : WrittenHunk) :
    (w.body.map WrittenLine.text).filterMap (BodyLine.ofLine? reverse) =
      w.script reverse := by
  have h := congrArg (List.filterMap id) (w.map_ofLine?_body reverse)
  simpa [List.filterMap_map, Function.comp_def] using h

theorem isSome_runs? (w : WrittenHunk) : (Hunk.runs? w.header).isSome := by
  obtain ⟨r, hr, -⟩ := Hunk.runs_of_readHeader w.reads
  rw [hr]
  rfl

theorem ofDigits_get (w : WrittenHunk) :
    Hunk.ofDigits ((Hunk.runs? w.header).get w.isSome_runs?) = w.hunk := by
  obtain ⟨r, hr, hunk⟩ := Hunk.runs_of_readHeader w.reads
  simp only [hr, Option.get_some, hunk]

/-- A written hunk with the lines of its body alone, as the patch holds them. -/
def counted (w : WrittenHunk) : CountedHunk where
  header := w.header
  runs := (Hunk.runs? w.header).get w.isSome_runs?
  body := w.body.map WrittenLine.text
  header_runs := by simp
  body_lines := by
    intro line hline
    obtain ⟨l, -, rfl⟩ := List.mem_map.1 hline
    rw [WrittenLine.ofLine?_text]
    rfl
  old_count := by
    rw [script_eq_filterMap, sourceSide_script, length_before, ofDigits_get]
    rfl
  new_count := by
    rw [script_eq_filterMap, resultSide_script, length_after, ofDigits_get]
    rfl

@[simp] theorem facing_counted (reverse : Bool) (w : WrittenHunk) :
    w.counted.facing reverse = w.facing reverse := by
  simp only [CountedHunk.facing, facing, counted, ofDigits_get]

@[simp] theorem script_counted (reverse : Bool) (w : WrittenHunk) :
    w.counted.script reverse = w.script reverse :=
  w.script_eq_filterMap reverse

theorem flatMap_lines_counted (ws : List WrittenHunk) :
    (ws.map counted).flatMap CountedHunk.lines = ws.flatMap lines := by
  rw [List.flatMap_map]
  rfl

theorem wholeFile_facing (reverse : Bool) (w : WrittenHunk) :
    (w.facing reverse).wholeFile = w.hunk.wholeFile := by
  cases reverse with
  | false => rfl
  | true => exact w.hunk.wholeFile_swap

/-! ## The two numberings -/

/-- The hunks are as far down in the new file as in the old one and `gained`
lines further, the lines that they themselves gain coming on top. -/
def Renumbered : Int → List WrittenHunk → Prop
  | _, [] => True
  | gained, w :: ws =>
      (w.hunk.new.start : Int) = w.hunk.old.start + gained ∧
        Renumbered (gained + (w.hunk.new.count - w.hunk.old.count)) ws

instance Renumbered.decidable : ∀ (gained : Int) (ws : List WrittenHunk),
    Decidable (Renumbered gained ws)
  | _, [] => isTrue trivial
  | gained, w :: ws =>
      have :=
        Renumbered.decidable (gained + (w.hunk.new.count - w.hunk.old.count)) ws
      inferInstanceAs (Decidable (_ ∧ _))

/-- The lines before a hunk, the lines that it takes, and the rest. -/
theorem drop_eq_of_fits {w : WrittenHunk} {start : Nat}
    (hfits : w.Fits reverse source) (hlow : start ≤ w.place reverse) :
    source.drop start = (source.drop start).take (w.place reverse - start) ++
      w.before reverse ++ source.drop (w.stop reverse) := by
  have hplace : source.drop (w.place reverse) =
      w.before reverse ++ source.drop (w.stop reverse) := by
    rw [stop, ← List.drop_drop, ← hfits]
    exact (List.take_append_drop _ _).symm
  rw [List.append_assoc, ← hplace]
  conv =>
    lhs; rw [← List.take_append_drop (w.place reverse - start)
      (source.drop start)]
  rw [List.drop_drop, Nat.add_sub_cancel' hlow]

/-- Rebuilt and rebuilt again. Behind `start` lines of the source and `start'`
of the target, as many more as were gained, the target is the source with the
hunks applied; then the hunks fit the target when it is read backwards, and
applied to it they give the source. -/
theorem rebuilt_rebuilt {start start' : Nat} {gained : Int}
    (hplaced : ∀ w ∈ ws, w.hunk.wholeFile = false)
    (horder : InOrder false source.length start ws)
    (hfits : ∀ w ∈ ws, w.Fits false source) (hnumbers : Renumbered gained ws)
    (hstart : (start' : Int) = start + gained) (hle : start' ≤ target.length)
    (htarget : target.drop start' =
      rebuilt false source (after false) start ws) :
    InOrder true target.length start' ws ∧ (∀ w ∈ ws, w.Fits true target) ∧
      rebuilt true target (after true) start' ws = source.drop start := by
  induction ws generalizing start start' gained with
  | nil => exact ⟨trivial, by simp, htarget⟩
  | cons w ws ih =>
      obtain ⟨-, hlow, hhigh, horder⟩ := horder
      obtain ⟨hnew, hnumbers⟩ := hnumbers
      have hwhole : ∀ reverse, (w.facing reverse).wholeFile = false :=
        fun reverse => by
        rw [wholeFile_facing]
        exact hplaced w (by simp)
      have hplace := start_eq_place_add_one (hwhole false)
      have hplace' := start_eq_place_add_one (hwhole true)
      rw [show (w.facing false).old.start = w.hunk.old.start from rfl] at hplace
      rw [show (w.facing true).old.start = w.hunk.new.start from rfl] at hplace'
      have hstop : w.stop false = w.place false + w.hunk.old.count := rfl
      have hstop' : w.stop true = w.place true + w.hunk.new.count := rfl
      -- The hunk is as far from `start'` as it is from `start`.
      have hgap : w.place true - start' = w.place false - start := by omega
      have hlow' : start' ≤ w.place true := by omega
      generalize hg : (source.drop start).take (w.place false - start) =
        gap at htarget
      have hlength : gap.length = w.place false - start := by
        rw [← hg, List.length_take, List.length_drop]
        omega
      rw [rebuilt, hg] at htarget
      have hafter : (w.after false).length = w.hunk.new.count :=
        w.length_after false
      have hmade : target.drop (w.place true) =
          w.after false ++ rebuilt false source (after false)
            (w.stop false) ws := by
        rw [← Nat.add_sub_cancel' hlow', ← List.drop_drop, htarget, hgap,
          ← hlength, List.append_assoc, List.drop_left]
      have hbehind : target.drop (w.stop true) =
          rebuilt false source (after false) (w.stop false) ws := by
        rw [hstop', ← List.drop_drop, hmade, ← hafter, List.drop_left]
      have hlines := congrArg List.length htarget
      simp only [List.length_append, List.length_drop, hafter,
        hlength] at hlines
      obtain ⟨horder', hfits', hback⟩ := ih
        (fun v hv => hplaced v (by simp [hv])) horder
        (fun v hv => hfits v (by simp [hv])) hnumbers (by omega)
        (by omega) hbehind
      refine ⟨⟨hwhole true, hlow', by omega, horder'⟩, ?_, ?_⟩
      · intro v hv
        rcases List.mem_cons.1 hv with rfl | hv
        · rw [fits_iff_isPrefix, hmade]
          exact List.prefix_append _ _
        · exact hfits' v hv
      · rw [rebuilt, hback, drop_eq_of_fits (hfits w (by simp)) hlow, hg,
          htarget, hgap, ← hlength, List.append_assoc gap, List.take_left]
        rfl

theorem terminated_of_mem_after {w : WrittenHunk} {line : Line}
    (h : line ∈ w.after reverse) :
    line.Terminated := by
  rw [← w.resultSide_script, resultSide, script, List.filter_map,
    List.map_map] at h
  obtain ⟨l, -, rfl⟩ := List.mem_map.1 h
  exact l.terminated

theorem terminated_of_mem_rebuilt {pieceOf : WrittenHunk → List Line}
    {start : Nat} {line : Line} (hsource : ∀ line ∈ source, line.Terminated)
    (hpieces : ∀ w ∈ ws, ∀ line ∈ pieceOf w, line.Terminated)
    (h : line ∈ rebuilt reverse source pieceOf start ws) : line.Terminated := by
  induction ws generalizing start with
  | nil => exact hsource line (List.mem_of_mem_drop h)
  | cons w ws ih =>
      rcases List.mem_append.1 h with h | h
      · rcases List.mem_append.1 h with h | h
        · exact hsource line (List.mem_of_mem_drop (List.mem_of_mem_take h))
        · exact hpieces w (by simp) line h
      · exact ih (fun v hv => hpieces v (by simp [hv])) h

end WrittenHunk

namespace Splice

open WrittenHunk

variable (settings : Settings) (name : Bytes)

/-- Hunks with a place that all did their work were in order, and
each fitted. -/
theorem fits_of_clean {s : Splice} {ws : List WrittenHunk} {source : List Line}
    {consumed : Nat} (hskip : settings.skipApplied = false)
    (hplaced : ∀ w ∈ ws, w.hunk.wholeFile = false)
    (hsource : s.source.ready = source.drop consumed)
    (hcursor : s.cursor = consumed + 1) (hle : consumed ≤ source.length)
    (hfine : (s.overHunks settings name (ws.map counted)).failure? = none)
    (hclean : (s.overHunks settings name (ws.map counted)).failed = s.failed) :
    InOrder settings.reverse source.length consumed ws ∧
      ∀ w ∈ ws, w.Fits settings.reverse source := by
  induction ws generalizing s consumed with
  | nil => exact ⟨trivial, by simp⟩
  | cons w ws ih =>
      obtain ⟨gap, s', hworked, hfailed, heq⟩ :=
        overHunks_cons_clean settings name hskip hfine hclean
      rw [List.map_cons, heq] at hfine hclean
      have hwhole : (w.facing settings.reverse).wholeFile = false := by
        rw [wholeFile_facing]
        exact hplaced w (by simp)
      have hgap := hworked.placed (by rwa [facing_counted])
      have hfound := hworked.source
      rw [facing_counted, start_eq_place_add_one hwhole, hcursor] at hgap
      rw [script_counted, w.sourceSide_script, hsource] at hfound
      have hplace : consumed + gap.length = w.place settings.reverse := by omega
      have hlines := congrArg List.length hfound
      simp only [List.length_append, List.length_drop,
        w.length_before] at hlines
      have hdrop : source.drop (w.place settings.reverse) =
          w.before settings.reverse ++ s'.source.ready := by
        rw [← hplace, ← List.drop_drop, hfound, List.append_assoc,
          List.drop_left]
      have hafter : s'.source.ready =
          source.drop (w.stop settings.reverse) := by
        rw [WrittenHunk.stop, ← List.drop_drop, hdrop, ← w.length_before,
          List.drop_left]
      have hcursor' : s'.cursor = w.stop settings.reverse + 1 := by
        rw [hworked.cursor, facing_counted, WrittenHunk.stop]
        omega
      obtain ⟨horder, hfits⟩ := ih (fun v hv => hplaced v (by simp [hv]))
        hafter hcursor'
        (by unfold WrittenHunk.stop; omega) hfine (hclean.trans hfailed.symm)
      refine ⟨⟨hwhole, by omega, by omega, horder⟩, ?_⟩
      intro v hv
      rcases List.mem_cons.1 hv with rfl | hv
      · rw [fits_iff_isPrefix, hdrop]
        exact List.prefix_append _ _
      · exact hfits v hv

/-- A run without a failure on hunks with a place rebuilt the source. -/
theorem run_of_clean {patch stream : LineStream} {ws : List WrittenHunk}
    {tail : Bytes} (hskip : settings.skipApplied = false) (hne : ws ≠ [])
    (hpatch : patch.ready = Bytes.lines (textOf ws ++ tail))
    (hplaced : ∀ w ∈ ws, w.hunk.wholeFile = false)
    (htail : ∀ line ∈ tail.lines.head?, Hunk.isHeader line = false)
    (hfine : ((start patch stream).run settings name).failure? = none)
    (hclean : ((start patch stream).run settings name).failed = 0) :
    InOrder settings.reverse stream.ready.length 0 ws ∧
      (∀ w ∈ ws, w.Fits settings.reverse stream.ready) ∧
      ((start patch stream).run settings name).written.toList =
        rebuilt settings.reverse stream.ready
          (after settings.reverse) 0 ws := by
  have hlines : (start patch stream).patch.ready =
      (ws.map counted).flatMap CountedHunk.lines ++ tail.lines := by
    rw [flatMap_lines_counted, ← lines_textOf_append]
    exact hpatch
  obtain ⟨p, -, hrun⟩ := run_overSection settings name
    (fun _ => told_of_not_skip settings name hskip _ _ _) rfl
    (.inl hlines) htail
  have hfine' := hfine
  have hclean' := hclean
  rw [hrun] at hfine' hclean'
  obtain ⟨hhunks, hfailed, -⟩ := overSection_fine settings name hfine'
  have hall : (start patch stream).source.ready = stream.ready.drop 0 :=
    List.drop_zero.symm
  obtain ⟨horder, hfits⟩ := fits_of_clean settings name hskip hplaced hall rfl
    (Nat.zero_le _)
    hhunks (hfailed.symm.trans hclean')
  obtain ⟨-, hwritten, -⟩ :=
    run_start settings name hskip hne hpatch horder htail
  refine ⟨horder, hfits, ?_⟩
  rw [hwritten]
  exact rebuilt_congr fun w hw => if_pos (hfits w hw)

/-- The machine at the end of its work on the text of a patch and of
a source. -/
def runOn (settings : Settings) (name patch source : Bytes) : Splice :=
  (start (.ofBytes patch) (.ofBytes source)).run settings name

/-- A patch undoes itself. If the hunks of a patch have a place and their
numbers agree, a run of it without a failure is taken back by a run of the same
patch backwards, which has no failure either and gives the source. -/
theorem run_reverse_run (source tail : Bytes) (ws : List WrittenHunk)
    (hforward : settings.reverse = false) (hskip : settings.skipApplied = false)
    (hne : ws ≠ []) (hsource : ∀ line ∈ source.lines, line.Terminated)
    (hplaced : ∀ w ∈ ws, w.hunk.wholeFile = false) (hnumbers : Renumbered 0 ws)
    (htail : ∀ line ∈ tail.lines.head?, Hunk.isHeader line = false)
    (hfine : (runOn settings name (textOf ws ++ tail) source).failure? = none)
    (hclean : (runOn settings name (textOf ws ++ tail) source).failed = 0) :
    (runOn { settings with reverse := true } name (textOf ws ++ tail)
        (runOn settings name (textOf ws ++ tail) source).output).phase = .done ∧
      (runOn { settings with reverse := true } name (textOf ws ++ tail)
        (runOn settings name (textOf ws ++ tail) source).output).failed = 0 ∧
      (runOn { settings with reverse := true } name (textOf ws ++ tail)
        (runOn settings name (textOf ws ++ tail) source).output).output =
        source := by
  obtain ⟨horder, hfits, hwritten⟩ := run_of_clean settings name hskip hne
    (LineStream.ready_ofBytes _) hplaced htail hfine hclean
  rw [hforward, LineStream.ready_ofBytes] at horder hfits hwritten
  generalize htarget :
    rebuilt false source.lines (after false) 0 ws = target at hwritten
  have houtput : (runOn settings name (textOf ws ++ tail) source).output =
      target.flatten :=
    congrArg List.flatten hwritten
  have hcut : Bytes.lines target.flatten = target := by
    have hlines : ∀ line ∈ target, line.Terminated := by
      intro line hline
      rw [← htarget] at hline
      exact terminated_of_mem_rebuilt hsource
        (fun _ _ _ => terminated_of_mem_after) hline
    have h := Bytes.lines_flatten_append hlines []
    rwa [List.append_nil, Bytes.lines, List.append_nil] at h
  have htarget' : target.drop 0 =
      rebuilt false source.lines (after false) 0 ws := htarget.symm
  obtain ⟨horder', hfits', hback⟩ := rebuilt_rebuilt hplaced horder hfits
    hnumbers rfl
    (Nat.zero_le _) htarget'
  rw [houtput]
  have hplaces : InOrder true (LineStream.ofBytes target.flatten).ready.length
      0 ws := by
    rw [LineStream.ready_ofBytes, hcut]
    exact horder'
  obtain ⟨hdone, hwritten', -, hfailed', -⟩ := run_start
    { settings with reverse := true } name
    hskip hne (LineStream.ready_ofBytes _) hplaces htail
  rw [LineStream.ready_ofBytes, hcut] at hwritten' hfailed'
  refine ⟨hdone, ?_, ?_⟩
  · rw [runOn, hfailed', List.countP_eq_zero]
    intro w hw
    simpa using hfits' w hw
  · have hpieces : rebuilt true target (piece true target) 0 ws =
        rebuilt true target (after true) 0 ws :=
      rebuilt_congr fun w hw => if_pos (hfits' w hw)
    rw [runOn, output, hwritten', hpieces, hback, List.drop_zero,
      Bytes.flatten_lines]

/-- The line added is taken out again, and the one replaced comes back. -/
theorem run_reverse_run_growing :
    (runOn { directory := ⟨.working, []⟩ } [] (textOf growing)
        (Bytes.ascii "a\nb\nd\n")).output = Bytes.ascii "a\nx\nc\nd\n" ∧
      (runOn { directory := ⟨.working, []⟩, reverse := true } []
        (textOf growing)
        (Bytes.ascii "a\nx\nc\nd\n")).output = Bytes.ascii "a\nb\nd\n" := by
  have hforward : (runOn { directory := ⟨.working, []⟩ } [] (textOf growing)
      (Bytes.ascii "a\nb\nd\n")).output = Bytes.ascii "a\nx\nc\nd\n" := by
      decide +kernel
  obtain ⟨-, -, hback⟩ := run_reverse_run { directory := ⟨.working, []⟩ } []
    (Bytes.ascii "a\nb\nd\n") [] growing rfl rfl (by decide) (by decide)
    (by decide) (by decide) (by decide) (by decide +kernel) (by decide +kernel)
  rw [List.append_nil, hforward] at hback
  exact ⟨hforward, hback⟩

end Splice

end UnifiedPatch
