import UnifiedPatch.Proofs.SpliceAgain

/-!
# Diffs of two files

A diff tells two files at once: lines that both have, then a hunk with lines
that only one of them has, and so on to the end. `Diff` says when a list of
hunks is one, with the numbers that are usual. A range has the number of its
first line; if it has none, it has the number of the line that it lies behind.

The machine takes every number for that of a first line. So a hunk that takes a
line of the old file, be it as context, is put where it belongs, however much or
little context it has. A hunk that only inserts is put one line too early. That
is not noticed, since it asks for no line, and makes no difference only if the
hunk repeats the line that it should have followed. And if the hunk before it
has taken that line, it is too late to put anything before it, and the work is
given up.

So a diff is applied as it should be exactly if all its insertions without
context are such repetitions, of lines that no other hunk takes
(`run_diff_iff`). A diff without hunks is beyond this: the machine copies
nothing unless a hunk was placed.
-/

namespace UnifiedPatch

/-- A range of lines behind `before` others has its usual number. -/
def Range.Behind (r : Range) (before : Nat) : Prop :=
  r.start = if r.count = 0 then before else before + 1

instance (r : Range) (before : Nat) : Decidable (r.Behind before) :=
  inferInstanceAs (Decidable (_ = _))

namespace WrittenHunk

/-- The hunks tell how the old lines, the first `m` of which have been told,
become the new ones, the first `n` of which have been told. -/
inductive Diff : Nat → Nat → List Line → List Line → List WrittenHunk → Prop
  /-- the rest is the same -/
  | same {m n : Nat} (kept : List Line) : Diff m n kept kept []
  /-- some lines are the same, and a hunk follows -/
  | hunk {m n : Nat} (kept : List Line) {old new : List Line} {w : WrittenHunk}
      {ws : List WrittenHunk} (oldNumber : w.hunk.old.Behind (m + kept.length))
      (newNumber : w.hunk.new.Behind (n + kept.length))
      (more : Diff (m + kept.length + w.oldLines.length)
        (n + kept.length + w.newLines.length)
        old new ws) :
      Diff m n (kept ++ w.oldLines ++ old) (kept ++ w.newLines ++ new) (w :: ws)

/-- A hunk that only inserts repeats the line that it lies behind, and no other
hunk takes that line. -/
structure Repeats (source : List Line) (ws : List WrittenHunk)
    (w : WrittenHunk) : Prop where
  same : ∀ line ∈ w.newLines, source[w.hunk.old.start - 1]? = some line
  untaken : ∀ v ∈ ws, v.hunk.old.count ≠ 0 →
    v.hunk.old.start + v.hunk.old.count ≠ w.hunk.old.start + 1

instance (source : List Line) (ws : List WrittenHunk) (w : WrittenHunk) :
    Decidable (Repeats source ws w) :=
  decidable_of_iff (_ ∧ _) ⟨fun h => ⟨h.1, h.2⟩, fun h => ⟨h.same, h.untaken⟩⟩

variable {source old new : List Line} {m n start : Nat} {w : WrittenHunk}
  {ws : List WrittenHunk}

theorem length_oldLines (w : WrittenHunk) :
    w.oldLines.length = w.hunk.old.count :=
  w.length_before false

theorem place_add_one (h : w.hunk.wholeFile = false) :
    w.place false + 1 = w.hunk.old.start := by
  have hwhole : (w.facing false).wholeFile = false := h
  exact (start_eq_place_add_one hwhole).symm

theorem le_place_of_inOrder {reverse : Bool} {size : Nat}
    (horder : InOrder reverse size start ws) (hw : w ∈ ws) :
    start ≤ w.place reverse := by
  induction ws generalizing start with
  | nil => exact absurd hw (by simp)
  | cons v ws ih =>
      obtain ⟨-, hlow, -, horder⟩ := horder
      rcases List.mem_cons.1 hw with rfl | hw
      · exact hlow
      · have hstop := ih horder hw
        unfold WrittenHunk.stop at hstop
        omega

theorem drop_length_add_length {kept taken rest : List Line}
    (h : source.drop m = kept ++ taken ++ rest) :
    source.drop (m + kept.length + taken.length) = rest := by
  rw [Nat.add_assoc, ← List.drop_drop, h, ← List.length_append, List.drop_left]

/-- The lines behind the first `start` ones, up to `m` and then on. -/
theorem take_drop_append {kept rest : List Line}
    (h : source.drop m = kept ++ rest) (hle : start ≤ m) :
    (source.drop start).take (m - start) ++ kept =
      (source.drop start).take (m + kept.length - start) := by
  obtain ⟨k, rfl⟩ := Nat.exists_eq_add_of_le hle
  rw [Nat.add_sub_cancel_left, Nat.add_assoc, Nat.add_sub_cancel_left,
    List.take_add, List.drop_drop, h, List.take_left]

/-! ## Where the hunks of a diff lie -/

/-- A hunk lies behind all that was told before it. -/
theorem Diff.le_start (h : Diff m n old new ws) (hw : w ∈ ws) :
    m ≤ w.hunk.old.start ∧ (w.hunk.old.count ≠ 0 → m < w.hunk.old.start) := by
  induction h with
  | same kept => exact absurd hw (by simp)
  | hunk kept oldNumber newNumber more ih =>
      rcases List.mem_cons.1 hw with rfl | hw
      · unfold Range.Behind at oldNumber
        split at oldNumber <;> omega
      · obtain ⟨hle, hlt⟩ := ih hw
        exact ⟨by omega, fun hcount => by have := hlt hcount; omega⟩

/-- If no insertion comes too late, the hunks of a diff are in order. -/
theorem Diff.inOrder (h : Diff m n old new ws) (hold : source.drop m = old)
    (hm : m ≤ source.length) (hplaced : ∀ w ∈ ws, w.hunk.wholeFile = false)
    (hle : start ≤ m)
    (hlow : ∀ w ∈ ws, w.hunk.old.count = 0 → start < w.hunk.old.start)
    (hfree : ∀ w ∈ ws, w.hunk.old.count = 0 → ∀ v ∈ ws, v.hunk.old.count ≠ 0 →
      v.hunk.old.start + v.hunk.old.count ≠ w.hunk.old.start + 1) :
    InOrder false source.length start ws := by
  induction h generalizing start with
  | same kept => trivial
  | @hunk m n kept old new w ws oldNumber newNumber more ih =>
      have hwhole := hplaced w (by simp)
      have hplace := place_add_one hwhole
      have hcount := w.length_oldLines
      have hlength := congrArg List.length hold
      simp only [List.length_drop, List.length_append] at hlength
      have hrest := drop_length_add_length hold
      have hstop : w.stop false = w.place false + w.hunk.old.count := rfl
      unfold Range.Behind at oldNumber
      have hpassed : w.stop false ≤ m + kept.length + w.oldLines.length := by
        split at oldNumber <;> omega
      have hbehind : ∀ v ∈ ws, v.hunk.old.count = 0 →
          w.stop false < v.hunk.old.start := by
        intro v hv hzero
        obtain ⟨hbehind, -⟩ := more.le_start hv
        have hgap := hfree v (by simp [hv]) hzero w (by simp)
        split at oldNumber
        · omega
        · next hsome =>
            have := hgap hsome
            omega
      have hfirst := hlow w (by simp)
      refine ⟨hwhole, ?_, ?_,
        ih hrest (by omega) (fun v hv => hplaced v (by simp [hv])) hpassed
        hbehind fun v hv hzero u hu => hfree v (by simp [hv]) hzero u
          (by simp [hu])⟩
      · split at oldNumber
        · next hzero =>
            have := hfirst hzero
            omega
        · omega
      · split at oldNumber <;> omega

/-- Where the hunks of a diff are in order, no insertion comes too late. -/
theorem Diff.untaken (h : Diff m n old new ws)
    (hplaced : ∀ w ∈ ws, w.hunk.wholeFile = false)
    (horder : InOrder false source.length start ws) :
    ∀ w ∈ ws, w.hunk.old.count = 0 → ∀ v ∈ ws, v.hunk.old.count ≠ 0 →
      v.hunk.old.start + v.hunk.old.count ≠ w.hunk.old.start + 1 := by
  induction h generalizing start with
  | same kept => simp
  | @hunk m n kept old new u us oldNumber newNumber more ih =>
      obtain ⟨-, -, -, horder⟩ := horder
      have hu := place_add_one (hplaced u (by simp))
      have hstop : u.stop false = u.place false + u.hunk.old.count := rfl
      unfold Range.Behind at oldNumber
      intro w hw hzero v hv hsome
      rcases List.mem_cons.1 hw with
        rfl | hw' <;> rcases List.mem_cons.1 hv with rfl | hv'
      · exact absurd hzero hsome
      · rw [if_pos hzero] at oldNumber
        have hbehind := (more.le_start hv').2 hsome
        omega
      · have hplace := place_add_one (hplaced w hw)
        have hlow := le_place_of_inOrder horder hw'
        omega
      · exact ih (fun v hv => hplaced v (by simp [hv])) horder w hw' hzero
          v hv' hsome

/-- The hunks of a diff fit the old file. -/
theorem Diff.fits (h : Diff m n old new ws) (hold : source.drop m = old) :
    ∀ w ∈ ws, w.Fits false source := by
  induction h with
  | same kept => simp
  | @hunk m n kept old new w ws oldNumber newNumber more ih =>
      have hrest := drop_length_add_length hold
      intro v hv
      rcases List.mem_cons.1 hv with rfl | hv
      · have hcount := v.length_oldLines
        rw [fits_iff_isPrefix]
        show v.oldLines <+: _
        unfold Range.Behind at oldNumber
        split at oldNumber
        · next hzero =>
            rw [List.eq_nil_of_length_eq_zero (hcount.trans hzero)]
            exact List.nil_prefix
        · have hplace : v.place false = m + kept.length := by
            show v.hunk.old.start - 1 = _
            omega
          rw [hplace, ← List.drop_drop, hold, List.append_assoc, List.drop_left]
          exact List.prefix_append _ _
      · exact ih hrest v hv

/-! ## What the hunks of a diff make -/

/-- Lines can change places with a line before them only if they repeat it. -/
theorem append_eq_cons_append_iff {lines rest more : List Line} {line : Line} :
    lines ++ rest = line :: (lines ++ more) ↔
      (∀ other ∈ lines, other = line) ∧ rest = line :: more := by
  induction lines generalizing line with
  | nil => simp
  | cons first lines ih =>
      rw [List.cons_append, List.cons_append, List.cons.injEq, ih]
      constructor
      · rintro ⟨rfl, hsame, hrest⟩
        exact ⟨by simpa using hsame, hrest⟩
      · rintro ⟨hsame, hrest⟩
        obtain rfl : first = line := hsame first (by simp)
        exact ⟨rfl, fun other hother => hsame other (by simp [hother]), hrest⟩

/-- The old file rebuilt is the new one exactly if the insertions without
context repeat the line they lie behind: each of them stands before it and
not behind. -/
theorem Diff.rebuilt_eq_iff (h : Diff m n old new ws)
    (hold : source.drop m = old) (hplaced : ∀ w ∈ ws, w.hunk.wholeFile = false)
    (horder : InOrder false source.length start ws) (hm : m ≤ source.length)
    (hle : start ≤ m) :
    rebuilt false source (after false) start ws =
      (source.drop start).take (m - start) ++ new ↔
      ∀ w ∈ ws, w.hunk.old.count = 0 →
        ∀ line ∈ w.newLines, source[w.hunk.old.start - 1]? = some line := by
  induction h generalizing start with
  | @same m n kept =>
      refine ⟨fun _ => by simp, fun _ => ?_⟩
      obtain ⟨k, rfl⟩ := Nat.exists_eq_add_of_le hle
      rw [rebuilt, ← hold, Nat.add_sub_cancel_left, ← List.drop_drop,
        List.take_append_drop]
  | @hunk m n kept old new w ws oldNumber newNumber more ih =>
      obtain ⟨-, hlow, -, horder⟩ := horder
      have hplace := place_add_one (hplaced w (by simp))
      have hcount := w.length_oldLines
      have hlength := congrArg List.length hold
      simp only [List.length_drop, List.length_append] at hlength
      have hrest := drop_length_add_length hold
      have hplaced' : ∀ v ∈ ws, v.hunk.wholeFile = false :=
        fun v hv => hplaced v (by simp [hv])
      have hstop : w.stop false = w.place false + w.hunk.old.count := rfl
      have hkept := take_drop_append (hold.trans (List.append_assoc ..)) hle
      rw [rebuilt, ← List.append_assoc, ← List.append_assoc, hkept,
        List.forall_mem_cons]
      show _ ++ w.newLines ++ _ = _ ++ w.newLines ++ new ↔ _
      unfold Range.Behind at oldNumber
      split at oldNumber
      · next hzero =>
          have hpos : w.place false < source.length := by omega
          have hmore := ih hrest hplaced' horder (by omega) (by omega)
          -- The line that the hunk lies behind is the one it is put before.
          have hline : source.drop (w.place false) =
              [source[w.place false]] ++ source.drop (w.place false + 1) :=
            List.drop_eq_getElem_cons hpos
          have hbefore : (source.drop start).take (m + kept.length - start) =
              (source.drop start).take (w.place false - start) ++
                [source[w.place false]] := by
            rw [show m + kept.length = w.place false + 1 by omega]
            exact (take_drop_append hline hlow).symm
          rw [show m + kept.length + w.oldLines.length - w.stop false = 1 by
            omega, show w.stop false = w.place false by omega, hline] at hmore
          rw [hbefore, show w.stop false = w.place false by omega]
          simp only [List.append_assoc, List.append_cancel_left_eq,
            List.nil_append, List.cons_append]
          rw [append_eq_cons_append_iff,
            show w.hunk.old.start - 1 = w.place false by omega,
            List.getElem?_eq_getElem hpos]
          refine and_congr ?_ hmore
          simp only [hzero, Option.some.injEq, forall_const]
          exact forall₂_congr fun _ _ => eq_comm
      · next hsome =>
          have hbefore : w.place false = m + kept.length := by omega
          have hmore := ih hrest hplaced' horder (by omega) (by omega)
          rw [show m + kept.length + w.oldLines.length - w.stop false =
            0 by omega, List.take_zero, List.nil_append] at hmore
          rw [hbefore, List.append_cancel_left_eq, hmore]
          simp [hsome]

theorem Diff.terminated (h : Diff m n old new ws)
    (hold : ∀ line ∈ old, line.Terminated) :
    ∀ line ∈ new, line.Terminated := by
  induction h with
  | same kept => exact hold
  | @hunk m n kept old new w ws oldNumber newNumber more ih =>
      intro line hline
      rcases List.mem_append.1 hline with hline | hline
      · rcases List.mem_append.1 hline with hline | hline
        · exact hold line (by simp [hline])
        · exact terminated_of_mem_after (show line ∈ w.after false from hline)
      · exact ih (fun line hline => hold line (by simp [hline])) line hline

end WrittenHunk

/-! ## The run on a diff -/

namespace Splice

open WrittenHunk

variable (settings : Settings) (name : Bytes)

/-- Where no hunk begins, nothing is written. -/
theorem output_run_of_head {patch source : LineStream}
    (hhead : ∀ line ∈ patch.ready.head?, Hunk.isHeader line = false) :
    ((start patch source).run settings name).output = [] := by
  obtain ⟨p, -, hrun⟩ :=
    run_header_end settings name (s := start patch source) rfl hhead
  rw [hrun, ← run_step, run_of_not_isLive settings name rfl]
  rfl

/-- A diff of two files with lines, whose hunks have a place, makes the new one
of the old one without a failure exactly if it has hunks and its insertions
without context repeat the line they lie behind. -/
theorem run_diff_iff (source target : List Line) (ws : List WrittenHunk)
    (tail : Bytes) (hforward : settings.reverse = false)
    (hskip : settings.skipApplied = false) (hne : source ≠ [])
    (hterminated : ∀ line ∈ source, line.Terminated)
    (hdiff : Diff 0 0 source target ws)
    (hplaced : ∀ w ∈ ws, w.hunk.wholeFile = false)
    (htail : ∀ line ∈ tail.lines.head?, Hunk.isHeader line = false) :
    (runOn settings name (textOf ws ++ tail) source.flatten).phase = .done ∧
        (runOn settings name (textOf ws ++ tail) source.flatten).failed = 0 ∧
        (runOn settings name (textOf ws ++ tail) source.flatten).output =
          target.flatten ↔
      ws ≠ [] ∧ ∀ w ∈ ws, w.hunk.old.count = 0 → Repeats source ws w := by
  have hready : (LineStream.ofBytes source.flatten).ready = source := by
    rw [LineStream.ready_ofBytes, Bytes.lines_flatten hterminated]
  have hpatch : (LineStream.ofBytes (textOf ws ++ tail)).ready =
      Bytes.lines (textOf ws ++ tail) :=
    LineStream.ready_ofBytes _
  have hrebuilt : InOrder false source.length 0 ws →
      (rebuilt false source (after false) 0 ws = target ↔
        ∀ w ∈ ws, w.hunk.old.count = 0 →
          ∀ line ∈ w.newLines, source[w.hunk.old.start - 1]? = some line) :=
          fun horder =>
    hdiff.rebuilt_eq_iff List.drop_zero hplaced horder (Nat.zero_le _)
      (Nat.le_refl 0)
  constructor
  · rintro ⟨hdone, hclean, houtput⟩
    have hsome : ws ≠ [] := by
      rintro rfl
      cases hdiff
      rw [runOn, output_run_of_head settings name (by rwa [hpatch])] at houtput
      have hnothing := Bytes.lines_flatten hterminated
      rw [← houtput] at hnothing
      exact hne hnothing.symm
    have hfine :
        (runOn settings name (textOf ws ++ tail) source.flatten).failure? =
          none := by
      rw [failure?, hdone]
    obtain ⟨horder, -, hwritten⟩ :=
      run_of_clean settings name hskip hsome hpatch hplaced htail hfine hclean
    rw [hforward, hready] at horder hwritten
    have hsame : rebuilt false source (after false) 0 ws = target := by
      have hlines : ∀ line ∈ rebuilt false source (after false) 0 ws,
          Line.Terminated line :=
        fun line => terminated_of_mem_rebuilt hterminated fun _ _ _ =>
          terminated_of_mem_after
      rw [← Bytes.lines_flatten hlines,
        ← Bytes.lines_flatten (hdiff.terminated hterminated), ← houtput,
        ← hwritten]
      rfl
    exact ⟨hsome, fun w hw hzero => ⟨(hrebuilt horder).1 hsame w hw hzero,
      hdiff.untaken hplaced horder w hw hzero⟩⟩
  · rintro ⟨hsome, hrepeats⟩
    have hlow : ∀ w ∈ ws, w.hunk.old.count = 0 → 0 < w.hunk.old.start :=
      fun w hw _ => by
      have hplace := place_add_one (hplaced w hw)
      omega
    have horder : InOrder false source.length 0 ws :=
      hdiff.inOrder List.drop_zero (Nat.zero_le _) hplaced (Nat.le_refl 0) hlow
        fun w hw hzero => (hrepeats w hw hzero).untaken
    have hfits : ∀ w ∈ ws, w.Fits false source := hdiff.fits List.drop_zero
    have horder' : InOrder settings.reverse
        (LineStream.ofBytes source.flatten).ready.length 0 ws := by
      rwa [hforward, hready]
    obtain ⟨hdone, hwritten, -, hfailed, -⟩ :=
      run_start settings name hskip hsome hpatch horder' htail
    rw [hforward, hready] at hwritten hfailed
    refine ⟨hdone, ?_, ?_⟩
    · rw [runOn, hfailed, List.countP_eq_zero]
      intro w hw
      simpa using hfits w hw
    · have hpieces : rebuilt false source (piece false source) 0 ws =
          rebuilt false source (after false) 0 ws :=
        rebuilt_congr fun w hw => if_pos (hfits w hw)
      rw [runOn, output, hwritten, hpieces,
        (hrebuilt horder).2 fun w hw hzero => (hrepeats w hw hzero).same]

/-- A line put behind the first one, without context. -/
def addition (line : Line) (terminated : line.Terminated) : WrittenHunk where
  header := Bytes.ascii "@@ -1,0 +2 @@\n"
  hunk := ⟨⟨1, 0⟩, ⟨2, 1⟩⟩
  body := [.signed .insertion line terminated]
  reads := rfl
  terminated := by decide
  old_count := rfl
  new_count := rfl

/-- One line for another, without context. -/
def exchange : WrittenHunk :=
  replacement (Bytes.ascii "@@ -3,1 +4,1 @@\n") ⟨⟨3, 1⟩, ⟨4, 1⟩⟩
    (Bytes.ascii "r\n")
    (Bytes.ascii "s\n") rfl (by decide) (by decide) (by decide) (by decide)

/-- The first line doubled, and the third replaced. -/
def doubling : List WrittenHunk :=
  [addition (Bytes.ascii "p\n") (by decide), exchange]

/-- Two lines that are the same can stand in either order. -/
theorem run_diff_doubling :
    (runOn { directory := ⟨.working, []⟩ } [] (textOf doubling)
      (Bytes.ascii "p\nq\nr\n")).output =
      Bytes.ascii "p\np\nq\ns\n" := by
  have hdiff : Diff 0 0 [Bytes.ascii "p\n", Bytes.ascii "q\n",
    Bytes.ascii "r\n"]
      [Bytes.ascii "p\n", Bytes.ascii "p\n", Bytes.ascii "q\n",
        Bytes.ascii "s\n"] doubling :=
    Diff.hunk (w := addition (Bytes.ascii "p\n") (by decide))
      [Bytes.ascii "p\n"] (by decide) (by decide)
      (Diff.hunk (w := exchange) [Bytes.ascii "q\n"] (by decide) (by decide)
        (.same []))
  have hiff := run_diff_iff { directory := ⟨.working, []⟩ } [] _ _ doubling
    [] rfl rfl (by decide) (by decide) hdiff (by decide) (by decide)
  rw [List.append_nil] at hiff
  exact (hiff.2 ⟨by decide, by decide⟩).2.2

/-- A line that is to stand between two others is put before both. -/
theorem not_forall_run_diff :
    ¬ ∀ (settings : Settings) (name : Bytes) (source target : List Line)
      (ws : List WrittenHunk),
      settings.reverse = false → settings.skipApplied = false → source ≠ [] →
      target ≠ [] →
      (∀ line ∈ source, line.Terminated) → (∀ line ∈ target, line.Terminated) →
      Diff 0 0 source target ws → (∀ w ∈ ws, w.hunk.wholeFile = false) →
      (runOn settings name (textOf ws) source.flatten).phase = .done ∧
        (runOn settings name (textOf ws) source.flatten).failed = 0 ∧
        (runOn settings name (textOf ws) source.flatten).output =
          target.flatten := by
  intro h
  have hdiff : Diff 0 0 [Bytes.ascii "a\n", Bytes.ascii "b\n"]
      [Bytes.ascii "a\n", Bytes.ascii "x\n", Bytes.ascii "b\n"]
      [addition (Bytes.ascii "x\n") (by decide)] :=
    Diff.hunk (w := addition (Bytes.ascii "x\n") (by decide))
      [Bytes.ascii "a\n"] (by decide) (by decide) (.same [Bytes.ascii "b\n"])
  obtain ⟨-, -, houtput⟩ := h { directory := ⟨.working, []⟩ } [] _ _ _ rfl rfl
    (by decide) (by decide) (by decide) (by decide) hdiff (by decide)
  exact absurd houtput (by decide +kernel)

end Splice

end UnifiedPatch
