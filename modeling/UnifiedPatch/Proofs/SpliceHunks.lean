import UnifiedPatch.Proofs.SpliceBody

/-!
# Hunks one after another, failed ones among them

What a list of hunks makes of a source can be said without the machine. Each
hunk has a range of source lines; the lines between the ranges stay, and each
range is replaced by a piece (`rebuilt`). The piece of a hunk that fits, one
whose range holds the lines it takes, is the lines it makes. The piece of a
hunk that does not fit is what was written before the line that was missed and
what is left of the range after it (`wreckage`).

The machine gets there on a detour. A failed hunk leaves the source somewhere
inside the range, and the rest of the range is written only by the copy before
the next hunk or by the last one. So the invariant between two hunks does not
speak of what was written alone but of it together with what is still to be
read up to the end of the range (`run_hunk`); from there a hunk that failed and
one that fitted look the same, which is why no verdict depends on another.

What follows for a whole run (`run_start`) is stated twice, for hunks that all
fit and for hunks of which any number fail anywhere, the source ending inside a
range included.
-/

namespace UnifiedPatch

namespace WrittenHunk

/-- How many source lines stand before a hunk. -/
def place (reverse : Bool) (w : WrittenHunk) : Nat :=
  (w.facing reverse).old.start - 1

/-- How many source lines stand before the end of a hunk. -/
def stop (reverse : Bool) (w : WrittenHunk) : Nat :=
  w.place reverse + (w.facing reverse).old.count

/-- The source lines that a hunk speaks of; fewer if the source ends there. -/
def range (reverse : Bool) (source : List Line) (w : WrittenHunk) : List Line :=
  (source.drop (w.place reverse)).take (w.facing reverse).old.count

/-- A hunk fits a source that has the lines it takes where it takes them. -/
def Fits (reverse : Bool) (source : List Line) (w : WrittenHunk) : Prop :=
  w.range reverse source = w.before reverse

instance (reverse : Bool) (source : List Line) (w : WrittenHunk) :
    Decidable (w.Fits reverse source) :=
  inferInstanceAs (Decidable (_ = _))

/-- The part of a hunk that the source agrees with. -/
def front (reverse : Bool) (source : List Line) (w : WrittenHunk) :
    List BodyLine :=
  followed (w.script reverse) (w.range reverse source)

/-- What a hunk that does not fit puts in place of its range: what it had
written when a line was missed, and the range after that line. -/
def wreckage (reverse : Bool) (source : List Line) (w : WrittenHunk) :
    List Line :=
  resultSide (w.front reverse source) ++
    (w.range reverse source).drop
      ((sourceSide (w.front reverse source)).length + 1)

/-- What stands in place of the range of a hunk after it was tried. -/
def piece (reverse : Bool) (source : List Line) (w : WrittenHunk) : List Line :=
  if w.Fits reverse source then w.after reverse else w.wreckage reverse source

/-- Hunks that stand in a source of `size` lines one after another, the first
behind `start` lines: none is of a file that is created or deleted whole, none
starts before the one before it has ended, none starts behind the last line. -/
def InOrder (reverse : Bool) (size : Nat) : Nat → List WrittenHunk → Prop
  | _, [] => True
  | start, w :: ws =>
      (w.facing reverse).wholeFile = false ∧ start ≤ w.place reverse ∧
        w.place reverse ≤ size ∧ InOrder reverse size (w.stop reverse) ws

instance InOrder.decidable (reverse : Bool) (size : Nat) :
    ∀ (start : Nat) (ws : List WrittenHunk),
      Decidable (InOrder reverse size start ws)
  | _, [] => isTrue trivial
  | _, w :: ws =>
      have := InOrder.decidable reverse size (w.stop reverse) ws
      inferInstanceAs (Decidable (_ ∧ _ ∧ _ ∧ _))

/-- The source after its first `start` lines, with the range of each hunk
replaced by the piece of that hunk. -/
def rebuilt (reverse : Bool) (source : List Line)
    (pieceOf : WrittenHunk → List Line) :
    Nat → List WrittenHunk → List Line
  | start, [] => source.drop start
  | start, w :: ws =>
      (source.drop start).take (w.place reverse - start) ++ pieceOf w ++
        rebuilt reverse source pieceOf (w.stop reverse) ws

/-- The notice for a hunk that does not fit, if it is the `number`th. -/
def complaint? (reverse : Bool) (source : List Line) (w : WrittenHunk)
    (number : Nat) :
    Option Notice :=
  if w.Fits reverse source then none
  else some (.hunkFailed number (w.facing reverse).old.start)

/-! ## Pieces and ranges -/

theorem fits_iff_isPrefix {reverse : Bool} {source : List Line}
    {w : WrittenHunk} :
    w.Fits reverse source ↔
      w.before reverse <+: source.drop (w.place reverse) := by
  rw [List.prefix_iff_eq_take, w.length_before]
  exact eq_comm

theorem script_of_not_fits {reverse : Bool} {source : List Line}
    {w : WrittenHunk} (h : ¬ w.Fits reverse source) :
    ∃ b more, w.script reverse = w.front reverse source ++ b :: more := by
  obtain ⟨rest, hrest⟩ :=
    followed_isPrefix (w.script reverse) (w.range reverse source)
  cases rest with
  | cons b more => exact ⟨b, more, hrest.symm⟩
  | nil =>
      rw [List.append_nil] at hrest
      refine absurd (fits_iff_isPrefix.2 ?_) h
      rw [← w.sourceSide_script]
      exact (followed_eq_self_iff.1 hrest).trans (List.take_prefix _ _)

theorem front_eq (reverse : Bool) (source : List Line) (w : WrittenHunk) :
    w.front reverse source =
      followed (w.script reverse) (source.drop (w.place reverse)) := by
  refine followed_take (Nat.le_of_eq ?_)
  rw [sourceSide_script, length_before]

theorem start_eq_place_add_one {reverse : Bool} {w : WrittenHunk}
    (h : (w.facing reverse).wholeFile = false) :
    (w.facing reverse).old.start = w.place reverse + 1 := by
  simp only [Hunk.wholeFile, Bool.or_eq_false_iff, beq_eq_false_iff_ne] at h
  unfold place
  omega

/-- Starting earlier, but not behind the first hunk, gives the lines between. -/
theorem rebuilt_of_le {reverse : Bool} {source : List Line}
    {pieceOf : WrittenHunk → List Line} {size start stop : Nat}
    {ws : List WrittenHunk} (hle : start ≤ stop)
    (horder : InOrder reverse size stop ws) :
    rebuilt reverse source pieceOf start ws =
      (source.drop start).take (stop - start) ++ rebuilt reverse source pieceOf
        stop ws := by
  have hsplit : ∀ l : List Line, l.drop start =
      (l.drop start).take (stop - start) ++ l.drop stop := by
    intro l
    rw [show stop = start + (stop - start) by omega, ← List.drop_drop,
      show start + (stop - start) - start =
        stop - start by omega, List.take_append_drop]
  cases ws with
  | nil => exact hsplit source
  | cons w ws =>
      obtain ⟨-, hplace, -⟩ := horder
      have hlines : (source.drop start).take (w.place reverse - start) =
          (source.drop start).take (stop - start) ++
            (source.drop stop).take (w.place reverse - stop) := by
        rw [show w.place reverse - start =
          (stop - start) + (w.place reverse - stop) by
            omega, List.take_add, List.drop_drop,
            show start + (stop - start) = stop by omega]
      rw [rebuilt, rebuilt, hlines]
      simp only [List.append_assoc]

/-- The lines outside the ranges are in every rebuilding, in their order. -/
theorem rebuilt_nil_sublist (reverse : Bool) (source : List Line)
    (pieceOf : WrittenHunk → List Line) (start : Nat) (ws : List WrittenHunk) :
    (rebuilt reverse source (fun _ => []) start ws).Sublist
      (rebuilt reverse source pieceOf start ws) := by
  induction ws generalizing start with
  | nil => exact List.Sublist.refl _
  | cons w ws ih =>
      rw [rebuilt, rebuilt, List.append_nil]
      exact (List.sublist_append_left _ _).append (ih _)

theorem rebuilt_congr {reverse : Bool} {source : List Line}
    {pieceOf pieceOf' : WrittenHunk → List Line} {start : Nat}
    {ws : List WrittenHunk} (h : ∀ w ∈ ws, pieceOf w = pieceOf' w) :
    rebuilt reverse source pieceOf start ws =
      rebuilt reverse source pieceOf' start ws := by
  induction ws generalizing start with
  | nil => rfl
  | cons w ws ih =>
      rw [rebuilt, rebuilt, h w (by simp), ih fun v hv => h v (by simp [hv])]

/-- One line for another, written as a hunk. -/
def replacement (header : Line) (hunk : Hunk) (old new : Line)
    (reads : Hunk.readHeader header = .ok (some hunk))
    (terminated : header.Terminated) (old_terminated : old.Terminated)
    (new_terminated : new.Terminated)
    (counts : hunk.old.count = 1 ∧ hunk.new.count = 1) : WrittenHunk where
  header := header
  hunk := hunk
  body :=
    [{ role := .deletion, content := old, terminated := old_terminated
       blank_of_bare := by simp },
     { role := .insertion, content := new, terminated := new_terminated
       blank_of_bare := by simp }]
  reads := reads
  terminated := terminated
  old_count := counts.1.symm
  new_count := counts.2.symm

/-- Two replacements, the first with the body line `--- x`. -/
def twoHunks : List WrittenHunk :=
  [replacement (Bytes.ascii "@@ -1 +1 @@\n") ⟨⟨1, 1⟩, ⟨1, 1⟩⟩
    (Bytes.ascii "-- x\n")
     (Bytes.ascii "y\n") rfl (by decide) (by decide) (by decide) (by decide),
   replacement (Bytes.ascii "@@ -2 +2 @@\n") ⟨⟨2, 1⟩, ⟨2, 1⟩⟩
     (Bytes.ascii "b\n")
     (Bytes.ascii "c\n") rfl (by decide) (by decide) (by decide) (by decide)]

end WrittenHunk

/-- Two hunks of which the first makes the file a line longer. -/
def Splice.growing : List WrittenHunk :=
  [{ header := Bytes.ascii "@@ -1 +1,2 @@\n"
     hunk := ⟨⟨1, 1⟩, ⟨1, 2⟩⟩
     body :=
      [{ role := .context, content := Bytes.ascii "a\n", terminated := by decide
         blank_of_bare := by simp },
       { role := .insertion
         content := Bytes.ascii "x\n"
         terminated := by decide
         blank_of_bare := by simp }]
     reads := rfl
     terminated := by decide
     old_count := rfl
     new_count := rfl },
   WrittenHunk.replacement (Bytes.ascii "@@ -2 +3 @@\n") ⟨⟨2, 1⟩, ⟨3, 1⟩⟩
     (Bytes.ascii "b\n")
     (Bytes.ascii "c\n") rfl (by decide) (by decide) (by decide) (by decide)]

/-! ## One hunk, from header to header -/

namespace Splice

open WrittenHunk

/-- The machine before a header, with `consumed` lines of the source read. -/
structure AtHeader (source : List Line) (consumed : Nat) (patch : List Line)
    (s : Splice) : Prop where
  phase : s.phase = .header
  patch : s.patch.ready = patch
  source : s.source.ready = source.drop consumed
  cursor : s.cursor = consumed + 1

/-- The machine before the body of a hunk, with `rest` behind the body. -/
structure AtBody (reverse : Bool) (source : List Line) (w : WrittenHunk)
    (rest : List Line) (ends : Tally) (s : Splice) : Prop where
  phase : s.phase = .body (w.facing reverse) ends {}
  patch : s.patch.ready = w.body.map WrittenLine.text ++ rest
  place_le : w.place reverse ≤ source.length
  source : s.source.ready = source.drop (w.place reverse)
  cursor : s.cursor = w.place reverse + 1
  source_end : s.cursor + (sourceSide (w.script reverse)).length = ends.source
  result_end : s.emitted + (resultSide (w.script reverse)).length = ends.result

variable (settings : Settings) (name : Bytes) {s : Splice} {source : List Line}
  {w : WrittenHunk} {rest : List Line}

theorem run_to_body {consumed : Nat}
    (hs : AtHeader source consumed (w.lines ++ rest) s)
    (hwhole : (w.facing settings.reverse).wholeFile = false)
    (hlow : consumed ≤ w.place settings.reverse)
    (hhigh : w.place settings.reverse ≤ source.length) :
    ∃ (ends : Tally) (s' : Splice), s.run settings name = s'.run settings name ∧
      AtBody settings.reverse source w rest ends s' ∧
      s'.written.toList = s.written.toList ++
        (source.drop consumed).take (w.place settings.reverse - consumed) ∧
      s'.hunks = s.hunks + 1 ∧ s'.failed = s.failed ∧ s'.flush = true ∧
      s'.transcript = s.transcript ∧
      s'.offset = w.place settings.reverse + 1 := by
  have hstart := start_eq_place_add_one hwhole
  have hcount : (w.facing settings.reverse).old.start - s.cursor =
      w.place settings.reverse - consumed := by
    rw [hstart, hs.cursor]
    omega
  have hheader := run_header settings name hs.phase hs.patch w.reads
  have hleading := run_leading settings name
    (s := { s with
              patch := s.patch.skip 1
              hunks := s.hunks + 1
              phase := .leading (w.facing settings.reverse) })
    rfl hwhole (by simp only [hs.cursor, hstart]; omega)
    (by simp only [hs.source, hcount, List.length_drop]; omega)
  refine ⟨_, _, hheader.trans hleading, ⟨rfl, ?_, hhigh, ?_, hstart, ?_, ?_⟩,
    ?_, rfl, rfl, rfl, rfl, hstart⟩
  · simp [hs.patch, WrittenHunk.lines]
  · simp only [hcount, LineStream.ready_skip, hs.source, List.drop_drop]
    rw [Nat.add_sub_cancel' hlow]
  · rw [w.sourceSide_script, w.length_before]
  · rw [w.resultSide_script, w.length_after]
  · simp [hcount, hs.source]

theorem run_of_fits {ends : Tally}
    (hs : AtBody settings.reverse source w rest ends s)
    (hfits : w.Fits settings.reverse source) :
    ∃ s' : Splice, s.run settings name = s'.run settings name ∧
      AtHeader source (w.stop settings.reverse) (restoreFirst rest) s' ∧
      s'.written.toList = s.written.toList ++ w.after settings.reverse ∧
      s'.hunks = s.hunks ∧ s'.failed = s.failed ∧ s'.flush = s.flush ∧
      s'.transcript = s.transcript := by
  have hcount : (sourceSide (w.script settings.reverse)).length =
      (w.facing settings.reverse).old.count := by
    rw [w.sourceSide_script, w.length_before]
  have hbody := run_body settings name hs.phase hs.patch (w.map_ofLine?_body _)
    (by rw [hs.source, w.sourceSide_script]; exact fits_iff_isPrefix.1 hfits)
    (Nat.le_of_eq hs.source_end) (Nat.le_of_eq hs.result_end)
  obtain ⟨p, hp, hend⟩ := run_body_end settings name
    (s := s.past (w.facing settings.reverse) ends {}
      (w.script settings.reverse))
    rfl hs.source_end hs.result_end
  refine ⟨_, hbody.trans hend, ⟨rfl, ?_, ?_, ?_⟩, ?_, rfl, rfl, rfl, rfl⟩
  · have hlength : (w.script settings.reverse).length =
        (w.body.map WrittenLine.text).length := by simp [WrittenHunk.script]
    simp only [hp, past, LineStream.ready_skip, hs.patch, hlength,
      List.drop_left]
  · simp only [past, LineStream.ready_skip, hs.source, hcount, List.drop_drop,
      WrittenHunk.stop]
  · simp only [past, hs.cursor, hcount, WrittenHunk.stop]
    omega
  · simp [past, w.resultSide_script]

/-- Where the source stands when the line behind the first `g` of a hunk was
missed: behind the line in its place, or at the end. -/
theorem drop_range_eq {reverse : Bool} {g consumed : Nat}
    (hconsumed : consumed = min (w.place reverse + g + 1) source.length) :
    source.drop (w.place reverse + g + 1) = source.drop consumed ∧
      (w.range reverse source).drop (g + 1) =
        (source.drop consumed).take (w.stop reverse - consumed) := by
  have hrange : (w.range reverse source).drop (g + 1) =
      (source.drop (w.place reverse + g + 1)).take
        (w.stop reverse - (w.place reverse + g + 1)) := by
    rw [range, List.drop_take, List.drop_drop, ← Nat.add_assoc]
    congr 1
    unfold WrittenHunk.stop
    omega
  rw [hrange]
  rcases Nat.le_total (w.place reverse + g + 1) source.length with h | h
  · rw [hconsumed, Nat.min_eq_left h]
    exact ⟨rfl, rfl⟩
  · rw [hconsumed, Nat.min_eq_right h, List.drop_of_length_le h,
      List.drop_of_length_le (Nat.le_refl _), List.take_nil, List.take_nil]
    exact ⟨rfl, rfl⟩

/-- A hunk that does not fit is left at the line that was missed, and reported.
The rest of its range is still to be read. -/
theorem run_of_not_fits {ends : Tally} (hskip : settings.skipApplied = false)
    (hs : AtBody settings.reverse source w rest ends s)
    (hfits : ¬ w.Fits settings.reverse source) :
    ∃ (s' : Splice) (consumed : Nat),
      s.run settings name = s'.run settings name ∧
      AtHeader source consumed (restoreFirst rest) s' ∧
      consumed ≤ w.stop settings.reverse ∧
      s'.written.toList ++ (source.drop consumed).take
        (w.stop settings.reverse - consumed) =
        s.written.toList ++ w.wreckage settings.reverse source ∧
      s'.hunks = s.hunks ∧ s'.failed = s.failed + 1 ∧ s'.flush = s.flush ∧
      s'.transcript = s.transcript.push
        (.notice (.hunkFailed s.hunks s.offset)) := by
  obtain ⟨b, more, hscript⟩ := script_of_not_fits hfits
  have hfront := front_eq settings.reverse source w
  have hold : (sourceSide (w.script settings.reverse)).length =
      (w.facing settings.reverse).old.count := by
    rw [w.sourceSide_script, w.length_before]
  have hnew : (resultSide (w.script settings.reverse)).length =
      (w.facing settings.reverse).new.count := by
    rw [w.resultSide_script, w.length_after]
  have hread := w.map_ofLine?_body settings.reverse
  obtain ⟨hrole, hmiss⟩ := missed_of_followed (hfront ▸ hscript)
  have hfound := sourceSide_followed_isPrefix (w.script settings.reverse)
    (source.drop (w.place settings.reverse))
  rw [← hfront, ← hs.source] at hmiss hfound
  have hsource := hs.source_end
  have hresult := hs.result_end
  rw [hold] at hsource
  rw [hnew] at hresult
  rw [hscript] at hold hnew hread
  obtain ⟨p, hp, hrun⟩ := run_body_failing settings name hskip hs.phase hs.patch
    hread hfound
    hrole hmiss hold hnew hsource hresult
  have hleft : (sourceSide (w.front settings.reverse source)).length + 1 ≤
      (w.facing settings.reverse).old.count := by
    rw [← hold, sourceSide_append, sourceSide_cons,
      if_pos (Role.inSource_eq_true_iff.2 hrole), List.length_append,
      List.length_cons]
    omega
  have hplace := hs.place_le
  have hlines := hfound.length_le
  rw [hs.source, List.length_drop] at hlines
  generalize hg : (sourceSide (w.front settings.reverse source)).length =
    g at hrun hleft hlines
  generalize hc : min (w.place settings.reverse + g + 1) source.length =
    consumed
  obtain ⟨hdrop, hrange⟩ := drop_range_eq hc.symm
  refine ⟨_, consumed, hrun, ⟨rfl, hp, ?_, ?_⟩, ?_, ?_, rfl, rfl, rfl, rfl⟩
  · rw [← hdrop]
    simp [fail, say, hs.source, Nat.add_assoc]
  · simp only [fail, say, hs.cursor, hs.source, List.length_drop]
    omega
  · unfold WrittenHunk.stop
    omega
  · simp [fail, say, wreckage, hg, ← hrange]

/-- One hunk, whatever becomes of it. What was written and what is left of the
range make up the piece of the hunk behind the lines before it. -/
theorem run_hunk {consumed : Nat} (hskip : settings.skipApplied = false)
    (hs : AtHeader source consumed (w.lines ++ rest) s)
    (hwhole : (w.facing settings.reverse).wholeFile = false)
    (hlow : consumed ≤ w.place settings.reverse)
    (hhigh : w.place settings.reverse ≤ source.length) :
    ∃ (s' : Splice) (consumed' : Nat),
      s.run settings name = s'.run settings name ∧
      AtHeader source consumed' (restoreFirst rest) s' ∧
      consumed' ≤ w.stop settings.reverse ∧
      s'.written.toList ++ (source.drop consumed').take
        (w.stop settings.reverse - consumed') =
        s.written.toList ++ (source.drop consumed).take
          (w.place settings.reverse - consumed) ++
            w.piece settings.reverse source ∧
      s'.hunks = s.hunks + 1 ∧
      s'.failed = s.failed + (if w.Fits settings.reverse source then 0 else 1) ∧
      s'.flush = true ∧
      s'.transcript.notices = s.transcript.notices ++
        (w.complaint? settings.reverse source (s.hunks + 1)).toList := by
  obtain ⟨ends, sb, hrun, hbody, hwritten, hhunks, hfailed, hflush, hsaid,
      hoffset⟩ :=
    run_to_body settings name hs hwhole hlow hhigh
  by_cases hfits : w.Fits settings.reverse source
  · obtain ⟨s', hrun', hhead, hwritten', hhunks', hfailed', hflush', hsaid'⟩ :=
      run_of_fits settings name hbody hfits
    refine ⟨s', _, hrun.trans hrun', hhead, Nat.le_refl _, ?_, ?_, ?_, ?_, ?_⟩
    · rw [Nat.sub_self, List.take_zero, List.append_nil, hwritten', hwritten,
        piece, if_pos hfits]
    · rw [hhunks', hhunks]
    · rw [hfailed', hfailed, if_pos hfits, Nat.add_zero]
    · rw [hflush', hflush]
    · rw [hsaid', hsaid, complaint?, if_pos hfits, Option.toList_none,
        List.append_nil]
  · obtain ⟨s', consumed', hrun', hhead, hle, hwritten', hhunks', hfailed',
        hflush', hsaid'⟩ :=
      run_of_not_fits settings name hskip hbody hfits
    refine ⟨s', consumed', hrun.trans hrun', hhead, hle, ?_, ?_, ?_, ?_, ?_⟩
    · rw [hwritten', hwritten, piece, if_neg hfits]
    · rw [hhunks', hhunks]
    · rw [hfailed', hfailed, if_neg hfits]
    · rw [hflush', hflush]
    · rw [hsaid', Transcript.notices_push_notice, hsaid, hhunks, hoffset,
        complaint?, if_neg hfits, start_eq_place_add_one hwhole,
        Option.toList_some]

/-! ## All hunks, and the end -/

/-- Hunks one after another, from header to header. The lines still to be read
count as written: the copy before the next hunk, or the last one, gets them. -/
theorem run_hunks {ws : List WrittenHunk} {consumed start : Nat}
    (hskip : settings.skipApplied = false)
    (hs : AtHeader source consumed
      (restoreFirst (ws.flatMap WrittenHunk.lines ++ rest)) s)
    (hle : consumed ≤ start)
    (horder : InOrder settings.reverse source.length start ws) :
    ∃ (s' : Splice) (consumed' : Nat),
      s.run settings name = s'.run settings name ∧
      AtHeader source consumed' (restoreFirst rest) s' ∧
      s'.written.toList ++ source.drop consumed' = s.written.toList ++
        rebuilt settings.reverse source (piece settings.reverse source)
          consumed ws ∧
      s'.hunks = s.hunks + ws.length ∧
      s'.failed = s.failed + ws.countP
        (fun w => ¬ w.Fits settings.reverse source) ∧
      s'.flush = (s.flush || !ws.isEmpty) ∧
      s'.transcript.notices = s.transcript.notices ++
        (ws.zipIdx (s.hunks + 1)).filterMap
          (fun p => p.1.complaint? settings.reverse source p.2) := by
  induction ws generalizing s consumed start with
  | nil => exact ⟨s, consumed, rfl, hs, rfl, rfl, rfl, by simp, by simp⟩
  | cons w ws ih =>
      obtain ⟨hwhole, hlow, hhigh, horder⟩ := horder
      have hhead : AtHeader source consumed
          (w.lines ++ (ws.flatMap WrittenHunk.lines ++ rest)) s := by
        rw [List.flatMap_cons, List.append_assoc,
          w.restoreFirst_lines_append] at hs
        exact hs
      obtain ⟨s₁, c₁, hrun₁, hhead₁, hle₁, hwritten₁, hhunks₁, hfailed₁,
          hflush₁, hsaid₁⟩ :=
        run_hunk settings name hskip hhead hwhole (Nat.le_trans hle hlow) hhigh
      obtain ⟨s₂, c₂, hrun₂, hhead₂, hwritten₂, hhunks₂, hfailed₂, hflush₂,
          hsaid₂⟩ :=
        ih hhead₁ hle₁ horder
      refine ⟨s₂, c₂, hrun₁.trans hrun₂, hhead₂, ?_, ?_, ?_, ?_, ?_⟩
      · rw [hwritten₂, rebuilt_of_le hle₁ horder, ← List.append_assoc,
          hwritten₁, rebuilt]
        simp only [List.append_assoc]
      · rw [hhunks₂, hhunks₁, List.length_cons]
        omega
      · rw [hfailed₂, hfailed₁, List.countP_cons]
        by_cases hfits : w.Fits settings.reverse source
        · simp [hfits]
        · simp only [hfits, not_false_eq_true, decide_true, if_false, if_true]
          omega
      · rw [hflush₂, hflush₁]
        simp
      · rw [hsaid₂, hsaid₁, hhunks₁, List.zipIdx_cons, List.filterMap_cons,
          List.append_assoc]
        cases w.complaint? settings.reverse source (s.hunks + 1) <;> rfl

theorem run_finish {consumed : Nat} {patch : List Line}
    (hs : AtHeader source consumed patch s) (hflush : s.flush = true)
    (hhead : ∀ line ∈ patch.head?, Hunk.isHeader line = false) :
    (s.run settings name).phase = .done ∧
      (s.run settings name).written.toList =
        s.written.toList ++ source.drop consumed ∧
      (s.run settings name).hunks = s.hunks ∧
      (s.run settings name).failed = s.failed ∧
      (s.run settings name).transcript.notices = s.transcript.notices ∧
      (s.run settings name).patch.ready = patch := by
  obtain ⟨p, hp, hrun⟩ :=
    run_header_end settings name hs.phase (by rwa [hs.patch])
  rw [hrun, ← run_step, run_of_not_isLive settings name rfl]
  simp only [step, stepTrailing, hflush, if_true, say]
  refine ⟨trivial, ?_, trivial, trivial, Transcript.notices_push_remark _ _,
    hp.trans hs.patch⟩
  simp [LineStream.copy, LineStream.drain_eq, hs.source]

theorem run_start {ws : List WrittenHunk} {tail : Bytes}
    {patch stream : LineStream} (hskip : settings.skipApplied = false)
    (hne : ws ≠ []) (hpatch : patch.ready = Bytes.lines (textOf ws ++ tail))
    (horder : InOrder settings.reverse stream.ready.length 0 ws)
    (htail : ∀ line ∈ tail.lines.head?, Hunk.isHeader line = false) :
    ((start patch stream).run settings name).phase = .done ∧
      ((start patch stream).run settings name).written.toList =
        rebuilt settings.reverse stream.ready
          (piece settings.reverse stream.ready) 0 ws ∧
      ((start patch stream).run settings name).hunks = ws.length ∧
      ((start patch stream).run settings name).failed =
        ws.countP (fun w => ¬ w.Fits settings.reverse stream.ready) ∧
      ((start patch stream).run settings name).transcript.notices =
        (ws.zipIdx 1).filterMap
          (fun p => p.1.complaint? settings.reverse stream.ready p.2) ∧
      ((start patch stream).run settings name).patch.ready =
        restoreFirst tail.lines := by
  have hstart : AtHeader stream.ready 0
      (restoreFirst (ws.flatMap WrittenHunk.lines ++ tail.lines))
      (start patch stream) := by
    refine ⟨rfl, ?_, rfl, rfl⟩
    obtain ⟨w, ws, rfl⟩ := List.exists_cons_of_ne_nil hne
    rw [List.flatMap_cons, List.append_assoc, w.restoreFirst_lines_append,
      ← List.append_assoc, ← List.flatMap_cons, ← lines_textOf_append]
    exact hpatch
  obtain ⟨s', consumed, hrun, hhead, hwritten, hhunks, hfailed,
      hflush, hsaid⟩ :=
    run_hunks settings name hskip hstart (Nat.le_refl 0) horder
  have hflush : s'.flush = true := by
    simp [hflush, hne]
  obtain ⟨hdone, hwritten', hhunks', hfailed', hsaid', hleft⟩ :=
    run_finish settings name hhead hflush (isHeader_head?_restoreFirst htail)
  rw [hrun]
  refine ⟨hdone, ?_, ?_, ?_, ?_, hleft⟩
  · rw [hwritten', hwritten]
    rfl
  · rw [hhunks', hhunks]
    exact Nat.zero_add _
  · rw [hfailed', hfailed]
    exact Nat.zero_add _
  · rw [hsaid', hsaid]
    rfl

/-- Failed hunks stay by themselves. A hunk has failed exactly if its range does
not hold the lines it takes, which the other hunks have no part in; each failure
is reported with the hunk's number and line, in order. The result is the source
with every range replaced by its piece, so a hunk that fits puts its lines where
they belong and no line outside the ranges is lost or moved. The patch is left
at the first line behind the last body. -/
theorem run_isolates_failures (patch stream : LineStream)
    (ws : List WrittenHunk) (tail : Bytes)
    (hskip : settings.skipApplied = false) (hne : ws ≠ [])
    (hpatch : patch.ready = Bytes.lines (textOf ws ++ tail))
    (horder : InOrder settings.reverse stream.ready.length 0 ws)
    (htail : ∀ line ∈ tail.lines.head?, Hunk.isHeader line = false) :
    ((start patch stream).run settings name).phase = .done ∧
      ((start patch stream).run settings name).hunks = ws.length ∧
      ((start patch stream).run settings name).failed =
        ws.countP (fun w => ¬ w.Fits settings.reverse stream.ready) ∧
      ((start patch stream).run settings name).transcript.notices =
        (ws.zipIdx 1).filterMap
          (fun p => p.1.complaint? settings.reverse stream.ready p.2) ∧
      ((start patch stream).run settings name).written.toList =
        rebuilt settings.reverse stream.ready
          (piece settings.reverse stream.ready) 0 ws ∧
      (rebuilt settings.reverse stream.ready (fun _ => []) 0 ws).Sublist
        ((start patch stream).run settings name).written.toList ∧
      ((start patch stream).run settings name).patch.ready =
        restoreFirst tail.lines := by
  obtain ⟨hdone, hwritten, hhunks, hfailed, hsaid, hleft⟩ :=
    run_start settings name hskip hne hpatch horder htail
  refine ⟨hdone, hhunks, hfailed, hsaid, hwritten, ?_, hleft⟩
  rw [hwritten]
  exact rebuilt_nil_sublist _ _ _ _ _

/-- The run of the two hunks, with a marker line behind them, on a source. -/
def runTwoHunks (source : Bytes) : Splice :=
  (start (.ofBytes (textOf twoHunks ++ Bytes.ascii "--- n\n"))
    (.ofBytes source)).run
    { directory := ⟨.working, []⟩ } []

/-- The source lacks the line of the first hunk and has that of the second. -/
theorem run_isolates_first_of_two :
    (runTwoHunks (Bytes.ascii "a\nb\n")).failed = 1 ∧
      (runTwoHunks (Bytes.ascii "a\nb\n")).transcript.notices =
        [.hunkFailed 1 1] ∧
      (runTwoHunks (Bytes.ascii "a\nb\n")).written.toList =
        [Bytes.ascii "c\n"] ∧
      (runTwoHunks (Bytes.ascii "a\nb\n")).patch.ready =
        [Bytes.ascii "--- n\n"] := by
  obtain ⟨-, -, hfailed, hsaid, hwritten, -, hleft⟩ :=
    run_isolates_failures { directory := ⟨.working, []⟩ } [] (.ofBytes _)
      (.ofBytes (Bytes.ascii "a\nb\n")) twoHunks (Bytes.ascii "--- n\n") rfl
      (by decide) (LineStream.ready_ofBytes _) (by decide) (by decide)
  exact ⟨hfailed.trans (by decide), hsaid.trans (by decide),
    hwritten.trans (by decide), hleft.trans (by decide)⟩

/-- A patch that fits is what it says. The result is the source with the lines
that each hunk takes replaced by those that it makes; every hunk is counted,
none has failed, nothing is said. -/
theorem run_rebuilds_of_fits (patch stream : LineStream) (ws : List WrittenHunk)
    (tail : Bytes) (hskip : settings.skipApplied = false) (hne : ws ≠ [])
    (hpatch : patch.ready = Bytes.lines (textOf ws ++ tail))
    (horder : InOrder settings.reverse stream.ready.length 0 ws)
    (hfits : ∀ w ∈ ws, w.Fits settings.reverse stream.ready)
    (htail : ∀ line ∈ tail.lines.head?, Hunk.isHeader line = false) :
    ((start patch stream).run settings name).phase = .done ∧
      ((start patch stream).run settings name).written.toList =
        rebuilt settings.reverse stream.ready (after settings.reverse) 0 ws ∧
      ((start patch stream).run settings name).hunks = ws.length ∧
      ((start patch stream).run settings name).failed = 0 ∧
      ((start patch stream).run settings name).transcript.notices = [] ∧
      ((start patch stream).run settings name).patch.ready =
        restoreFirst tail.lines := by
  obtain ⟨hdone, hwritten, hhunks, hfailed, hsaid, hleft⟩ :=
    run_start settings name hskip hne hpatch horder htail
  refine ⟨hdone, ?_, hhunks, ?_, ?_, hleft⟩
  · rw [hwritten]
    exact rebuilt_congr fun w hw => if_pos (hfits w hw)
  · rw [hfailed, List.countP_eq_zero]
    intro w hw
    simpa using hfits w hw
  · rw [hsaid, List.filterMap_eq_nil_iff]
    rintro ⟨w, number⟩ hw
    exact if_pos (hfits w (List.fst_mem_of_mem_zipIdx hw))

/-- The source has the lines of both hunks. -/
theorem run_rebuilds_two :
    (runTwoHunks (Bytes.ascii "-- x\nb\nd")).written.toList =
        [Bytes.ascii "y\n", Bytes.ascii "c\n", Bytes.ascii "d"] ∧
      (runTwoHunks (Bytes.ascii "-- x\nb\nd")).failed = 0 ∧
      (runTwoHunks (Bytes.ascii "-- x\nb\nd")).patch.ready =
        [Bytes.ascii "--- n\n"] := by
  obtain ⟨-, hwritten, -, hfailed, -, hleft⟩ :=
    run_rebuilds_of_fits { directory := ⟨.working, []⟩ } [] (.ofBytes _)
      (.ofBytes (Bytes.ascii "-- x\nb\nd")) twoHunks (Bytes.ascii "--- n\n") rfl
      (by decide) (LineStream.ready_ofBytes _) (by decide) (by decide)
      (by decide)
  exact ⟨hwritten.trans (by decide), hfailed, hleft.trans (by decide)⟩

end Splice

end UnifiedPatch
