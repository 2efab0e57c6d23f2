import UnifiedPatch.Proofs.PatchText
import UnifiedPatch.Proofs.SpliceBody

/-!
# Bodies whose missed lines are passed over

When lines may count as applied already, a body has no verdict. Each line of it
that should be in the source uses up a source line, if there is one; a deletion
writes nothing, a context line is written if it was found, an insertion always.
`forwarded` is what comes of that, and the machine is a fold over the lines of
the body (`run_overLines`).

The two counters fall behind where the lines of a header do not. `cursor` does
so when the source has ended, `emitted` with each context line that was missed.
The body itself is taken from the patch as a whole all the same, since a counter
that lags stops it no earlier. But whatever comes next is compared with the
counters, and of a marker line one of them decides, the first when the patch is
read forwards and the second when it is read backwards: the marker goes back if
that counter has reached its end (`run_marker_back`) and is taken for a line of
the body if not (`run_marker_taken`).
-/

namespace UnifiedPatch

/-- What a body writes if the lines that are missed are passed over. -/
def forwarded : List BodyLine → List Line → List Line
  | [], _ => []
  | b :: body, source =>
      if b.role = .insertion then b.content :: forwarded body source
      else if b.role = .context ∧ source.head? = some b.content then
        b.content :: forwarded body source.tail
      else forwarded body source.tail

theorem forwarded_sublist (body : List BodyLine) (source : List Line) :
    (forwarded body source).Sublist (resultSide body) := by
  fun_induction forwarded body source with
  | case1 => exact List.Sublist.refl _
  | case2 b body source hb ih =>
      simp only [resultSide_cons, hb, Role.inResult_insertion, if_true]
      exact ih.cons_cons b.content
  | case3 b body source _ hb ih =>
      simp only [resultSide_cons, hb.1, Role.inResult_context, if_true]
      exact ih.cons_cons b.content
  | case4 b body source _ _ ih =>
      rw [resultSide_cons]
      split
      · exact ih.cons b.content
      · exact ih

/-- A marker line of the old file is a body line: forwards it deletes a line,
backwards it adds one. -/
theorem BodyLine.ofLine?_of_marked {line : Line}
    (h : (Bytes.after? Marker.old line).isSome) (reverse : Bool) :
    ∃ b : BodyLine, ofLine? reverse line = some b ∧ b.text = line ∧
      b.role = Role.deletion.facing reverse := by
  obtain ⟨rest, hrest⟩ := Option.isSome_iff_exists.1 h
  obtain rfl := Bytes.after?_eq_some_iff.1 hrest
  refine ⟨BodyLine.facing reverse ⟨.deletion, Bytes.ascii "-- " ++ rest,
    Marker.old ++ rest⟩, ?_, rfl, rfl⟩
  rw [ofLine?_eq_map]
  rfl

namespace Splice

variable (settings : Settings) (name : Bytes) {s : Splice}

/-! ## A body as a fold -/

/-- The machine after a line of a body, but for the patch and the phase. -/
def overLine (name : Bytes) (s : Splice) (b : BodyLine) : Splice :=
  if b.role = .insertion then
    { s with written := s.written.push b.content, emitted := s.emitted + 1 }
  else
    let read := { s with
      source := s.source.skip 1
      cursor := s.cursor + min 1 s.source.ready.length }
    if s.source.ready.head? = some b.content then
      if b.role = .deletion then read
      else
        { read with
          written := s.written.push b.content
          emitted := s.emitted + 1 }
    else read.say (.remark (.lineSkipped name s.hunks))

/-- The machine after the lines of a body, but for the patch and the phase. -/
def overLines (name : Bytes) (body : List BodyLine) (s : Splice) : Splice :=
  body.foldl (overLine name) s

theorem overLine_patch (b : BodyLine) (s : Splice) (p : LineStream)
    (phase : Phase) :
    overLine name { s with patch := p, phase := phase } b =
      { overLine name s b with patch := p, phase := phase } := by
  unfold overLine
  simp only []
  split
  · rfl
  · split
    · split <;> rfl
    · rfl

theorem overLines_patch (body : List BodyLine) (s : Splice) (p : LineStream)
    (phase : Phase) :
    overLines name body { s with patch := p, phase := phase } =
      { overLines name body s with patch := p, phase := phase } := by
  induction body generalizing s with
  | nil => rfl
  | cons b body ih =>
      rw [overLines, List.foldl_cons, overLine_patch]
      exact ih (overLine name s b)

/-- What a fold over body lines does to the source and to the counters, and what
it leaves alone. -/
structure Passed (body : List BodyLine) (s s' : Splice) : Prop where
  source : s'.source.ready = s.source.ready.drop (sourceSide body).length
  written : s'.written.toList =
    s.written.toList ++ forwarded body s.source.ready
  cursor : s'.cursor =
    s.cursor + min (sourceSide body).length s.source.ready.length
  emitted : s'.emitted = s.emitted + (forwarded body s.source.ready).length
  hunks : s'.hunks = s.hunks
  failed : s'.failed = s.failed
  flush : s'.flush = s.flush

theorem Passed.trans {b : BodyLine} {body : List BodyLine} {s t u : Splice}
    (h : Passed [b] s t) (h' : Passed body t u) : Passed (b :: body) s u := by
  have hsource : t.source.ready =
      if b.role = .insertion then s.source.ready else s.source.ready.tail := by
    rw [h.source, sourceSide_cons]
    cases b.role <;> simp
  have hforwarded : forwarded (b :: body) s.source.ready =
      forwarded [b] s.source.ready ++ forwarded body t.source.ready := by
    rw [hsource]
    simp only [forwarded]
    split
    · rfl
    · split <;> rfl
  have hside : sourceSide (b :: body) = sourceSide [b] ++ sourceSide body :=
    sourceSide_append [b] body
  constructor
  · rw [h'.source, h.source, List.drop_drop, hside, List.length_append]
  · rw [h'.written, h.written, hforwarded, List.append_assoc]
  · rw [h'.cursor, h.cursor, h.source, hside, List.length_append,
      List.length_drop]
    omega
  · rw [h'.emitted, h.emitted, hforwarded, List.length_append, Nat.add_assoc]
  · rw [h'.hunks, h.hunks]
  · rw [h'.failed, h.failed]
  · rw [h'.flush, h.flush]

theorem overLine_passed (b : BodyLine) (s : Splice) :
    Passed [b] s (overLine name s b) := by
  unfold overLine
  cases hrole : b.role with
  | insertion =>
      simp only [if_true]
      constructor <;> simp [sourceSide_cons, forwarded, hrole]
  | deletion =>
      simp only [reduceCtorEq, if_false, if_true]
      split <;> constructor <;> simp [sourceSide_cons, forwarded, hrole, say]
  | context =>
      simp only [reduceCtorEq, if_false]
      split
      · next hfound =>
          constructor <;> simp [sourceSide_cons, forwarded, hrole, hfound]
      · next hmissed =>
          constructor <;> simp [sourceSide_cons, forwarded, hrole, hmissed, say]

theorem overLines_passed (body : List BodyLine) (s : Splice) :
    Passed body s (overLines name body s) := by
  induction body generalizing s with
  | nil => constructor <;> simp [overLines, forwarded]
  | cons b body ih => exact (overLine_passed name b s).trans (ih _)

/-! ## The fold is the machine -/

/-- One line of a body that has room for it. -/
theorem run_overLine {hunk : Hunk} {ends seen : Tally} {line : Line}
    {rest : List Line} {b : BodyLine} (hskip : settings.skipApplied = true)
    (hphase : s.phase = .body hunk ends seen)
    (hpatch : s.patch.ready = line :: rest)
    (hread : BodyLine.ofLine? settings.reverse line = some b)
    (hcursor : s.cursor + (sourceSide [b]).length ≤ ends.source)
    (hemitted : s.emitted + (resultSide [b]).length ≤ ends.result) :
    s.run settings name =
      ({ overLine name s b with
          patch := s.patch.skip 1
          phase := .body hunk ends (seen.count b.role) } : Splice).run
        settings name := by
  rw [← run_step]
  congr 1
  rw [sourceSide_cons] at hcursor
  rw [resultSide_cons] at hemitted
  simp only [step, hphase, stepBody, LineStream.next?_eq_skip hpatch, hread]
  unfold overLine
  cases hrole : b.role with
  | insertion =>
      have hroom : s.emitted + 1 ≤ ends.result := by
        simpa [hrole] using hemitted
      simp [emit, Nat.ne_of_lt hroom]
  | context =>
      have hroom : s.emitted + 1 ≤ ends.result := by
        simpa [hrole] using hemitted
      have hleft : s.cursor + 1 ≤ ends.source := by simpa [hrole] using hcursor
      cases hsource : s.source.ready with
      | nil =>
          simp [Nat.ne_of_lt hleft, LineStream.next?_eq_none_iff.2 hsource,
            hskip, say, LineStream.skip_of_ready_nil hsource]
      | cons found more =>
          by_cases hfound : found = b.content
          · simp [Nat.ne_of_lt hleft, LineStream.next?_eq_skip hsource,
              hfound, emit, Nat.ne_of_lt hroom]
          · simp [Nat.ne_of_lt hleft, LineStream.next?_eq_skip hsource, hfound,
              hskip, say]
  | deletion =>
      have hleft : s.cursor + 1 ≤ ends.source := by simpa [hrole] using hcursor
      cases hsource : s.source.ready with
      | nil =>
          simp [Nat.ne_of_lt hleft, LineStream.next?_eq_none_iff.2 hsource,
            hskip, say, LineStream.skip_of_ready_nil hsource]
      | cons found more =>
          by_cases hfound : found = b.content
          · simp [Nat.ne_of_lt hleft, LineStream.next?_eq_skip hsource, hfound]
          · simp [Nat.ne_of_lt hleft, LineStream.next?_eq_skip hsource, hfound,
              hskip, say]

/-- A whole body with room for its lines is taken from the patch, whatever of it
is missed. -/
theorem run_overLines {hunk : Hunk} {ends seen : Tally} {body : List BodyLine}
    {texts rest : List Line} (hskip : settings.skipApplied = true)
    (hphase : s.phase = .body hunk ends seen)
    (hpatch : s.patch.ready = texts ++ rest)
    (hread : texts.map (BodyLine.ofLine? settings.reverse) = body.map some)
    (hcursor : s.cursor + (sourceSide body).length ≤ ends.source)
    (hemitted : s.emitted + (resultSide body).length ≤ ends.result) :
    s.run settings name =
      ({ overLines name body s with
          patch := s.patch.skip texts.length
          phase := .body hunk ends (seen.plus body) } : Splice).run
        settings name := by
  induction body generalizing s seen texts with
  | nil =>
      obtain rfl : texts = [] := by simpa using hread
      obtain ⟨patch, source, written, cursor, emitted, hunks, failed, trailing,
        flush, offset, transcript, phase⟩ := s
      subst hphase
      rfl
  | cons b body ih =>
      obtain ⟨line, texts, rfl, hline, hread⟩ := List.map_eq_cons_iff.1 hread
      rw [← List.singleton_append, sourceSide_append,
        List.length_append] at hcursor
      rw [← List.singleton_append, resultSide_append,
        List.length_append] at hemitted
      -- No counter moves further than the line reaches, so there is room for
      -- the others.
      have hpassed := overLine_passed name b s
      have hlow : (overLine name s b).cursor ≤
          s.cursor + (sourceSide [b]).length := by
        rw [hpassed.cursor]
        omega
      have hlow' : (overLine name s b).emitted ≤
          s.emitted + (resultSide [b]).length := by
        rw [hpassed.emitted]
        exact Nat.add_le_add_left (forwarded_sublist _ _).length_le _
      rw [run_overLine settings name hskip hphase hpatch hline (by omega)
        (by omega)]
      rw [ih (s := { overLine name s b with
          patch := s.patch.skip 1,
            phase := .body hunk ends (seen.count b.role) })
        rfl (by simp [hpatch]) hread (by simp only []; omega)
          (by simp only []; omega)]
      rw [overLines_patch, LineStream.skip_skip, Nat.add_comm 1,
        Tally.plus_cons]
      rfl

/-! ## The line after the body -/

/-- A line that is none of a body goes back as it is. -/
theorem run_body_other {hunk : Hunk} {ends seen : Tally}
    (hphase : s.phase = .body hunk ends seen)
    (hother : ∀ line ∈ s.patch.ready.head?,
      BodyLine.ofLine? settings.reverse line = none) :
    ∃ p : LineStream, p.ready = s.patch.ready ∧
      s.run settings name =
        ({ s with patch := p, phase := .header } : Splice).run
          settings name := by
  rw [← run_step]
  cases hpatch : s.patch.ready with
  | nil =>
      refine ⟨s.patch, hpatch, ?_⟩
      simp only [step, hphase, stepBody, LineStream.next?_eq_none_iff.2 hpatch]
  | cons line rest =>
      obtain ⟨p, hp, hready⟩ := LineStream.unread?_skip_one hpatch line
      refine ⟨p, hready, ?_⟩
      simp only [step, hphase, stepBody, LineStream.next?_eq_skip hpatch,
        hother line (by simp [hpatch]), handBack, hp]

/-- The counter that a marker line is compared with has reached its end. -/
def AtEnd (reverse : Bool) (ends : Tally) (s : Splice) : Prop :=
  if reverse then s.emitted = ends.result else s.cursor = ends.source

instance (reverse : Bool) (ends : Tally) (s : Splice) :
    Decidable (s.AtEnd reverse ends) :=
  inferInstanceAs (Decidable
    (if reverse then s.emitted = ends.result else s.cursor = ends.source))

theorem run_marker_back {hunk : Hunk} {ends seen : Tally} {line : Line}
    {rest : List Line} (hphase : s.phase = .body hunk ends seen)
    (hpatch : s.patch.ready = line :: rest)
    (hmarked : (Bytes.after? Marker.old line).isSome)
    (hend : s.AtEnd settings.reverse ends) :
    ∃ p : LineStream, p.ready = s.patch.ready ∧
      s.run settings name =
        ({ s with patch := p, phase := .header } : Splice).run
          settings name := by
  rw [← run_step]
  obtain ⟨b, hread, htext, hrole⟩ :=
    BodyLine.ofLine?_of_marked hmarked settings.reverse
  obtain ⟨p, hp, hready⟩ := LineStream.unread?_skip_one hpatch line
  refine ⟨p, hready.trans hpatch.symm, ?_⟩
  simp only [step, hphase, stepBody, LineStream.next?_eq_skip hpatch, hread]
  unfold AtEnd at hend
  cases hreverse : settings.reverse with
  | false =>
      rw [hreverse] at hend hrole
      simp only [Bool.false_eq_true, if_false] at hend
      rw [show b.role = .deletion from hrole, htext]
      simp only [reduceCtorEq, if_false, hend, if_true, handBack, hp]
  | true =>
      rw [hreverse] at hend hrole
      simp only [if_true] at hend
      rw [show b.role = .insertion from hrole]
      simp only [if_true, emit, hend, htext, handBack, hp]

theorem run_body_left {hunk : Hunk} {ends seen : Tally}
    (hphase : s.phase = .body hunk ends seen)
    (hleft : ∀ line ∈ s.patch.ready.head?,
      BodyLine.ofLine? settings.reverse line = none ∨
      (Bytes.after? Marker.old line).isSome ∧ s.AtEnd settings.reverse ends) :
    ∃ p : LineStream, p.ready = s.patch.ready ∧
      s.run settings name =
        ({ s with patch := p, phase := .header } : Splice).run
          settings name := by
  cases hpatch : s.patch.ready with
  | nil =>
      rw [← hpatch]
      exact run_body_other settings name hphase (by simp [hpatch])
  | cons line rest =>
      rw [← hpatch]
      rcases hleft line (by simp [hpatch]) with hother | ⟨hmarked, hend⟩
      · exact run_body_other settings name hphase
          (by simpa [hpatch] using hother)
      · exact run_marker_back settings name hphase hpatch hmarked hend

/-- A marker line that is taken for a line of the body does not come back. -/
theorem run_marker_taken {hunk : Hunk} {ends seen : Tally} {line : Line}
    {rest : List Line} (hskip : settings.skipApplied = true)
    (hphase : s.phase = .body hunk ends seen)
    (hpatch : s.patch.ready = line :: rest)
    (hmarked : (Bytes.after? Marker.old line).isSome)
    (hend : ¬ s.AtEnd settings.reverse ends) :
    (s.run settings name).patch.ready.length ≤ rest.length := by
  obtain ⟨b, hread, -, hrole⟩ :=
    BodyLine.ofLine?_of_marked hmarked settings.reverse
  have hstep : (s.step settings name).patch = s.patch.skip 1 ∧
      (s.step settings name).phase = .body hunk ends (seen.count b.role) := by
    simp only [step, hphase, stepBody, LineStream.next?_eq_skip hpatch, hread]
    unfold AtEnd at hend
    cases hreverse : settings.reverse with
    | false =>
        rw [hreverse] at hend hrole
        simp only [Bool.false_eq_true, if_false] at hend
        rw [show b.role = .deletion from hrole]
        simp only [reduceCtorEq, if_false, hend, hskip, if_true]
        split <;> exact ⟨rfl, rfl⟩
    | true =>
        rw [hreverse] at hend hrole
        simp only [if_true] at hend
        rw [show b.role = .insertion from hrole]
        simp only [if_true, emit, hend, if_false]
        exact ⟨trivial, trivial⟩
  have hvariant := variant_run_le settings name (s.step settings name)
  rw [run_step] at hvariant
  simp only [variant, hstep.1, hstep.2, Phase.rank,
    LineStream.ready_skip, hpatch, List.drop_succ_cons,
    List.drop_zero] at hvariant
  omega

end Splice

end UnifiedPatch
