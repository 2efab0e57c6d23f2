import UnifiedPatch.Proofs.SpliceForward

/-!
# Hunks as functions of the machine

What a hunk does to the machine can be said without the patch it was read from.
The lines before the hunk are copied or the work stops; the body is followed to
its end or up to the line that is missed; and since the machine counts, it takes
exactly the lines of the hunk from the patch, whatever becomes of them. So a
hunk is a function of the machine (`overHunk`), hunks are such functions one
after another, and a run on hunks with something behind them is that function
with the patch left at what is behind (`run_overSection`). The something does
not occur in the function. That is all that "no section reads a line of the
next" says.

Hunks here start anywhere: at zero, behind the lines that are used up, behind
the end of the source. If lines may count as applied already, the counts may be
off at the end of the last hunk, and then a section does take the marker line
behind it. It does so exactly if that hunk does not close
(`ready_patch_run_iff`); hence the condition on what is behind the hunks
(`Told`), which says nothing otherwise.

What is left of a patch is given up to one blank. The first line of it may have
been read as a body line and handed back with the blank that it lacked
(`Yields`).
-/

namespace UnifiedPatch

namespace LineStream

/-- The lines can be read, the first of them perhaps with its blank put back. -/
def Yields (s : LineStream) (lines : List Line) : Prop :=
  s.ready = lines ∨ s.ready = restoreFirst lines

theorem Yields.ready_nil {s : LineStream} (h : s.Yields []) : s.ready = [] := by
  rcases h with h | h <;> exact h

/-- No blank is put before a header. -/
theorem Yields.ready_hunk {s : LineStream} {w : CountedHunk} {more : List Line}
    (h : s.Yields (w.lines ++ more)) : s.ready = w.lines ++ more := by
  rcases h with h | h
  · exact h
  · rw [h, CountedHunk.lines, List.cons_append, restoreFirst,
      BodyLine.restoreBlank_of_ofLine? (w.ofLine?_header false)]

theorem Yields.head_not_header {s : LineStream} {lines : List Line}
    (h : s.Yields lines)
    (hhead : ∀ line ∈ lines.head?, Hunk.isHeader line = false) :
    ∀ line ∈ s.ready.head?, Hunk.isHeader line = false := by
  rcases h with h | h <;> rw [h]
  · exact hhead
  · exact isHeader_head?_restoreFirst hhead

theorem yields_of_restored {s t : LineStream} {lines : List Line}
    (hs : s.Yields lines) (ht : t.ready = s.ready) : t.Yields lines := by
  unfold Yields
  rw [ht]
  exact hs

end LineStream

namespace Splice

/-- The machines agree but for the patch. -/
def SameButPatch (s t : Splice) : Prop :=
  ∃ p : LineStream, t = { s with patch := p }

/-! ## A hunk, a list of hunks, a section -/

/-- The machine after a body that is followed as long as the source agrees, but
for the patch. -/
def overFollowed (body : List BodyLine) (s : Splice) : Splice :=
  let front := followed body s.source.ready
  if front = body then
    { s with
      source := s.source.skip (sourceSide body).length
      written := s.written ++ resultSide body
      cursor := s.cursor + (sourceSide body).length
      emitted := s.emitted + (resultSide body).length
      phase := .header }
  else
    { s with
      source := s.source.skip ((sourceSide front).length + 1)
      written := s.written ++ resultSide front
      cursor := s.cursor + (sourceSide front).length +
        min 1 (s.source.ready.length - (sourceSide front).length)
      emitted := s.emitted + (resultSide front).length }.fail

variable (settings : Settings) (name : Bytes)

/-- The machine after a body, but for the patch. -/
def overBody (body : List BodyLine) (s : Splice) : Splice :=
  if settings.skipApplied then { overLines name body s with phase := .header }
  else s.overFollowed body

/-- The machine before a body, but for the patch. -/
def overLeading (w : CountedHunk) (s : Splice) : Splice :=
  { s with hunks := s.hunks + 1 }.stepLeading name (w.facing settings.reverse)

/-- The machine after a hunk, but for the patch. -/
def overHunk (w : CountedHunk) (s : Splice) : Splice :=
  match Hunk.readHeader w.header with
  | .error run => s.stop (.overlong run)
  | .ok _ =>
      let led := s.overLeading settings name w
      if led.failure?.isSome then led
      else led.overBody settings name (w.script settings.reverse)

/-- The machine after hunks, up to one that ends the work, but for the patch. -/
def overHunks : List CountedHunk → Splice → Splice
  | [], s => s
  | w :: ws, s =>
      let next := s.overHunk settings name w
      if next.failure?.isSome then next else overHunks ws next

/-- The machine at its end, but for the patch. -/
def overSection (ws : List CountedHunk) (s : Splice) : Splice :=
  let last := s.overHunks settings name ws
  if last.failure?.isSome then last
  else { last with phase := .trailing }.stepTrailing name

/-! ## None of them looks at the patch -/

variable {s : Splice} {w : CountedHunk} {rest : List Line}

theorem overBody_patch (body : List BodyLine) (s : Splice) (p : LineStream) :
    { s with patch := p }.overBody settings name body =
      { s.overBody settings name body with patch := p } := by
  unfold overBody
  split
  · rw [show ({ s with patch := p } : Splice) =
      { s with patch := p, phase := s.phase } from rfl, overLines_patch]
  · unfold overFollowed
    simp only []
    split <;> rfl

theorem stepLeading_patch (hunk : Hunk) (s : Splice) (p : LineStream)
    (phase : Phase) :
    { s with patch := p, phase := phase }.stepLeading name hunk =
      { s.stepLeading name hunk with patch := p } := by
  unfold stepLeading
  simp only []
  split
  · rfl
  · split
    · rfl
    · split <;> rfl

theorem overLeading_patch (w : CountedHunk) (s : Splice) (p : LineStream) :
    { s with patch := p }.overLeading settings name w =
      { s.overLeading settings name w with patch := p } :=
  stepLeading_patch name (w.facing settings.reverse) { s with
    hunks := s.hunks + 1 } p s.phase

theorem overHunk_patch (w : CountedHunk) (s : Splice) (p : LineStream) :
    { s with patch := p }.overHunk settings name w =
      { s.overHunk settings name w with patch := p } := by
  unfold overHunk
  split
  · rfl
  · rw [overLeading_patch]
    simp only []
    rw [show ({ s.overLeading settings name w with patch := p } :
      Splice).failure? =
      (s.overLeading settings name w).failure? from rfl]
    split
    · rfl
    · rw [overBody_patch]

theorem overHunks_patch (ws : List CountedHunk) (s : Splice) (p : LineStream) :
    { s with patch := p }.overHunks settings name ws =
      { s.overHunks settings name ws with patch := p } := by
  induction ws generalizing s with
  | nil => rfl
  | cons w ws ih =>
      rw [overHunks, overHunks, overHunk_patch]
      simp only []
      rw [show ({ s.overHunk settings name w with patch := p } :
        Splice).failure? =
        (s.overHunk settings name w).failure? from rfl]
      split
      · rfl
      · rw [ih]

theorem overSection_patch (ws : List CountedHunk) (s : Splice)
    (p : LineStream) :
    { s with patch := p }.overSection settings name ws =
      { s.overSection settings name ws with patch := p } := by
  unfold overSection
  rw [overHunks_patch]
  simp only []
  rw [show ({ s.overHunks settings name ws with patch := p } :
    Splice).failure? =
    (s.overHunks settings name ws).failure? from rfl]
  split
  · rfl
  · unfold stepTrailing
    simp only []
    split <;> rfl

/-! ## What a run comes to -/

/-- Before a body, both sides of which end where the header says. -/
def Entered (hunk : Hunk) (s : Splice) : Prop :=
  s.phase = .body hunk
    { source := s.cursor + hunk.old.count
      result := s.emitted + hunk.new.count } {}

/-- The lines before a hunk are there or the work is given up. -/
theorem stepLeading_cases (hunk : Hunk) (s : Splice) :
    (∃ why, (s.stepLeading name hunk).phase = .stopped why) ∨
      (s.stepLeading name hunk).Entered hunk := by
  unfold stepLeading
  split
  · exact .inr rfl
  · split
    · exact .inl ⟨_, rfl⟩
    · simp only []
      split
      · exact .inr rfl
      · exact .inl ⟨_, rfl⟩

theorem failure?_of_header (h : s.phase = .header) : s.failure? = none := by
  rw [failure?, h]

theorem failure?_of_entered {hunk : Hunk} (h : s.Entered hunk) :
    s.failure? = none := by
  rw [failure?, h]

theorem overBody_phase (body : List BodyLine) (s : Splice) :
    (s.overBody settings name body).phase = .header := by
  unfold overBody
  split
  · rfl
  · unfold overFollowed
    simp only []
    split <;> rfl

theorem run_overFollowed {hunk : Hunk} {body : List BodyLine}
    {texts : List Line} (hskip : settings.skipApplied = false)
    (hs : s.Entered hunk) (hpatch : s.patch.ready = texts ++ rest)
    (hread : texts.map (BodyLine.ofLine? settings.reverse) = body.map some)
    (hold : (sourceSide body).length = hunk.old.count)
    (hnew : (resultSide body).length = hunk.new.count) :
    ∃ p : LineStream, p.ready = restoreFirst rest ∧
      s.run settings name =
        { s.overFollowed body with patch := p }.run settings name := by
  by_cases hfront : followed body s.source.ready = body
  · have hcursor : s.cursor + (sourceSide body).length =
        s.cursor + hunk.old.count := by rw [hold]
    have hemitted : s.emitted + (resultSide body).length =
        s.emitted + hunk.new.count := by
      rw [hnew]
    have hbody := run_body settings name hs hpatch hread
      (followed_eq_self_iff.1 hfront)
      (Nat.le_of_eq hcursor) (Nat.le_of_eq hemitted)
    obtain ⟨p, hp, hend⟩ := run_body_end settings name
      (s := s.past hunk ⟨s.cursor + hunk.old.count, s.emitted + hunk.new.count⟩
        {} body)
      rfl hcursor hemitted
    have hlength : body.length = texts.length := by
      simpa using (congrArg List.length hread).symm
    refine ⟨p, ?_, ?_⟩
    · rw [hp]
      simp only [past, LineStream.ready_skip, hpatch, hlength, List.drop_left]
    · rw [hbody, hend]
      unfold overFollowed
      simp only [hfront, if_true]
      rfl
  · obtain ⟨more, hmore⟩ := followed_isPrefix body s.source.ready
    cases more with
    | nil => exact absurd (by simpa using hmore) hfront
    | cons b more =>
        obtain ⟨hrole, hmiss⟩ := missed_of_followed hmore.symm
        have hfound := sourceSide_followed_isPrefix body s.source.ready
        rw [← hmore] at hread hold hnew
        obtain ⟨p, hp, hrun⟩ := run_body_failing settings name hskip hs hpatch
          hread hfound
          hrole hmiss hold hnew rfl rfl
        refine ⟨p, hp, ?_⟩
        rw [hrun]
        unfold overFollowed
        simp only [hfront, if_false]
        rfl

/-- All that can become of a hunk: its header is not read, the lines before it
are not there, or its body is gone over. -/
theorem overHunk_cases (w : CountedHunk) (s : Splice) :
    (∃ run, Hunk.readHeader w.header = .error run ∧
        s.overHunk settings name w = s.stop (.overlong run)) ∨
      Hunk.readHeader w.header = .ok (some (Hunk.ofDigits w.runs)) ∧
        ((∃ why, (s.overLeading settings name w).phase = .stopped why ∧
            s.overHunk settings name w = s.overLeading settings name w) ∨
          (s.overLeading settings name w).Entered (w.facing settings.reverse) ∧
            s.overHunk settings name w =
              (s.overLeading settings name w).overBody settings name
              (w.script settings.reverse)) := by
  rcases Hunk.readHeader_cases w.header_runs with hread | ⟨run, hread⟩
  · refine .inr ⟨hread, ?_⟩
    rcases stepLeading_cases name (w.facing settings.reverse)
      { s with hunks := s.hunks + 1 } with ⟨why, hwhy⟩ | henter
    · refine .inl ⟨why, hwhy, ?_⟩
      have hfail : (s.overLeading settings name w).failure? = some why :=
        failure?_eq_some_iff.2 hwhy
      simp [overHunk, hread, hfail]
    · refine .inr ⟨henter, ?_⟩
      have hfine : (s.overLeading settings name w).failure? = none :=
        failure?_of_entered henter
      simp [overHunk, hread, hfine]
  · refine .inl ⟨run, hread, ?_⟩
    simp [overHunk, hread]

theorem overHunk_phase (w : CountedHunk) (s : Splice) :
    (s.overHunk settings name w).phase = .header ∨
      ∃ why, (s.overHunk settings name w).phase = .stopped why := by
  rcases overHunk_cases settings name w s with
    ⟨run, -, h⟩ | ⟨-, ⟨why, hwhy, h⟩ | ⟨-, h⟩⟩ <;> rw [h]
  · exact .inr ⟨_, rfl⟩
  · exact .inr ⟨why, hwhy⟩
  · exact .inl (overBody_phase settings name _ _)

/-- A hunk that did not stop the work was entered, and its body gone over. -/
theorem entered_of_fine (hfine : (s.overHunk settings name w).failure? = none) :
    Hunk.readHeader w.header = .ok (some (Hunk.ofDigits w.runs)) ∧
      (s.overLeading settings name w).Entered (w.facing settings.reverse) ∧
      s.overHunk settings name w =
        (s.overLeading settings name w).overBody settings name
        (w.script settings.reverse) := by
  rcases overHunk_cases settings name w s with
    ⟨run, -, h⟩ | ⟨hread, ⟨why, hwhy, h⟩ | hentered⟩
  · rw [h] at hfine
    exact absurd hfine (by simp [failure?, stop])
  · rw [h, failure?_eq_some_iff.2 hwhy] at hfine
    exact absurd hfine (by simp)
  · exact ⟨hread, hentered⟩

theorem overHunks_cons_fine {ws : List CountedHunk}
    (hfine : (s.overHunks settings name (w :: ws)).failure? = none) :
    (s.overHunk settings name w).phase = .header ∧
      s.overHunks settings name (w :: ws) =
        (s.overHunk settings name w).overHunks settings name ws := by
  rcases overHunk_phase settings name w s with hhead | ⟨why, hwhy⟩
  · refine ⟨hhead, ?_⟩
    rw [overHunks]
    exact if_neg (by simp [failure?_of_header hhead])
  · have heq : s.overHunks settings name (w :: ws) =
        s.overHunk settings name w := by
      rw [overHunks]
      exact if_pos (by rw [failure?_eq_some_iff.2 hwhy]; rfl)
    rw [heq, failure?_eq_some_iff.2 hwhy] at hfine
    exact absurd hfine (by simp)

/-! ## The lines behind a hunk -/

/-- A hunk whose missed lines are passed over closes if the counter that a
marker line is compared with has come to its end: forwards the source must
hold as many lines as the hunk takes, backwards every context line must have
been found. -/
def Closes (w : CountedHunk) (s : Splice) : Prop :=
  if settings.reverse then
    (forwarded (w.script settings.reverse) s.source.ready).length =
      (w.facing settings.reverse).new.count
  else (w.facing settings.reverse).old.count ≤ s.source.ready.length

instance (w : CountedHunk) (s : Splice) : Decidable (s.Closes settings w) :=
  inferInstanceAs (Decidable (if settings.reverse then _ = _ else _ ≤ _))

/-- The last of the hunks closes, if there is one. -/
def Closed : List CountedHunk → Splice → Prop
  | [], _ => True
  | w :: ws, s =>
      (ws = [] → (s.overLeading settings name w).Closes settings w) ∧
        Closed ws (s.overHunk settings name w)

instance Closed.decidable : ∀ (ws : List CountedHunk) (s : Splice),
    Decidable (s.Closed settings name ws)
  | [], _ => isTrue trivial
  | w :: ws, s =>
      have := Closed.decidable ws (s.overHunk settings name w)
      inferInstanceAs (Decidable ((_ → _) ∧ _))

/-- What is behind the hunks is not taken for a line of theirs. -/
def Told (ws : List CountedHunk) (rest : List Line) (s : Splice) : Prop :=
  settings.skipApplied = true → ∀ line ∈ rest.head?,
    BodyLine.ofLine? settings.reverse line = none ∨
      (Bytes.after? Marker.old line).isSome ∧ s.Closed settings name ws

theorem told_of_not_skip (hskip : settings.skipApplied = false)
    (ws : List CountedHunk) (rest : List Line) (s : Splice) :
    s.Told settings name ws rest := by
  intro h
  rw [hskip] at h
  exact absurd h (by simp)

theorem closed_patch (ws : List CountedHunk) (s : Splice) (p : LineStream) :
    { s with patch := p }.Closed settings name ws ↔
      s.Closed settings name ws := by
  induction ws generalizing s with
  | nil => exact Iff.rfl
  | cons w ws ih =>
      unfold Closed
      rw [overLeading_patch, overHunk_patch, ih]
      exact Iff.rfl

theorem atEnd_overLines_iff (w : CountedHunk) (s : Splice) :
    (overLines name (w.script settings.reverse) s).AtEnd settings.reverse
        { source := s.cursor + (w.facing settings.reverse).old.count
          result := s.emitted + (w.facing settings.reverse).new.count } ↔
      s.Closes settings w := by
  have hpassed := overLines_passed name (w.script settings.reverse) s
  have hold := w.length_sourceSide_script settings.reverse
  unfold AtEnd Closes
  rw [hpassed.emitted, hpassed.cursor, hold]
  split
  · exact Nat.add_left_cancel_iff
  · rw [Nat.add_left_cancel_iff, Nat.min_def]
    split <;> omega

/-- A body whose missed lines are passed over, up to what is behind it. -/
theorem run_body_passed (hskip : settings.skipApplied = true)
    (hs : s.Entered (w.facing settings.reverse))
    (hpatch : s.patch.ready = w.body ++ rest) :
    ∃ (p : LineStream) (seen : Tally), p.ready = rest ∧
      s.run settings name =
        ({ overLines name (w.script settings.reverse) s with
            patch := p
            phase := .body (w.facing settings.reverse)
              { source := s.cursor + (w.facing settings.reverse).old.count
                result := s.emitted + (w.facing settings.reverse).new.count }
              seen } : Splice).run settings name := by
  refine ⟨s.patch.skip w.body.length,
    ({} : Tally).plus (w.script settings.reverse), by simp [hpatch], ?_⟩
  exact run_overLines settings name hskip hs hpatch
    (w.map_ofLine?_body settings.reverse)
    (Nat.le_of_eq (by rw [w.length_sourceSide_script]))
    (Nat.le_of_eq (by rw [w.length_resultSide_script]))

/-- A body and what is behind it, which is none of a body or meets a hunk that
closes. -/
theorem run_overBody (hs : s.Entered (w.facing settings.reverse))
    (hpatch : s.patch.ready = w.body ++ rest)
    (htold : settings.skipApplied = true → ∀ line ∈ rest.head?,
      BodyLine.ofLine? settings.reverse line = none ∨
        (Bytes.after? Marker.old line).isSome ∧ s.Closes settings w) :
    ∃ p : LineStream, p.Yields rest ∧
      s.run settings name =
        { s.overBody settings name (w.script settings.reverse) with
          patch := p }.run
          settings name := by
  cases hskip : settings.skipApplied with
  | false =>
      obtain ⟨p, hp, hrun⟩ := run_overFollowed settings name hskip hs hpatch
        (w.map_ofLine?_body settings.reverse)
        (w.length_sourceSide_script settings.reverse)
        (w.length_resultSide_script settings.reverse)
      refine ⟨p, .inr hp, hrun.trans ?_⟩
      rw [overBody, hskip]
      rfl
  | true =>
      obtain ⟨p, seen, hp, hrun⟩ :=
        run_body_passed settings name hskip hs hpatch
      obtain ⟨q, hq, hback⟩ := run_body_left settings name
        (s := { overLines name (w.script settings.reverse) s with
          patch := p
          phase := _ }) rfl
        fun line hline =>
          (htold hskip line (by rwa [hp] at hline)).imp_right fun h =>
          ⟨h.1, (atEnd_overLines_iff settings name w s).2 h.2⟩
      refine ⟨q, .inl (hq.trans hp), ?_⟩
      rw [hrun, overBody, hskip]
      exact hback

/-! ## Hunks and what is behind them -/

/-- The machine before a body, from the header on. -/
theorem run_overLeading (hphase : s.phase = .header)
    (hpatch : s.patch.ready = w.lines ++ rest)
    (hread : Hunk.readHeader w.header = .ok (some (Hunk.ofDigits w.runs))) :
    s.run settings name =
      { s.overLeading settings name w with patch := s.patch.skip 1 }.run
        settings name := by
  rw [run_header settings name hphase hpatch hread, ← run_step]
  exact congrArg (run settings name)
    (stepLeading_patch name (w.facing settings.reverse)
    { s with hunks := s.hunks + 1 } (s.patch.skip 1)
      (.leading (w.facing settings.reverse)))

/-- One hunk, whatever stands behind it. -/
theorem run_overHunk (hphase : s.phase = .header)
    (hpatch : s.patch.ready = w.lines ++ rest)
    (htold : (s.overHunk settings name w).failure? = none →
      s.Told settings name [w] rest) :
    ∃ p : LineStream,
      ((s.overHunk settings name w).failure? = none → p.Yields rest) ∧
      s.run settings name =
        { s.overHunk settings name w with patch := p }.run settings name := by
  rcases overHunk_cases settings name w s with
    ⟨overlong, hread, hover⟩ | ⟨hread, ⟨why, hwhy, hover⟩ | ⟨henter, hover⟩⟩
  · refine ⟨s.patch.skip 1, fun hnone => ?_, ?_⟩
    · rw [hover] at hnone
      exact absurd hnone (by simp [failure?, stop])
    · rw [← run_step, hover]
      simp only [step, hphase, stepHeader,
        LineStream.next?_eq_skip hpatch, hread]
      rfl
  · refine ⟨s.patch.skip 1, fun hnone => ?_, ?_⟩
    · rw [hover, failure?_eq_some_iff.2 hwhy] at hnone
      exact absurd hnone (by simp)
    · rw [hover]
      exact run_overLeading settings name hphase hpatch hread
  · have hfine : (s.overHunk settings name w).failure? = none := by
      rw [hover]
      exact failure?_of_header (overBody_phase settings name _ _)
    have hbody : (s.patch.skip 1).ready = w.body ++ rest := by
      rw [LineStream.ready_skip, hpatch]
      rfl
    obtain ⟨p, hp, hrun⟩ := run_overBody settings name
      (s := { s.overLeading settings name w with patch := s.patch.skip 1 })
      henter hbody fun hskip line hline =>
        (htold hfine hskip line hline).imp_right fun h => ⟨h.1, h.2.1 rfl⟩
    refine ⟨p, fun _ => hp, ?_⟩
    rw [run_overLeading settings name hphase hpatch hread, hrun,
      overBody_patch, hover]

/-- The line behind a hunk is the header of the next one or what is
behind all. -/
theorem told_head {ws : List CountedHunk}
    (htold : (s.overHunks settings name (w :: ws)).failure? = none →
      s.Told settings name (w :: ws) rest)
    (hfine : (s.overHunk settings name w).failure? = none) :
    s.Told settings name [w] (ws.flatMap CountedHunk.lines ++ rest) := by
  intro hskip line hline
  cases ws with
  | cons w' ws =>
      obtain rfl : w'.header = line := by simpa [CountedHunk.lines] using hline
      exact .inl (w'.ofLine?_header settings.reverse)
  | nil => exact htold (by simp [overHunks, hfine]) hskip line hline

theorem Told.tail {ws : List CountedHunk}
    (h : s.Told settings name (w :: ws) rest) (p : LineStream) :
    ({ s.overHunk settings name w with patch := p } : Splice).Told settings name
      ws rest :=
  fun hskip line hline => (h hskip line hline).imp_right fun h =>
    ⟨h.1, (closed_patch settings name ws _ p).2 h.2.2⟩

theorem run_overHunks {ws : List CountedHunk}
    (htold : (s.overHunks settings name ws).failure? = none →
      s.Told settings name ws rest)
    (hphase : s.phase = .header)
    (hpatch : s.patch.Yields (ws.flatMap CountedHunk.lines ++ rest)) :
    ∃ p : LineStream,
      ((s.overHunks settings name ws).failure? = none →
        p.Yields rest ∧ (s.overHunks settings name ws).phase = .header) ∧
      s.run settings name =
        { s.overHunks settings name ws with patch := p }.run settings name := by
  induction ws generalizing s with
  | nil => exact ⟨s.patch, fun _ => ⟨hpatch, hphase⟩, rfl⟩
  | cons w ws ih =>
      rw [List.flatMap_cons, List.append_assoc] at hpatch
      obtain ⟨p, hp, hrun⟩ := run_overHunk settings name hphase
        hpatch.ready_hunk
        (told_head settings name htold)
      rw [overHunks] at htold ⊢
      simp only [] at htold ⊢
      rcases overHunk_phase settings name w s with hhead | ⟨why, hwhy⟩
      · have hnone := failure?_of_header hhead
        rw [if_neg (by rw [hnone]; simp)] at htold ⊢
        obtain ⟨q, hq, hrest⟩ :=
          ih (s := { s.overHunk settings name w with patch := p })
          (fun hfine => Told.tail settings name
            (htold (by rwa [overHunks_patch] at hfine)) p)
          hhead (hp hnone)
        rw [overHunks_patch] at hq hrest
        exact ⟨q, hq, hrun.trans hrest⟩
      · rw [if_pos (by rw [failure?_eq_some_iff.2 hwhy]; rfl)]
        refine ⟨p, fun hnone => ?_, hrun⟩
        rw [failure?_eq_some_iff.2 hwhy] at hnone
        exact absurd hnone (by simp)

/-- A run on hunks and what is behind them is a function of the hunks, and it
leaves what is behind them. -/
theorem run_overSection {ws : List CountedHunk}
    (htold : (s.overHunks settings name ws).failure? = none →
      s.Told settings name ws rest)
    (hphase : s.phase = .header)
    (hpatch : s.patch.Yields (ws.flatMap CountedHunk.lines ++ rest))
    (hrest : ∀ line ∈ rest.head?, Hunk.isHeader line = false) :
    ∃ p : LineStream,
      ((s.overSection settings name ws).failure? = none → p.Yields rest) ∧
      s.run settings name =
        { s.overSection settings name ws with patch := p } := by
  obtain ⟨p, hp, hrun⟩ := run_overHunks settings name htold hphase hpatch
  unfold overSection
  simp only []
  cases hfail : (s.overHunks settings name ws).failure? with
  | some why =>
      have hstopped := isLive_of_failure? hfail
      rw [Option.isSome_some, if_pos rfl]
      refine ⟨p, fun hnone => ?_, ?_⟩
      · rw [hfail] at hnone
        exact absurd hnone (by simp)
      · rw [hrun]
        exact run_of_not_isLive settings name hstopped
  | none =>
      obtain ⟨hyields, hhead⟩ := hp hfail
      obtain ⟨q, hq, hend⟩ := run_header_end settings name
        (s := { s.overHunks settings name ws with patch := p }) hhead
        (hyields.head_not_header hrest)
      rw [Option.isSome_none, if_neg (by simp)]
      refine ⟨q, fun _ => LineStream.yields_of_restored hyields hq, ?_⟩
      rw [hrun, hend, ← run_step, run_of_not_isLive settings name rfl]
      simp only [step, stepTrailing]
      split <;> rfl

theorem run_overSection_nil {ws : List CountedHunk} (hphase : s.phase = .header)
    (hpatch : s.patch.ready = ws.flatMap CountedHunk.lines) :
    ∃ p : LineStream,
      ((s.overSection settings name ws).failure? = none → p.ready = []) ∧
      s.run settings name =
        { s.overSection settings name ws with patch := p } := by
  rw [← List.append_nil (ws.flatMap CountedHunk.lines)] at hpatch
  obtain ⟨p, hp, hrun⟩ := run_overSection settings name
    (fun _ _ line hline => absurd hline (by simp)) hphase
    (.inl hpatch) (by simp)
  exact ⟨p, fun hfine => (hp hfine).ready_nil, hrun⟩

/-- A run that was not given up has got over its hunks. -/
theorem overHunks_fine_of_run {ws : List CountedHunk}
    (hphase : s.phase = .header)
    (hpatch : s.patch.Yields (ws.flatMap CountedHunk.lines ++ rest))
    (hfine : (s.run settings name).failure? = none) :
    (s.overHunks settings name ws).failure? = none := by
  cases hstop : (s.overHunks settings name ws).failure? with
  | none => rfl
  | some why =>
      obtain ⟨p, -, hrun⟩ := run_overHunks settings name
        (fun hnone => absurd (hstop.symm.trans hnone) (by simp)) hphase hpatch
      have hlive :
          ({ s.overHunks settings name ws with patch := p } :
            Splice).phase.isLive =
          false :=
        isLive_of_failure? hstop
      rw [hrun, run_of_not_isLive settings name hlive] at hfine
      exact absurd (hstop.symm.trans hfine) (by simp)

/-! ## How many hunks are counted -/

theorem hunks_overHunk (hfine : (s.overHunk settings name w).failure? = none) :
    (s.overHunk settings name w).hunks = s.hunks + 1 := by
  have hled : (s.overLeading settings name w).hunks = s.hunks + 1 := by
    unfold overLeading stepLeading
    split
    · rfl
    · split
      · rfl
      · simp only []
        split <;> rfl
  obtain ⟨-, -, hover⟩ := entered_of_fine settings name hfine
  rw [hover, ← hled]
  unfold overBody
  split
  · exact (overLines_passed name _ _).hunks
  · unfold overFollowed
    simp only []
    split <;> rfl

theorem hunks_overHunks {ws : List CountedHunk}
    (hfine : (s.overHunks settings name ws).failure? = none) :
    (s.overHunks settings name ws).hunks = s.hunks + ws.length := by
  induction ws generalizing s with
  | nil => rfl
  | cons w ws ih =>
      obtain ⟨hhead, heq⟩ := overHunks_cons_fine settings name hfine
      rw [heq] at hfine ⊢
      rw [ih hfine, hunks_overHunk settings name (failure?_of_header hhead),
        List.length_cons]
      omega

theorem hunks_overSection {ws : List CountedHunk}
    (hfine : (s.overHunks settings name ws).failure? = none) :
    (s.overSection settings name ws).hunks = s.hunks + ws.length := by
  rw [← hunks_overHunks settings name hfine]
  unfold overSection stepTrailing
  simp only []
  split
  · rfl
  · split <;> rfl

/-! ## The marker line behind hunks that do not close -/

/-- A marker line behind hunks that do not close is taken for a line
of theirs. -/
theorem length_patch_run_le {ws : List CountedHunk} {line : Line}
    (hskip : settings.skipApplied = true) (hphase : s.phase = .header)
    (hpatch : s.patch.ready = ws.flatMap CountedHunk.lines ++ line :: rest)
    (hmarked : (Bytes.after? Marker.old line).isSome)
    (hfine : (s.overHunks settings name ws).failure? = none)
    (hopen : ¬ s.Closed settings name ws) :
    (s.run settings name).patch.ready.length ≤ rest.length := by
  induction ws generalizing s with
  | nil => exact absurd trivial hopen
  | cons w ws ih =>
      rw [List.flatMap_cons, List.append_assoc] at hpatch
      obtain ⟨hhead, hrest⟩ := overHunks_cons_fine settings name hfine
      have hnone := failure?_of_header hhead
      rw [hrest] at hfine
      cases ws with
      | cons w' ws =>
          -- The next hunk has a header, at which this one ends in any case.
          have htold : s.Told settings name [w]
              ((w' :: ws).flatMap CountedHunk.lines ++ line :: rest) := by
            intro _ l hl
            obtain rfl : w'.header = l := by simpa [CountedHunk.lines] using hl
            exact .inl (w'.ofLine?_header settings.reverse)
          obtain ⟨p, hp, hrun⟩ :=
            run_overHunk settings name hphase hpatch fun _ => htold
          have hready := hp hnone
          rw [List.flatMap_cons, List.append_assoc] at hready
          rw [hrun]
          refine ih (s := { s.overHunk settings name w with patch := p })
            hhead ?_ ?_ ?_
          · rw [List.flatMap_cons, List.append_assoc]
            exact hready.ready_hunk
          · rw [overHunks_patch]
            exact hfine
          · rw [closed_patch]
            exact fun h => hopen ⟨by simp, h⟩
      | nil =>
          -- Behind the last hunk stands the marker line, and a counter is not
          -- at its end.
          obtain ⟨hread, henter, -⟩ := entered_of_fine settings name hnone
          have hbody : (s.patch.skip 1).ready = w.body ++ line :: rest := by
            rw [LineStream.ready_skip, hpatch]
            rfl
          obtain ⟨p, seen, hp, hrun⟩ := run_body_passed settings name
            (s := { s.overLeading settings name w with
              patch := s.patch.skip 1 }) hskip henter hbody
          rw [run_overLeading settings name hphase hpatch hread, hrun]
          refine run_marker_taken settings name hskip rfl hp hmarked fun hend =>
            hopen ⟨?_, trivial⟩
          intro _
          exact (atEnd_overLines_iff settings name w
            { s.overLeading settings name w with patch := s.patch.skip 1 }).1
            hend

/-- Hunks leave the marker line behind them exactly if they close. -/
theorem ready_patch_run_iff {ws : List CountedHunk} {line : Line}
    (hskip : settings.skipApplied = true) (hphase : s.phase = .header)
    (hpatch : s.patch.ready = ws.flatMap CountedHunk.lines ++ line :: rest)
    (hmarked : (Bytes.after? Marker.old line).isSome)
    (hfine : (s.overHunks settings name ws).failure? = none) :
    (s.run settings name).patch.Yields (line :: rest) ↔
      s.Closed settings name ws := by
  constructor
  · intro hyields
    refine Decidable.by_contra fun hopen => ?_
    have hle :=
      length_patch_run_le settings name hskip hphase hpatch hmarked hfine hopen
    have hlength : (s.run settings name).patch.ready.length =
        rest.length + 1 := by
      rcases hyields with h | h <;> rw [h] <;> rfl
    omega
  · intro hclosed
    obtain ⟨p, hp, hrun⟩ := run_overSection settings name
      (fun _ _ l hl => .inr ⟨by simp_all, hclosed⟩) hphase (.inl hpatch)
      (by simpa using Hunk.isHeader_of_marked hmarked)
    rw [hrun]
    refine hp ?_
    rw [overSection, hfine]
    rfl

end Splice

end UnifiedPatch
