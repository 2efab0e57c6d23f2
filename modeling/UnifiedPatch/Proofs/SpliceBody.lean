import UnifiedPatch.Proofs.HunkText
import UnifiedPatch.Splice

/-!
# One hunk through the machine

A run is what its first step leads to (`run_step`), so a run from one state is
a run from any state further on, and what a stretch of patch lines does is said
by an equation between two runs. The lemmas below cut a hunk into such
stretches: the header, the lines before the hunk, the body lines that the
source agrees with, the line that is missed, the lines passed over after it,
and the line after the body.

That last line is the delicate one. Nothing marks the end of a body, and the
line after it may look like one of its own, a section marker above all. The
machine tells by counting: once both sides are complete the next line goes
back, whatever it is (`run_body_end`), and so does the line after a failed hunk
once all its lines are accounted for (`run_skipping_end`). It goes back as it
was read, a bare newline with its blank (`restoreFirst`).
-/

namespace UnifiedPatch

/-- Lines of which the first was read as a body line and handed back. -/
def restoreFirst : List Line → List Line
  | [] => []
  | line :: more => BodyLine.restoreBlank line :: more

/-- The counters of a body after more of its lines. -/
def Tally.plus (t : Tally) (body : List BodyLine) : Tally :=
  { source := t.source + (sourceSide body).length
    result := t.result + (resultSide body).length }

@[simp] theorem Tally.plus_nil (t : Tally) : t.plus [] = t := rfl

theorem Tally.plus_cons (t : Tally) (b : BodyLine) (body : List BodyLine) :
    t.plus (b :: body) = (t.count b.role).plus body := by
  rw [plus, sourceSide_cons, resultSide_cons]
  cases b.role <;> simp [plus, count, Nat.add_assoc, Nat.add_comm]

theorem Tally.plus_plus (t : Tally) (body more : List BodyLine) :
    (t.plus body).plus more = t.plus (body ++ more) := by
  simp [plus, Nat.add_assoc]

namespace BodyLine

/-- The text that is handed back is the line with its blank. -/
theorem text_of_ofLine? {reverse : Bool} {line : Line} {b : BodyLine}
    (h : ofLine? reverse line = some b) : b.text = restoreBlank line := by
  unfold ofLine? at h
  split at h
  · simp at h
  · next marker content hl =>
      obtain ⟨role, -, rfl⟩ := Option.map_eq_some_iff.1 h
      exact hl.symm

/-- A line that is none of a body is handed back as it is. -/
theorem restoreBlank_of_ofLine? {reverse : Bool} {line : Line}
    (h : ofLine? reverse line = none) : restoreBlank line = line := by
  unfold restoreBlank
  split
  · next hb =>
      rcases hb with rfl | rfl <;> cases reverse <;>
        simp [ofLine?, restoreBlank, Role.ofMarker?] at h
  · rfl

end BodyLine

theorem WrittenHunk.restoreFirst_lines_append (w : WrittenHunk)
    (more : List Line) :
    restoreFirst (w.lines ++ more) = w.lines ++ more := by
  rw [lines, List.cons_append, restoreFirst, w.restoreBlank_header]

/-- A blank put back makes no header. -/
theorem isHeader_head?_restoreFirst {ls : List Line}
    (h : ∀ line ∈ ls.head?, Hunk.isHeader line = false) :
    ∀ line ∈ (restoreFirst ls).head?, Hunk.isHeader line = false := by
  cases ls with
  | nil => exact h
  | cons line more =>
      intro back hback
      obtain rfl : BodyLine.restoreBlank line = back := by
        simpa [restoreFirst] using hback
      unfold BodyLine.restoreBlank
      split
      · next hblank => rcases hblank with rfl | rfl <;> decide
      · exact h line rfl

/-! ## What is said -/

theorem Transcript.notices_push_notice (t : Transcript) (n : Notice) :
    notices (t.push (.notice n)) = t.notices ++ [n] := by
  simp [notices]

theorem Transcript.notices_push_remark (t : Transcript) (r : Remark) :
    notices (t.push (.remark r)) = t.notices := by
  simp [notices]

namespace Splice

variable (settings : Settings) (name : Bytes) {s : Splice}

theorem failure?_eq_some_iff {why : Failure} :
    s.failure? = some why ↔ s.phase = .stopped why := by
  unfold failure?
  split <;> simp_all

theorem failure?_eq_none_iff :
    s.failure? = none ↔ ∀ why, s.phase ≠ .stopped why := by
  unfold failure?
  split <;> simp_all

theorem isLive_of_failure? {why : Failure} (h : s.failure? = some why) :
    s.phase.isLive = false := by
  rw [failure?_eq_some_iff.1 h]
  rfl

theorem step_of_not_isLive (h : s.phase.isLive = false) :
    s.step settings name = s := by
  unfold step
  split <;> simp_all [Phase.isLive]

theorem run_of_not_isLive (h : s.phase.isLive = false) :
    s.run settings name = s := by
  rw [run, if_neg (by simp [h])]

theorem run_step (s : Splice) :
    (s.step settings name).run settings name = s.run settings name := by
  cases h : s.phase.isLive with
  | false => rw [step_of_not_isLive settings name h]
  | true => conv => rhs; rw [run, if_pos h]

/-! ## The header and the lines before the hunk -/

theorem run_header {line : Line} {rest : List Line} {hunk : Hunk}
    (hphase : s.phase = .header) (hpatch : s.patch.ready = line :: rest)
    (hread : Hunk.readHeader line = .ok (some hunk)) :
    s.run settings name =
      ({ s with
          patch := s.patch.skip 1
          hunks := s.hunks + 1
          phase := .leading (if settings.reverse then hunk.swap else hunk) } :
        Splice).run settings name := by
  rw [← run_step]
  simp only [step, hphase, stepHeader, LineStream.next?_eq_skip hpatch, hread]

/-- A line that is no header ends the hunks and goes back as it is. -/
theorem run_header_end (hphase : s.phase = .header)
    (hhead : ∀ line ∈ s.patch.ready.head?, Hunk.isHeader line = false) :
    ∃ p : LineStream, p.ready = s.patch.ready ∧
      s.run settings name =
        ({ s with patch := p, phase := .trailing } : Splice).run
          settings name := by
  rw [← run_step]
  cases hpatch : s.patch.ready with
  | nil =>
      refine ⟨s.patch, hpatch, ?_⟩
      simp only [step, hphase, stepHeader,
        LineStream.next?_eq_none_iff.2 hpatch]
  | cons line rest =>
      obtain ⟨p, hp, hready⟩ := LineStream.unread?_skip_one hpatch line
      have hread : Hunk.readHeader line = .ok none := by
        have hl := hhead line (by simp [hpatch])
        simp only [Hunk.isHeader, Option.isSome_eq_false_iff,
          Option.isNone_iff_eq_none] at hl
        simp [Hunk.readHeader, hl]
      refine ⟨p, hready, ?_⟩
      simp only [step, hphase, stepHeader, LineStream.next?_eq_skip hpatch,
        hread, handBack, hp]

theorem run_leading {hunk : Hunk} (hphase : s.phase = .leading hunk)
    (hplace : hunk.wholeFile = false) (hcursor : s.cursor ≤ hunk.old.start)
    (hlines : hunk.old.start - s.cursor ≤ s.source.ready.length) :
    s.run settings name =
      ({ s with
          source := s.source.skip (hunk.old.start - s.cursor)
          written :=
            s.written ++ s.source.ready.take (hunk.old.start - s.cursor)
          cursor := hunk.old.start
          emitted := s.emitted + (hunk.old.start - s.cursor)
          flush := true
          offset := hunk.old.start
          phase := .body hunk
            { source := hunk.old.start + hunk.old.count
              result := s.emitted + (hunk.old.start - s.cursor) +
                hunk.new.count } {} } :
        Splice).run settings name := by
  have hmissing :
      (s.source.copy (some ((hunk.old.start - s.cursor : Nat) : Int))).missing =
        0 := by
    simp only [LineStream.copy, Int.toNat_natCast,
      LineStream.takeLines_eq_take_skip, List.length_take,
      Nat.min_eq_left hlines, Int.sub_self]
  rw [← run_step]
  simp only [step, hphase, stepLeading, hplace, Bool.false_eq_true, if_false,
    if_neg (Nat.not_lt.2 hcursor), hmissing, if_true, enterBody]
  simp only [LineStream.copy, Int.toNat_natCast,
    LineStream.takeLines_eq_take_skip, Nat.add_sub_cancel' hcursor]

/-! ## The body, as long as the source agrees -/

/-- The machine after it has followed the lines of a body. -/
def past (s : Splice) (hunk : Hunk) (ends seen : Tally) (body : List BodyLine) :
    Splice :=
  { s with
    patch := s.patch.skip body.length
    source := s.source.skip (sourceSide body).length
    written := s.written ++ resultSide body
    cursor := s.cursor + (sourceSide body).length
    emitted := s.emitted + (resultSide body).length
    phase := .body hunk ends (seen.plus body) }

theorem past_nil {hunk : Hunk} {ends seen : Tally}
    (hphase : s.phase = .body hunk ends seen) :
    s.past hunk ends seen [] = s := by
  obtain ⟨patch, source, written, cursor, emitted, hunks, failed, trailing,
    flush, offset, transcript, phase⟩ := s
  subst hphase
  simp [past, Tally.plus]

theorem past_past (hunk : Hunk) (ends seen : Tally)
    (body more : List BodyLine) :
    (s.past hunk ends seen body).past hunk ends (seen.plus body) more =
      s.past hunk ends seen (body ++ more) := by
  simp only [past, Tally.plus, LineStream.skip_skip, Nat.add_assoc,
    sourceSide_append, resultSide_append, List.length_append, mk.injEq,
    true_and, and_true]
  exact Array.ext' (by simp)

theorem run_body_line {hunk : Hunk} {ends seen : Tally} {line : Line}
    {rest : List Line} {b : BodyLine} (hphase : s.phase = .body hunk ends seen)
    (hpatch : s.patch.ready = line :: rest)
    (hread : BodyLine.ofLine? settings.reverse line = some b)
    (hsource : sourceSide [b] <+: s.source.ready)
    (hcursor : s.cursor + (sourceSide [b]).length ≤ ends.source)
    (hemitted : s.emitted + (resultSide [b]).length ≤ ends.result) :
    s.run settings name = (s.past hunk ends seen [b]).run settings name := by
  rw [← run_step]
  congr 1
  simp only [step, hphase, stepBody, LineStream.next?_eq_skip hpatch, hread]
  rw [past, sourceSide_cons, resultSide_cons, Tally.plus_cons]
  rw [sourceSide_cons] at hsource hcursor
  rw [resultSide_cons] at hemitted
  cases hrole : b.role with
  | insertion =>
      have hroom : s.emitted + 1 ≤ ends.result := by
        simpa [hrole] using hemitted
      simp [emit, Nat.ne_of_lt hroom]
  | context =>
      have hroom : s.emitted + 1 ≤ ends.result := by
        simpa [hrole] using hemitted
      have hleft : s.cursor + 1 ≤ ends.source := by simpa [hrole] using hcursor
      obtain ⟨more, hmore⟩ : [b.content] <+: s.source.ready := by
        simpa [hrole] using hsource
      simp [emit, Nat.ne_of_lt hroom, Nat.ne_of_lt hleft,
        LineStream.next?_eq_skip hmore.symm]
  | deletion =>
      have hleft : s.cursor + 1 ≤ ends.source := by simpa [hrole] using hcursor
      obtain ⟨more, hmore⟩ : [b.content] <+: s.source.ready := by
        simpa [hrole] using hsource
      simp [Nat.ne_of_lt hleft, LineStream.next?_eq_skip hmore.symm]

theorem run_body {hunk : Hunk} {ends seen : Tally} {body : List BodyLine}
    {texts rest : List Line} (hphase : s.phase = .body hunk ends seen)
    (hpatch : s.patch.ready = texts ++ rest)
    (hread : texts.map (BodyLine.ofLine? settings.reverse) = body.map some)
    (hsource : sourceSide body <+: s.source.ready)
    (hcursor : s.cursor + (sourceSide body).length ≤ ends.source)
    (hemitted : s.emitted + (resultSide body).length ≤ ends.result) :
    s.run settings name = (s.past hunk ends seen body).run settings name := by
  induction body generalizing s seen texts with
  | nil => rw [past_nil hphase]
  | cons b body ih =>
      obtain ⟨line, texts, rfl, hline, hread⟩ := List.map_eq_cons_iff.1 hread
      rw [← List.singleton_append, sourceSide_append,
        List.length_append] at hcursor
      rw [← List.singleton_append, resultSide_append,
        List.length_append] at hemitted
      rw [← List.singleton_append, sourceSide_append] at hsource
      obtain ⟨more, hmore⟩ := hsource
      have hfirst := run_body_line settings name hphase hpatch hline
        ⟨_, by rw [← hmore, List.append_assoc]⟩ (by omega) (by omega)
      rw [hfirst, show b :: body = [b] ++ body from rfl, ← past_past]
      refine ih (s := s.past hunk ends seen [b]) rfl ?_ hread ?_ ?_ ?_
      · simp [past, hpatch]
      · simp [past, ← hmore]
      · simp only [past]
        omega
      · simp only [past]
        omega

/-- With both sides complete the next line goes back, whatever it is. -/
theorem run_body_end {hunk : Hunk} {ends seen : Tally}
    (hphase : s.phase = .body hunk ends seen) (hcursor : s.cursor = ends.source)
    (hemitted : s.emitted = ends.result) :
    ∃ p : LineStream, p.ready = restoreFirst s.patch.ready ∧
      s.run settings name =
        ({ s with patch := p, phase := .header } : Splice).run
          settings name := by
  rw [← run_step]
  cases hpatch : s.patch.ready with
  | nil =>
      refine ⟨s.patch, hpatch, ?_⟩
      simp only [step, hphase, stepBody, LineStream.next?_eq_none_iff.2 hpatch]
  | cons line rest =>
      obtain ⟨p, hp, hready⟩ :=
        LineStream.unread?_skip_one hpatch (BodyLine.restoreBlank line)
      refine ⟨p, hready, ?_⟩
      simp only [step, hphase, stepBody, LineStream.next?_eq_skip hpatch]
      cases hread : BodyLine.ofLine? settings.reverse line with
      | none =>
          rw [BodyLine.restoreBlank_of_ofLine? hread] at hp
          simp only [handBack, hp]
      | some b =>
          rw [← BodyLine.text_of_ofLine? hread] at hp
          by_cases hrole : b.role = .insertion
          · simp only [hrole, if_true, emit, hemitted, handBack, hp]
          · simp only [hrole, if_false, hcursor, if_true, handBack, hp]

/-! ## A line that is missed, and what follows it -/

/-- A line that the source has not fails the hunk. The source moves on by the
line it has in its place, if it has one. -/
theorem run_body_missed {hunk : Hunk} {ends seen : Tally} {line : Line}
    {rest : List Line} {b : BodyLine} (hskip : settings.skipApplied = false)
    (hphase : s.phase = .body hunk ends seen)
    (hpatch : s.patch.ready = line :: rest)
    (hread : BodyLine.ofLine? settings.reverse line = some b)
    (hrole : b.role ≠ .insertion) (hcursor : s.cursor ≠ ends.source)
    (hmiss : s.source.ready.head? ≠ some b.content) :
    s.run settings name =
      ({ s with
          patch := s.patch.skip 1
          source := s.source.skip 1
          cursor := s.cursor + min 1 s.source.ready.length
          phase := .skipping hunk (seen.plus [b]) } : Splice).run
        settings name := by
  rw [← run_step]
  congr 1
  simp only [step, hphase, stepBody, LineStream.next?_eq_skip hpatch, hread,
    hrole, if_false, hcursor]
  cases hsource : s.source.ready with
  | nil =>
      simp [LineStream.next?_eq_none_iff.2 hsource,
        LineStream.skip_of_ready_nil hsource, hskip, Tally.plus_cons]
  | cons found more =>
      rw [hsource] at hmiss
      have hfound : found ≠ b.content := by simpa using hmiss
      simp [LineStream.next?_eq_skip hsource, hfound, hskip, Tally.plus_cons]

/-- The lines that the header of a failed hunk still accounts for are passed
over. -/
theorem run_skipping {hunk : Hunk} {seen : Tally} {body : List BodyLine}
    {texts rest : List Line} (hphase : s.phase = .skipping hunk seen)
    (hpatch : s.patch.ready = texts ++ rest)
    (hread : texts.map (BodyLine.ofLine? settings.reverse) = body.map some)
    (hold : (seen.plus body).source ≤ hunk.old.count)
    (hnew : (seen.plus body).result ≤ hunk.new.count) :
    s.run settings name =
      ({ s with
          patch := s.patch.skip body.length
          phase := .skipping hunk (seen.plus body) } : Splice).run
        settings name := by
  induction body generalizing s seen texts with
  | nil =>
      rw [List.length_nil, LineStream.skip_zero, Tally.plus_nil, ← hphase]
  | cons b body ih =>
      obtain ⟨line, texts, rfl, hline, hread⟩ := List.map_eq_cons_iff.1 hread
      rw [Tally.plus_cons] at hold hnew
      have hroom : (seen.count b.role).source ≤ hunk.old.count ∧
          (seen.count b.role).result ≤ hunk.new.count :=
        ⟨Nat.le_trans (Nat.le_add_right _ _) hold,
          Nat.le_trans (Nat.le_add_right _ _) hnew⟩
      have hfirst : s.run settings name =
          ({ s with
              patch := s.patch.skip 1
              phase := .skipping hunk (seen.count b.role) } : Splice).run
                settings name := by
        rw [← run_step]
        simp only [step, hphase, stepSkipping,
          LineStream.next?_eq_skip hpatch, hline, Nat.not_lt.2 hroom.1,
          Nat.not_lt.2 hroom.2, decide_false, Bool.or_false,
          Bool.false_eq_true, if_false]
      rw [hfirst, ih rfl (by simp [hpatch]) hread hold hnew, Tally.plus_cons]
      simp only [LineStream.skip_skip, List.length_cons, Nat.add_comm 1]

/-- With every line of a failed hunk accounted for the next line goes back,
whatever it is. -/
theorem run_skipping_end {hunk : Hunk} {seen : Tally} {body : List BodyLine}
    {texts rest : List Line} (hphase : s.phase = .skipping hunk seen)
    (hpatch : s.patch.ready = texts ++ rest)
    (hread : texts.map (BodyLine.ofLine? settings.reverse) = body.map some)
    (hseen : seen.plus body =
      { source := hunk.old.count, result := hunk.new.count }) :
    ∃ p : LineStream, p.ready = restoreFirst rest ∧
      s.run settings name =
        (({ s with patch := p } : Splice).fail).run settings name := by
  rw [run_skipping settings name hphase hpatch hread (by simp [hseen])
    (by simp [hseen]), hseen, ← run_step]
  have hlength : body.length = texts.length := by
    simpa using (congrArg List.length hread).symm
  have hskipped : (s.patch.skip body.length).ready = rest := by
    rw [LineStream.ready_skip, hpatch, hlength, List.drop_left]
  cases rest with
  | nil =>
      refine ⟨_, hskipped, ?_⟩
      simp only [step, stepSkipping, LineStream.next?_eq_none_iff.2 hskipped,
        fail, say]
  | cons line rest =>
      obtain ⟨p, hp, hready⟩ :=
        LineStream.unread?_skip_one hskipped (BodyLine.restoreBlank line)
      refine ⟨p, hready, ?_⟩
      simp only [step, stepSkipping, LineStream.next?_eq_skip hskipped]
      cases hread : BodyLine.ofLine? settings.reverse line with
      | none =>
          rw [BodyLine.restoreBlank_of_ofLine? hread] at hp
          simp only [failAt, hp, fail, say]
      | some b =>
          rw [← BodyLine.text_of_ofLine? hread] at hp
          -- A line more is one too many on the side it belongs to.
          have hover : 0 < b.role.inSource.toNat ∨
              0 < b.role.inResult.toNat := by
            cases b.role <;> simp
          simp [Tally.count, hover, failAt, hp, fail, say]

/-- A whole body with a missed line in it: what stands before that line is
written, the source is left behind it, and the patch behind the body. -/
theorem run_body_failing {hunk : Hunk} {ends : Tally}
    {front more : List BodyLine} {b : BodyLine} {texts rest : List Line}
    (hskip : settings.skipApplied = false)
    (hphase : s.phase = .body hunk ends {})
    (hpatch : s.patch.ready = texts ++ rest)
    (hread : texts.map (BodyLine.ofLine? settings.reverse) =
      (front ++ b :: more).map some)
    (hfound : sourceSide front <+: s.source.ready) (hrole : b.role ≠ .insertion)
    (hmiss : (s.source.ready.drop (sourceSide front).length).head? ≠
      some b.content)
    (hold : (sourceSide (front ++ b :: more)).length = hunk.old.count)
    (hnew : (resultSide (front ++ b :: more)).length = hunk.new.count)
    (hsource : s.cursor + hunk.old.count = ends.source)
    (hresult : s.emitted + hunk.new.count = ends.result) :
    ∃ p : LineStream, p.ready = restoreFirst rest ∧
      s.run settings name =
        (({ s with
            patch := p
            source := s.source.skip ((sourceSide front).length + 1)
            written := s.written ++ resultSide front
            cursor := s.cursor + (sourceSide front).length +
              min 1 (s.source.ready.length - (sourceSide front).length)
            emitted := s.emitted + (resultSide front).length } :
              Splice).fail).run
          settings name := by
  -- The texts of the body fall apart where its script does.
  rw [List.map_append] at hread
  obtain ⟨ahead, others, rfl, hahead, hothers⟩ := List.map_eq_append_iff.1 hread
  obtain ⟨line, behind, rfl, hline, hbehind⟩ := List.map_eq_cons_iff.1 hothers
  have hlength : ahead.length = front.length := by
    simpa using congrArg List.length hahead
  have hleft : (sourceSide front).length + 1 ≤ hunk.old.count := by
    rw [← hold, sourceSide_append, sourceSide_cons,
      if_pos (Role.inSource_eq_true_iff.2 hrole), List.length_append,
      List.length_cons]
    omega
  have hroom : (resultSide front).length ≤ hunk.new.count := by
    rw [← hnew, resultSide_append, List.length_append]
    omega
  have hseen : ((({} : Tally).plus front).plus [b]).plus more =
      { source := hunk.old.count, result := hunk.new.count } := by
    rw [Tally.plus_plus, Tally.plus_plus, List.singleton_append, Tally.plus,
      hold, hnew, Nat.zero_add, Nat.zero_add]
  have hbody := run_body settings name hphase
    (by rw [hpatch, List.append_assoc]) hahead hfound
    (by omega) (by omega)
  have hpast : (s.past hunk ends {} front).patch.ready =
      line :: (behind ++ rest) := by
    simp [past, hpatch, ← hlength]
  have hmissed := run_body_missed settings name hskip rfl hpast hline hrole
    (by simp only [past]; omega) (by simpa [past] using hmiss)
  rw [hbody, hmissed]
  refine (run_skipping_end settings name rfl ?_ hbehind hseen).imp fun p h =>
    ⟨h.1, h.2.trans ?_⟩
  · simp [hpast]
  · simp [past, fail, say, LineStream.skip_skip]

end Splice

end UnifiedPatch
