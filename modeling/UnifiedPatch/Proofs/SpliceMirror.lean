import Mathlib.Data.List.Forall2
import UnifiedPatch.Proofs.PatchAppend

/-!
# Backwards is forwards on the mirrored patch

A patch can be turned round on paper: the two ranges of each header change
places, and so do `-` and `+` in front of every other line. Running the one
backwards is running the other forwards. That holds of any two such patches,
hunks that are cut short, lines that belong to nothing and headers out of order
included, because it holds of every step.

The direction is asked for in two places. A header is turned round when it is
read, and from there on both machines work on the same hunk; a body line is
read by the markers of the direction, and a line and its mirror image then say
the same. Only the text of a line differs, and of that the machines see
nothing until it goes back: what goes back is the mirror image of what goes
back in the other.
-/

namespace UnifiedPatch

namespace Line

/-- The line with `-` in front for `+`, and the other way round. -/
def exchange : Line → Line
  | [] => []
  | b :: rest => (if b = 45 then 43 else if b = 43 then 45 else b) :: rest

/-- Lines of two patches that say the same when the one is read backwards and
the other forwards: headers with the two ranges exchanged, or lines that are
none with the two signs exchanged. -/
def Mirrors (line line' : Line) : Prop :=
  (∃ hunk, Hunk.readHeader line = .ok (some hunk) ∧
      Hunk.readHeader line' = .ok (some hunk.swap)) ∨
    Hunk.isHeader line = false ∧ Hunk.isHeader line' = false ∧
    line' = line.exchange

theorem exchange_exchange (line : Line) : line.exchange.exchange = line := by
  cases line with
  | nil => rfl
  | cons b rest =>
      unfold exchange
      by_cases h : b = 45
      · subst h; rfl
      · by_cases h' : b = 43
        · subst h'; rfl
        · simp [h, h']

end Line

theorem Hunk.readHeader_of_isHeader {line : Line} (h : isHeader line = false) :
    readHeader line = .ok none := by
  unfold isHeader at h
  unfold readHeader
  cases hruns : runs? line with
  | none => rfl
  | some runs =>
      rw [hruns] at h
      exact absurd h (by simp)

namespace BodyLine

/-- What a line says is said by its mirror image in the other direction. -/
def mirror (b : BodyLine) : BodyLine := { b with text := b.text.exchange }

theorem ofMarker?_exchange (marker : UInt8) :
    Role.ofMarker? false
      (if marker = 45 then 43 else if marker = 43 then 45 else marker) =
      Role.ofMarker? true marker := by
  by_cases h : marker = 45
  · subst h; rfl
  · by_cases h' : marker = 43
    · subst h'; rfl
    · unfold Role.ofMarker? Role.deletionMarker Role.insertionMarker
      simp [h, h']

theorem restoreBlank_exchange (line : Line) :
    restoreBlank line.exchange = (restoreBlank line).exchange := by
  by_cases hblank : line = [10] ∨ line = [13, 10]
  · rcases hblank with rfl | rfl <;> rfl
  · have hother : ¬ (line.exchange = [10] ∨ line.exchange = [13, 10]) := by
      rintro (h | h)
      · exact hblank (.inl (by rw [← line.exchange_exchange, h]; rfl))
      · exact hblank (.inr (by rw [← line.exchange_exchange, h]; rfl))
    rw [restoreBlank, restoreBlank, if_neg hblank, if_neg hother]

theorem ofLine?_exchange (line : Line) :
    ofLine? false line.exchange = (ofLine? true line).map mirror := by
  unfold ofLine?
  rw [restoreBlank_exchange]
  cases restoreBlank line with
  | nil => rfl
  | cons marker content =>
      simp only [Line.exchange, ofMarker?_exchange, Option.map_map]
      rfl

/-- A line of a body is no header, and neither is what goes back for it. -/
theorem isHeader_text {reverse : Bool} {line : Line} {b : BodyLine}
    (h : ofLine? reverse line = some b) : Hunk.isHeader b.text = false := by
  cases hruns : Hunk.runs? b.text with
  | none => rw [Hunk.isHeader, hruns]; rfl
  | some runs =>
      obtain ⟨rest, hrest⟩ := Hunk.eq_cons_of_runs? hruns
      unfold ofLine? at h
      split at h
      · exact absurd h (by simp)
      · next marker content hline =>
          obtain ⟨role, hrole, rfl⟩ := Option.map_eq_some_iff.1 h
          obtain rfl : marker = 64 := (List.cons.inj hrest).1
          have hnone : Role.ofMarker? reverse 64 = none := by
            cases reverse <;> rfl
          exact absurd (hnone.symm.trans hrole) (by simp)

theorem text_mirrors {reverse : Bool} {line : Line} {b : BodyLine}
    (h : ofLine? true line = some b)
    (h' : ofLine? reverse line.exchange = some b.mirror) :
    b.text.Mirrors b.mirror.text :=
  .inr ⟨isHeader_text h, isHeader_text h', rfl⟩

end BodyLine

namespace Line.Mirrors

variable {line line' : Line}

/-- A line and its image are no body lines, or they say the same. -/
theorem ofLine?_cases (h : line.Mirrors line') :
    (BodyLine.ofLine? true line = none ∧ BodyLine.ofLine? false line' = none) ∨
      ∃ b : BodyLine, BodyLine.ofLine? true line = some b ∧
        BodyLine.ofLine? false line' = some b.mirror ∧
        b.text.Mirrors b.mirror.text := by
  rcases h with ⟨hunk, hread, hread'⟩ | ⟨-, -, rfl⟩
  · obtain ⟨r, hruns, -⟩ := Hunk.runs_of_readHeader hread
    obtain ⟨r', hruns', -⟩ := Hunk.runs_of_readHeader hread'
    exact .inl ⟨Hunk.ofLine?_of_runs? hruns true,
      Hunk.ofLine?_of_runs? hruns' false⟩
  · have himage := BodyLine.ofLine?_exchange line
    cases hline : BodyLine.ofLine? true line with
    | none => exact .inl ⟨rfl, by rw [himage, hline]; rfl⟩
    | some b =>
        rw [hline] at himage
        exact .inr ⟨b, rfl, himage, BodyLine.text_mirrors hline himage⟩

theorem readHeader_cases (h : line.Mirrors line') :
    (Hunk.readHeader line = .ok none ∧ Hunk.readHeader line' = .ok none) ∨
      ∃ hunk, Hunk.readHeader line = .ok (some hunk) ∧
        Hunk.readHeader line' = .ok (some hunk.swap) := by
  rcases h with hheader | ⟨hnone, hnone', -⟩
  · exact .inr hheader
  · exact .inl ⟨Hunk.readHeader_of_isHeader hnone,
      Hunk.readHeader_of_isHeader hnone'⟩

end Line.Mirrors

/-- Patches read equally far, of which the lines left mirror each other. -/
structure LineStream.Mirrors (s s' : LineStream) : Prop where
  ready : List.Forall₂ Line.Mirrors s.ready s'.ready
  held : s'.held = s.held
  taken : s'.taken = s.taken

namespace LineStream.Mirrors

variable {s s' : LineStream}

theorem next?_cases (h : s.Mirrors s') :
    (s.next? = none ∧ s'.next? = none) ∨
      ∃ line line' rest rest', s.next? = some (line, rest) ∧
        s'.next? = some (line', rest') ∧
        line.Mirrors line' ∧ rest.Mirrors rest' := by
  obtain ⟨ready, held, taken⟩ := s
  obtain ⟨ready', held', taken'⟩ := s'
  obtain ⟨hready, hheld, htaken⟩ := h
  simp only [] at hready hheld htaken
  subst hheld htaken
  cases hready with
  | nil => exact .inl ⟨rfl, rfl⟩
  | cons hline hrest =>
      exact .inr ⟨_, _, _, _, rfl, rfl, hline, hrest, rfl, rfl⟩

theorem unread?_cases (h : s.Mirrors s') {line line' : Line}
    (hline : line.Mirrors line') :
    (s.unread? line = none ∧ s'.unread? line' = none) ∨
      ∃ p p', s.unread? line = some p ∧ s'.unread? line' = some p' ∧
        p.Mirrors p' := by
  unfold unread?
  rw [h.held]
  cases s.held with
  | true => exact .inl ⟨rfl, rfl⟩
  | false => exact .inr ⟨_, _, rfl, rfl, .cons hline h.ready, rfl, h.taken⟩

end LineStream.Mirrors

namespace Splice

/-- Machines that agree in everything but the patch, of which the one has left
the mirror image of what the other has. -/
def Mirrors (s t : Splice) : Prop :=
  ∃ p : LineStream, s.patch.Mirrors p ∧ t = { s with patch := p }

variable (settings : Settings) (name : Bytes) {s t : Splice} {p q : LineStream}

theorem mirrors_intro (s : Splice) (h : p.Mirrors q) :
    Mirrors { s with patch := p } { s with patch := q } := ⟨q, h, rfl⟩

/-! ## One step -/

theorem handBack_mirrors (s : Splice) (h : p.Mirrors q) {line line' : Line}
    (hline : line.Mirrors line') (phase : Phase) (r : LineStream) :
    Mirrors (s.handBack p line phase)
      ({ s with patch := r }.handBack q line' phase) := by
  unfold handBack
  rcases h.unread?_cases hline with ⟨hp, hq⟩ | ⟨p', q', hp, hq, hback⟩
  · rw [hp, hq]
    exact ⟨q, h, rfl⟩
  · rw [hp, hq]
    exact ⟨q', hback, rfl⟩

theorem failAt_mirrors (s : Splice) (h : p.Mirrors q) {line line' : Line}
    (hline : line.Mirrors line') (r : LineStream) :
    Mirrors (s.failAt p line) ({ s with patch := r }.failAt q line') := by
  unfold failAt
  rcases h.unread?_cases hline with ⟨hp, hq⟩ | ⟨p', q', hp, hq, hback⟩
  · rw [hp, hq]
    exact ⟨q, h, rfl⟩
  · rw [hp, hq]
    exact ⟨q', hback, rfl⟩

theorem emit_mirrors (s : Splice) (h : p.Mirrors q) {b : BodyLine}
    (htext : b.text.Mirrors b.mirror.text) (ends : Tally) (r : LineStream) :
    Mirrors (s.emit p b ends) ({ s with patch := r }.emit q b.mirror ends) := by
  unfold emit
  simp only []
  split
  · exact handBack_mirrors s h htext .header r
  · exact ⟨q, h, rfl⟩

/-- A header is turned round in the one or the other of the two. -/
theorem stepHeader_mirrors (s : Splice) (h : s.patch.Mirrors q) :
    Mirrors (s.stepHeader { settings with reverse := true })
      ({ s with patch := q }.stepHeader { settings with
        reverse := false }) := by
  unfold stepHeader
  rcases h.next?_cases with
    ⟨hs, hq⟩ | ⟨line, line', rest, rest', hs, hq, hline, hrest⟩
  · rw [hs, hq]
    exact ⟨q, h, rfl⟩
  · rw [hs, hq]
    rcases hline.readHeader_cases with ⟨hread, hread'⟩ | ⟨hunk, hread, hread'⟩
    · simp only [hread, hread']
      exact handBack_mirrors s hrest hline .trailing q
    · simp only [hread, hread']
      exact ⟨rest', hrest, rfl⟩

theorem stepSkipping_mirrors (hunk : Hunk) (seen : Tally) (s : Splice)
    (h : s.patch.Mirrors q) :
    Mirrors (s.stepSkipping { settings with reverse := true } hunk seen)
      ({ s with patch := q }.stepSkipping { settings with reverse := false }
        hunk seen) := by
  unfold stepSkipping
  rcases h.next?_cases with
    ⟨hs, hq⟩ | ⟨line, line', rest, rest', hs, hq, hline, hrest⟩
  · rw [hs, hq]
    exact ⟨q, h, rfl⟩
  · rw [hs, hq]
    rcases hline.ofLine?_cases with ⟨hread, hread'⟩ | ⟨b, hread, hread', htext⟩
    · simp only [hread, hread']
      exact failAt_mirrors s hrest hline q
    · simp only [hread, hread', show b.mirror.role = b.role from rfl]
      split
      · exact failAt_mirrors s hrest htext q
      · exact ⟨rest', hrest, rfl⟩

/-- A body line and its image are the same to the source and to the result. -/
theorem stepBody_mirrors (hunk : Hunk) (ends seen : Tally) (s : Splice)
    (h : s.patch.Mirrors q) :
    Mirrors (s.stepBody { settings with reverse := true } name hunk ends seen)
      ({ s with patch := q }.stepBody { settings with reverse := false } name
        hunk ends seen) := by
  unfold stepBody
  rcases h.next?_cases with
    ⟨hs, hq⟩ | ⟨line, line', rest, rest', hs, hq, hline, hrest⟩
  · rw [hs, hq]
    exact ⟨q, h, rfl⟩
  · rw [hs, hq]
    rcases hline.ofLine?_cases with ⟨hread, hread'⟩ | ⟨b, hread, hread', htext⟩
    · simp only [hread, hread']
      exact handBack_mirrors s hrest hline .header q
    · simp only [hread, hread', show b.mirror.role = b.role from rfl,
        show b.mirror.content = b.content from rfl]
      split
      · exact emit_mirrors _ hrest htext ends q
      · split
        · exact handBack_mirrors s hrest htext .header q
        · cases s.source.next? with
          | none =>
              simp only [Option.map_none]
              split
              · split
                · exact ⟨rest', hrest, rfl⟩
                · exact emit_mirrors _ hrest htext ends q
              · split
                · exact ⟨rest', hrest, rfl⟩
                · exact ⟨rest', hrest, rfl⟩
          | some found =>
              simp only [Option.map_some]
              split
              · split
                · exact ⟨rest', hrest, rfl⟩
                · exact emit_mirrors _ hrest htext ends q
              · split
                · exact ⟨rest', hrest, rfl⟩
                · exact ⟨rest', hrest, rfl⟩

theorem patch_stepLeading (hunk : Hunk) (s : Splice) :
    (s.stepLeading name hunk).patch = s.patch := by
  unfold stepLeading
  split
  · rfl
  · split
    · rfl
    · simp only []
      split <;> rfl

theorem step_mirrors (h : Mirrors s t) :
    Mirrors (s.step { settings with reverse := true } name)
      (t.step { settings with reverse := false } name) := by
  obtain ⟨q, hq, rfl⟩ := h
  unfold step
  simp only []
  split
  · exact stepHeader_mirrors settings s hq
  · next hunk _ =>
      refine ⟨q, ?_, stepLeading_patch name hunk s q s.phase⟩
      rw [patch_stepLeading]
      exact hq
  · exact stepBody_mirrors settings name _ _ _ s hq
  · exact stepSkipping_mirrors settings _ _ s hq
  · unfold stepTrailing
    simp only []
    split <;> exact ⟨q, hq, rfl⟩
  · exact ⟨q, hq, rfl⟩
  · exact ⟨q, hq, rfl⟩

/-! ## The run -/

theorem run_mirrors (h : Mirrors s t) :
    Mirrors (s.run { settings with reverse := true } name)
      (t.run { settings with reverse := false } name) := by
  fun_induction run { settings with reverse := true } name s generalizing t with
  | case1 s hlive ih =>
      rw [← run_step { settings with reverse := false } name t]
      exact ih (step_mirrors settings name h)
  | case2 s hlive =>
      obtain ⟨q, hq, rfl⟩ := h
      rw [run_of_not_isLive _ name (by simpa using hlive)]
      exact ⟨q, hq, rfl⟩

/-- Backwards is forwards on the mirror image, whatever the two patches hold:
what is written and said, all counters, the end of the work and the source left
are the same, and the lines of the patches that are left mirror each other. -/
theorem run_backwards_mirrors (patch patch' source : LineStream)
    (h : patch.Mirrors patch') :
    Mirrors ((start patch source).run { settings with reverse := true } name)
      ((start patch' source).run { settings with reverse := false } name) :=
  run_mirrors settings name (mirrors_intro (start patch source) h)

/-- Two hunks and a marker line, and their mirror images. -/
def lengthened : List (Line × Line) :=
  [(Bytes.ascii "@@ -1 +1,2 @@\n", Bytes.ascii "@@ -1,2 +1,1 @@ f\n"),
    (Bytes.ascii " a\n", Bytes.ascii " a\n"),
    (Bytes.ascii "+x\n", Bytes.ascii "-x\n"),
    (Bytes.ascii "@@ -2 +3 @@\n", Bytes.ascii "@@ -3 +2 @@\n"),
    (Bytes.ascii "-b\n", Bytes.ascii "+b\n"),
    (Bytes.ascii "+c\n", Bytes.ascii "-c\n"),
    (Bytes.ascii "--- n\n", Bytes.ascii "+-- n\n")]

/-- The run backwards on the lines of the left. -/
def lengthenedBack : Splice :=
  (start { ready := lengthened.map Prod.fst }
    (.ofBytes (Bytes.ascii "a\nx\nd\n"))).run
    { directory := ⟨.working, []⟩, reverse := true } []

/-- The run forwards on the lines of the right. -/
def lengthenedForth : Splice :=
  (start { ready := lengthened.map Prod.snd }
    (.ofBytes (Bytes.ascii "a\nx\nd\n"))).run
    { directory := ⟨.working, []⟩ } []

/-- The second hunk of both fails at the third line. The marker line behind the
one is an addition behind the other. -/
theorem run_backwards_mirrors_lengthened :
    lengthenedForth.transcript.notices = [.hunkFailed 2 3] ∧
      lengthenedForth.output = lengthenedBack.output ∧
      lengthenedBack.patch.ready = [Bytes.ascii "--- n\n"] ∧
      lengthenedForth.patch.ready = [Bytes.ascii "+-- n\n"] := by
  have hmirrors : LineStream.Mirrors { ready := lengthened.map Prod.fst }
      { ready := lengthened.map Prod.snd } :=
    ⟨.cons (.inl ⟨⟨⟨1, 1⟩, ⟨1, 2⟩⟩, rfl, rfl⟩) (.cons (.inr ⟨rfl, rfl, rfl⟩)
      (.cons (.inr ⟨rfl, rfl, rfl⟩) (.cons (.inl ⟨⟨⟨2, 1⟩, ⟨3, 1⟩⟩, rfl, rfl⟩)
      (.cons (.inr ⟨rfl, rfl, rfl⟩) (.cons (.inr ⟨rfl, rfl, rfl⟩)
      (.cons (.inr ⟨rfl, rfl, rfl⟩) .nil)))))), rfl, rfl⟩
  obtain ⟨p, -, hrun⟩ : Mirrors lengthenedBack lengthenedForth :=
    run_backwards_mirrors { directory := ⟨.working, []⟩ } [] _ _ _ hmirrors
  have hsaid : lengthenedForth.transcript = lengthenedBack.transcript := by
    rw [hrun]
  refine ⟨?_, ?_, by decide +kernel, by decide +kernel⟩
  · rw [hsaid]
    decide +kernel
  · rw [hrun]
    rfl

end Splice

end UnifiedPatch
