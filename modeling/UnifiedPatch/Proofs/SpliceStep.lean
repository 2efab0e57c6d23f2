import UnifiedPatch.Proofs.SpliceBody

/-!
# What one step of the machine can do

An invariant of the machine is a statement about its steps, and every one of
them has the same cases: what the next line of the patch is, what the next line
of the source is, and which of the two bounds has been reached. The cases are
gone through once, and `Move` is their list. It says of each kind of step when
it is taken and what machine it leaves, so an invariant is shown by one short
case for each kind.

The list is shorter than the program, because two things never happen. A line is
only handed back right after it was read, so there is always room for it; and
what is handed back is the line with its blank, so it makes no difference to the
lines left whether the line was of a body or not (`restoreFirst`).

A run is its steps up to the first machine that has none
(`exists_steps_eq_run`), and what holds after each number of steps holds at
every point of the run.
-/

namespace UnifiedPatch

namespace Splice

variable (settings : Settings) (name : Bytes)

/-! ## The kinds of steps -/

/-- The machines that one step can lead to. -/
inductive Move (s : Splice) : Splice → Prop where
  /-- no header is left -/
  | noHeader {p : LineStream} (phase : s.phase = .header)
      (back : p.ready = s.patch.ready)
      (line : ∀ line ∈ s.patch.ready.head?, Hunk.readHeader line = .ok none) :
      Move s { s with patch := p, phase := .trailing }
  /-- a header cannot be read -/
  | overlong {line : Line} {rest : List Line} {run : Hunk.OverlongRun}
      (phase : s.phase = .header) (ready : s.patch.ready = line :: rest)
      (read : Hunk.readHeader line = .error run) :
      Move s
        { s with
          patch := s.patch.skip 1
          phase := .stopped (.overlong run) }
  /-- a header was read -/
  | header {line : Line} {rest : List Line} {hunk : Hunk}
      (phase : s.phase = .header) (ready : s.patch.ready = line :: rest)
      (read : Hunk.readHeader line = .ok (some hunk)) :
      Move s
        { s with
          patch := s.patch.skip 1
          hunks := s.hunks + 1
          phase := .leading (if settings.reverse then hunk.swap else hunk) }
  /-- nothing is copied for a file that is created or deleted whole -/
  | whole {hunk : Hunk} (phase : s.phase = .leading hunk)
      (whole : hunk.wholeFile = true) :
      Move s (s.enterBody hunk)
  /-- the lines before the hunk are used up -/
  | behind {hunk : Hunk} (phase : s.phase = .leading hunk)
      (whole : hunk.wholeFile = false) (before : hunk.old.start < s.cursor) :
      Move s (s.stop
        (.fatal
          (.invalidPatch (.hunkBehind s.hunks hunk.old.start s.cursor) none)))
  /-- the lines before the hunk are copied -/
  | copied {hunk : Hunk} {count : Nat} (phase : s.phase = .leading hunk)
      (whole : hunk.wholeFile = false)
      (start : s.cursor + count = hunk.old.start)
      (there : count ≤ s.source.ready.length) :
      Move s
        ({ s with
            source := s.source.skip count
            written := s.written ++ s.source.ready.take count
            cursor := s.cursor + count
            emitted := s.emitted + count
            flush := true }.enterBody hunk)
  /-- the source ends before the hunk -/
  | short {hunk : Hunk} {count : Nat} (phase : s.phase = .leading hunk)
      (whole : hunk.wholeFile = false)
      (start : s.cursor + count = hunk.old.start)
      (missing : s.source.ready.length < count) :
      Move s
        (({ s with
            source := s.source.skip count
            written := s.written ++ s.source.ready }.say
          (.remark (.sourceExhausted (count - s.source.ready.length)))).stop
            (.fatal (.badSource name (count - s.source.ready.length))))
  /-- the next line is not of the body -/
  | bodyLeft {hunk : Hunk} {ends seen : Tally} {p : LineStream}
      (phase : s.phase = .body hunk ends seen)
      (back : p.ready = restoreFirst s.patch.ready)
      (line : ∀ line ∈ s.patch.ready.head?, ∀ b,
        BodyLine.ofLine? settings.reverse line = some b →
          if b.role = .insertion then s.emitted = ends.result
          else s.cursor = ends.source) :
      Move s { s with patch := p, phase := .header }
  /-- an insertion is written -/
  | inserted {hunk : Hunk} {ends seen : Tally} {line : Line} {rest : List Line}
      {b : BodyLine} (phase : s.phase = .body hunk ends seen)
      (ready : s.patch.ready = line :: rest)
      (read : BodyLine.ofLine? settings.reverse line = some b)
      (role : b.role = .insertion) (room : s.emitted ≠ ends.result) :
      Move s
        { s with
          patch := s.patch.skip 1
          written := s.written.push b.content
          emitted := s.emitted + 1
          phase := .body hunk ends (seen.count b.role) }
  /-- a deletion is found -/
  | deleted {hunk : Hunk} {ends seen : Tally} {line : Line}
      {rest more : List Line} {b : BodyLine}
      (phase : s.phase = .body hunk ends seen)
      (ready : s.patch.ready = line :: rest)
      (read : BodyLine.ofLine? settings.reverse line = some b)
      (role : b.role = .deletion) (room : s.cursor ≠ ends.source)
      (found : s.source.ready = b.content :: more) :
      Move s
        { s with
          patch := s.patch.skip 1
          source := s.source.skip 1
          cursor := s.cursor + 1
          phase := .body hunk ends (seen.count b.role) }
  /-- a context line is found and written -/
  | kept {hunk : Hunk} {ends seen : Tally} {line : Line} {rest more : List Line}
      {b : BodyLine} (phase : s.phase = .body hunk ends seen)
      (ready : s.patch.ready = line :: rest)
      (read : BodyLine.ofLine? settings.reverse line = some b)
      (role : b.role = .context) (room : s.cursor ≠ ends.source)
      (found : s.source.ready = b.content :: more)
      (room' : s.emitted ≠ ends.result) :
      Move s
        { s with
          patch := s.patch.skip 1
          source := s.source.skip 1
          written := s.written.push b.content
          cursor := s.cursor + 1
          emitted := s.emitted + 1
          phase := .body hunk ends (seen.count b.role) }
  /-- a context line is found when the new range is complete -/
  | contextLeft {hunk : Hunk} {ends seen : Tally} {line : Line}
      {rest more : List Line} {b : BodyLine} {p : LineStream}
      (phase : s.phase = .body hunk ends seen)
      (ready : s.patch.ready = line :: rest)
      (read : BodyLine.ofLine? settings.reverse line = some b)
      (role : b.role = .context) (room : s.cursor ≠ ends.source)
      (found : s.source.ready = b.content :: more)
      (full : s.emitted = ends.result)
      (back : p.ready = restoreFirst s.patch.ready) :
      Move s
        { s with
          patch := p
          source := s.source.skip 1
          cursor := s.cursor + 1
          phase := .header }
  /-- a line that is not found counts as applied already -/
  | passed {hunk : Hunk} {ends seen : Tally} {line : Line} {rest : List Line}
      {b : BodyLine} (phase : s.phase = .body hunk ends seen)
      (ready : s.patch.ready = line :: rest)
      (read : BodyLine.ofLine? settings.reverse line = some b)
      (role : b.role ≠ .insertion) (room : s.cursor ≠ ends.source)
      (missed : s.source.ready.head? ≠ some b.content)
      (skip : settings.skipApplied = true) :
      Move s
        ({ s with
            patch := s.patch.skip 1
            source := s.source.skip 1
            cursor := s.cursor + min 1 s.source.ready.length
            phase := .body hunk ends (seen.count b.role) }.say
          (.remark (.lineSkipped name s.hunks)))
  /-- a line is not found -/
  | missed {hunk : Hunk} {ends seen : Tally} {line : Line} {rest : List Line}
      {b : BodyLine} (phase : s.phase = .body hunk ends seen)
      (ready : s.patch.ready = line :: rest)
      (read : BodyLine.ofLine? settings.reverse line = some b)
      (role : b.role ≠ .insertion) (room : s.cursor ≠ ends.source)
      (missed : s.source.ready.head? ≠ some b.content)
      (skip : settings.skipApplied = false) :
      Move s
        { s with
          patch := s.patch.skip 1
          source := s.source.skip 1
          cursor := s.cursor + min 1 s.source.ready.length
          phase := .skipping hunk (seen.count b.role) }
  /-- the next line is not of the failed hunk -/
  | skippingLeft {hunk : Hunk} {seen : Tally} {p : LineStream}
      (phase : s.phase = .skipping hunk seen)
      (back : p.ready = restoreFirst s.patch.ready)
      (line : ∀ line ∈ s.patch.ready.head?, ∀ b,
        BodyLine.ofLine? settings.reverse line = some b →
          hunk.old.count < (seen.count b.role).source ∨
            hunk.new.count < (seen.count b.role).result) :
      Move s { s with patch := p }.fail
  /-- a line of the failed hunk is passed over -/
  | skipped {hunk : Hunk} {seen : Tally} {line : Line} {rest : List Line}
      {b : BodyLine} (phase : s.phase = .skipping hunk seen)
      (ready : s.patch.ready = line :: rest)
      (read : BodyLine.ofLine? settings.reverse line = some b)
      (room : (seen.count b.role).source ≤ hunk.old.count)
      (room' : (seen.count b.role).result ≤ hunk.new.count) :
      Move s
        { s with
          patch := s.patch.skip 1
          phase := .skipping hunk (seen.count b.role) }
  /-- the rest of the source is copied -/
  | flushed (phase : s.phase = .trailing) (flush : s.flush = true) :
      Move s
        ({ s with
            source := s.source.skip s.source.ready.length
            written := s.written ++ s.source.ready
            trailing :=
              (s.source.skip s.source.ready.length).taken - s.source.taken
            phase := .done }.say
          (.remark (.hunksDone name s.hunks s.failed
            (s.emitted + ((s.source.skip s.source.ready.length).taken -
              s.source.taken)))))
  /-- the rest of the source is not asked for -/
  | dropped (phase : s.phase = .trailing) (flush : s.flush = false) :
      Move s ({ s with phase := .done }.say
        (.remark (.hunksDone name s.hunks s.failed s.produced)))

variable {settings name} {s : Splice}

/-! ## Every step is one of them -/

theorem move_handBack {line : Line} {rest : List Line} {phase : Phase}
    {t : Splice} (ready : t.patch.ready = line :: rest) (back : Line)
    (h : ∀ p : LineStream, p.ready = back :: rest →
      Move settings name s { t with patch := p, phase := phase }) :
    Move settings name s (t.handBack (t.patch.skip 1) back phase) := by
  obtain ⟨p, hp, hback⟩ := LineStream.unread?_skip_one ready back
  unfold handBack
  rw [hp]
  exact h p hback

theorem restoreFirst_of_text {line : Line} {rest : List Line} {b : BodyLine}
    (h : BodyLine.ofLine? settings.reverse line = some b) :
    restoreFirst (line :: rest) = b.text :: rest := by
  rw [restoreFirst, BodyLine.text_of_ofLine? h]

theorem restoreFirst_of_other {line : Line} {rest : List Line}
    (h : BodyLine.ofLine? settings.reverse line = none) :
    restoreFirst (line :: rest) = line :: rest := by
  rw [restoreFirst, BodyLine.restoreBlank_of_ofLine? h]

theorem move_stepHeader (phase : s.phase = .header) :
    Move settings name s (s.stepHeader settings) := by
  unfold stepHeader
  cases ready : s.patch.ready with
  | nil =>
      rw [LineStream.next?_eq_none_iff.2 ready]
      exact .noHeader phase rfl (by simp [ready])
  | cons line rest =>
      rw [LineStream.next?_eq_skip ready]
      simp only []
      split
      · next read => exact .overlong phase ready read
      · next read =>
          refine move_handBack ready line fun p hp => ?_
          exact .noHeader phase (hp.trans ready.symm)
            (by simpa [ready] using read)
      · next read => exact .header phase ready read

theorem move_stepLeading {hunk : Hunk} (phase : s.phase = .leading hunk) :
    Move settings name s (s.stepLeading name hunk) := by
  unfold stepLeading
  split
  · next whole => exact .whole phase whole
  · next whole =>
      rw [Bool.not_eq_true] at whole
      split
      · next before => exact .behind phase whole before
      · next before =>
          obtain ⟨count, hcount⟩ :=
            Nat.exists_eq_add_of_le (Nat.le_of_not_lt before)
          have hsub : hunk.old.start - s.cursor = count := by omega
          simp only [LineStream.copy, hsub, Int.toNat_natCast,
            LineStream.takeLines_eq_take_skip]
          by_cases there : count ≤ s.source.ready.length
          · rw [if_pos (by rw [List.length_take]; omega)]
            exact .copied phase whole hcount.symm there
          · rw [if_neg (by rw [List.length_take]; omega),
              List.take_of_length_le (Nat.le_of_not_le there)]
            exact .short phase whole hcount.symm (Nat.lt_of_not_le there)

/-- A body line that the new range may have no room for. -/
theorem move_emit {line : Line} {rest : List Line} {b : BodyLine} {ends : Tally}
    {t : Splice} (ready : t.patch.ready = line :: rest)
    (hwrite : t.emitted ≠ ends.result → Move settings name s
      { t with
        patch := t.patch.skip 1
        written := t.written.push b.content
        emitted := t.emitted + 1 })
    (hback : t.emitted = ends.result →
      ∀ p : LineStream, p.ready = b.text :: rest →
      Move settings name s { t with patch := p, phase := .header }) :
    Move settings name s (t.emit (t.patch.skip 1) b ends) := by
  unfold emit
  split
  · next full => exact move_handBack ready b.text (hback full)
  · next room => exact hwrite room

theorem move_stepBody {hunk : Hunk} {ends seen : Tally}
    (phase : s.phase = .body hunk ends seen) :
    Move settings name s (s.stepBody settings name hunk ends seen) := by
  unfold stepBody
  cases ready : s.patch.ready with
  | nil =>
      rw [LineStream.next?_eq_none_iff.2 ready]
      exact .bodyLeft phase (by rw [ready]; rfl) (by simp [ready])
  | cons line rest =>
      rw [LineStream.next?_eq_skip ready]
      simp only []
      split
      · next read =>
          refine move_handBack ready line fun p hp => ?_
          refine .bodyLeft phase ?_ (by simp [ready, read])
          rw [hp, ready, restoreFirst_of_other read]
      · next b read =>
          have hback : restoreFirst (line :: rest) = b.text :: rest :=
            restoreFirst_of_text read
          split
          · next role =>
              refine move_emit
                (t := { s with phase := .body hunk ends (seen.count b.role) })
                ready (fun room => .inserted phase ready read role room)
                fun full p hp => ?_
              refine .bodyLeft phase (by rw [hp, ready, hback]) ?_
              simpa [ready, read, role] using full
          · next role =>
              split
              · next full =>
                  refine move_handBack ready b.text fun p hp => ?_
                  refine .bodyLeft phase (by rw [hp, ready, hback]) ?_
                  simp [ready, read, role, full]
              · next room =>
                  cases source : s.source.ready with
                  | nil =>
                      have hskip : s.source = s.source.skip 1 :=
                        (LineStream.skip_of_ready_nil source 1).symm
                      rw [LineStream.next?_eq_none_iff.2 source]
                      simp only [Option.map_none]
                      rw [if_neg (by simp)]
                      split
                      · next skip =>
                          have hmove : Move settings name s _ :=
                            .passed phase ready read role room
                              (by simp [source]) skip
                          rw [← hskip, source] at hmove
                          exact hmove
                      · next skip =>
                          have hmove : Move settings name s _ :=
                            .missed phase ready read role room
                              (by simp [source]) (by simpa using skip)
                          rw [← hskip, source] at hmove
                          exact hmove
                  | cons found more =>
                      rw [LineStream.next?_eq_skip source]
                      simp only [Option.map_some, Option.some.injEq]
                      split
                      · next heq =>
                          subst heq
                          split
                          · next role' =>
                              exact .deleted phase ready read role' room source
                          · next role' =>
                              have hcontext : b.role = .context := by
                                cases hrole : b.role <;> simp_all
                              refine move_emit (t := { s with
                                source := s.source.skip 1
                                cursor := s.cursor + 1
                                phase := .body hunk ends (seen.count b.role) })
                                ready
                                (fun room' => .kept phase ready read hcontext
                                  room source room')
                                fun full p hp => ?_
                              exact .contextLeft phase ready read hcontext room
                                source full (by rw [hp, ready, hback])
                      · next hne =>
                          split
                          · next skip =>
                              have hmove : Move settings name s _ :=
                                .passed phase ready read role room
                                  (by simpa [source] using hne) skip
                              rw [source] at hmove
                              exact hmove
                          · next skip =>
                              have hmove : Move settings name s _ :=
                                .missed phase ready read role room
                                  (by simpa [source] using hne)
                                  (by simpa using skip)
                              rw [source] at hmove
                              exact hmove

theorem move_stepSkipping {hunk : Hunk} {seen : Tally}
    (phase : s.phase = .skipping hunk seen) :
    Move settings name s (s.stepSkipping settings hunk seen) := by
  unfold stepSkipping
  cases ready : s.patch.ready with
  | nil =>
      rw [LineStream.next?_eq_none_iff.2 ready]
      exact .skippingLeft phase (by rw [ready]; rfl) (by simp [ready])
  | cons line rest =>
      have hfail : ∀ back, restoreFirst (line :: rest) = back :: rest →
          (∀ b, BodyLine.ofLine? settings.reverse line = some b →
            hunk.old.count < (seen.count b.role).source ∨
              hunk.new.count < (seen.count b.role).result) →
          Move settings name s (s.failAt (s.patch.skip 1) back) := by
        intro back hback hline
        obtain ⟨p, hp, hready⟩ := LineStream.unread?_skip_one ready back
        unfold failAt
        rw [hp]
        exact .skippingLeft phase (by rw [hready, ready, hback])
          (by simpa [ready] using hline)
      rw [LineStream.next?_eq_skip ready]
      simp only []
      split
      · next read =>
          exact hfail line (restoreFirst_of_other read) (by simp [read])
      · next b read =>
          split
          · next beyond =>
              refine hfail b.text (restoreFirst_of_text read) fun b' hb' => ?_
              obtain rfl := Option.some.inj (read.symm.trans hb')
              simpa using beyond
          · next room =>
              simp only [Bool.or_eq_true, decide_eq_true_eq, not_or,
                Nat.not_lt] at room
              exact .skipped phase ready read room.1 room.2

theorem move_stepTrailing (phase : s.phase = .trailing) :
    Move settings name s (s.stepTrailing name) := by
  unfold stepTrailing
  split
  · next flush =>
      have hmove : Move settings name s _ := .flushed phase flush
      simp only [LineStream.copy, LineStream.drain,
        LineStream.takeLines_eq_take_skip, List.take_length]
      exact hmove
  · next flush => exact .dropped phase (by simpa using flush)

theorem move_step (settings : Settings) (name : Bytes)
    (h : s.phase.isLive = true) :
    Move settings name s (s.step settings name) := by
  unfold step
  split
  · next phase => exact move_stepHeader phase
  · next phase => exact move_stepLeading phase
  · next phase => exact move_stepBody phase
  · next phase => exact move_stepSkipping phase
  · next phase => exact move_stepTrailing phase
  · next phase => simp [phase, Phase.isLive] at h
  · next phase => simp [phase, Phase.isLive] at h

/-- A machine at its end stays where it is. -/
theorem step_eq_or_move (settings : Settings) (name : Bytes) (s : Splice) :
    s.step settings name = s ∨ Move settings name s (s.step settings name) := by
  cases hlive : s.phase.isLive with
  | false => exact .inl (step_of_not_isLive settings name hlive)
  | true => exact .inr (move_step settings name hlive)

/-! ## A run step by step -/

variable (settings name)

/-- The machine after a number of steps. -/
def steps : Nat → Splice → Splice
  | 0, s => s
  | n + 1, s => (steps n s).step settings name

@[simp] theorem steps_zero (s : Splice) : s.steps settings name 0 = s := rfl

theorem steps_succ (n : Nat) (s : Splice) :
    s.steps settings name (n + 1) =
      (s.steps settings name n).step settings name := rfl

theorem steps_add (m n : Nat) (s : Splice) :
    s.steps settings name (m + n) =
      (s.steps settings name m).steps settings name n := by
  induction n with
  | zero => rfl
  | succ n ih => rw [← Nat.add_assoc, steps_succ, steps_succ, ih]

theorem run_steps (n : Nat) (s : Splice) :
    (s.steps settings name n).run settings name = s.run settings name := by
  induction n with
  | zero => rfl
  | succ n ih => rw [steps_succ, run_step, ih]

/-- A run ends after some number of steps. -/
theorem exists_steps_eq_run (s : Splice) :
    ∃ n, s.run settings name = s.steps settings name n := by
  fun_induction run settings name s with
  | case1 s hlive ih =>
      obtain ⟨n, hn⟩ := ih
      refine ⟨1 + n, ?_⟩
      rw [hn, steps_add]
      rfl
  | case2 s hlive => exact ⟨0, rfl⟩

end Splice

end UnifiedPatch
