import UnifiedPatch.Proofs.SpliceStep

/-!
# What the cursors count

The machine never looks at how much of the source is left or how much it has
written. It goes by two numbers that it keeps itself, and it compares them with
the bounds of a hunk for equality only. So two things have to hold at every
step: the numbers are the true ones (`Accounted`), and neither of them can step
over its bound (`Bounded`).

The second is a matter of one hunk. The bounds are taken where its body begins,
and from there on the machine is described relative to that beginning: inside
the body, in the lines passed over after a miss, and behind the hunk until the
next one is met, which is as long as the count of hunks stays what it was.

What is counted is only given up together with the work. When the source ends in
the lines before a hunk, the lines that were there have been written and are not
counted, so the statements are about machines that have not stopped.
-/

namespace UnifiedPatch

namespace LineStream

/-- A stream of `lines` that was read from the front, and nothing was
handed back. -/
structure ReadFrom (lines : List Line) (s : LineStream) : Prop where
  held : s.held = false
  taken : s.taken ≤ lines.length
  ready : s.ready = lines.drop s.taken

namespace ReadFrom

variable {lines : List Line} {s : LineStream}

theorem ofBytes (b : Bytes) : ReadFrom b.lines (LineStream.ofBytes b) :=
  ⟨rfl, Nat.zero_le _, rfl⟩

theorem length_ready (h : ReadFrom lines s) :
    s.taken + s.ready.length = lines.length := by
  have htaken := h.taken
  rw [h.ready, List.length_drop]
  omega

theorem skip_one (h : ReadFrom lines s) :
    ReadFrom lines (s.skip 1) ∧
    (s.skip 1).taken = s.taken + min 1 s.ready.length := by
  have hlength := h.length_ready
  cases hready : s.ready with
  | nil =>
      rw [skip_of_ready_nil hready]
      exact ⟨h, rfl⟩
  | cons line rest =>
      have hskip : s.skip 1 = { ready := rest, taken := s.taken + 1 } := by
        simp [skip, takeLines, next?, hready, h.held]
      rw [hready, List.length_cons] at hlength
      rw [hskip]
      refine ⟨⟨rfl, by simp only; omega, ?_⟩, by simp⟩
      rw [← List.tail_drop, ← h.ready, hready]
      rfl

/-- Reading on counts the lines that were there. -/
theorem skip (h : ReadFrom lines s) (n : Nat) :
    ReadFrom lines (s.skip n) ∧
    (s.skip n).taken = s.taken + min n s.ready.length := by
  induction n generalizing s with
  | zero => exact ⟨h, by simp⟩
  | succ n ih =>
      obtain ⟨hone, htaken⟩ := h.skip_one
      obtain ⟨hmore, htaken'⟩ := ih hone
      rw [skip_succ]
      refine ⟨hmore, ?_⟩
      rw [htaken', htaken, ready_skip, List.length_drop]
      omega

end ReadFrom

end LineStream

/-- The hunk that was met and is not done with. -/
def Phase.pending : Phase → Nat
  | leading _ | body .. | skipping .. => 1
  | header | trailing | done | stopped _ => 0

namespace Splice

variable {settings : Settings} {name : Bytes} {lines : List Line} {hunk : Hunk}
  {entry s s' : Splice}

/-- What did not stop the machine later had not stopped it before. -/
theorem failure?_of_step (h : (s.step settings name).failure? = none) :
    s.failure? = none := by
  cases hstop : s.failure? with
  | none => rfl
  | some why =>
      rw [step_of_not_isLive settings name (isLive_of_failure? hstop),
        hstop] at h
      exact absurd h (by simp)

/-! ## The counters tell the truth -/

/-- The counters of a machine on a source of `lines`: the cursor is behind the
lines that were taken from the source, but for those of the last copy; what was
written is what was emitted and the last copy; and no more hunks have failed
than were met. -/
structure Accounted (lines : List Line) (s : Splice) : Prop where
  source : s.source.ReadFrom lines
  cursor : s.cursor + s.trailing = 1 + s.source.taken
  written : s.written.size = s.emitted + s.trailing
  trailing : s.phase ≠ .done → s.trailing = 0
  failed : s.failed + s.phase.pending ≤ s.hunks

theorem accounted_start (patch : LineStream) (source : Bytes) :
    Accounted source.lines (start patch (.ofBytes source)) :=
  ⟨.ofBytes source, rfl, rfl, fun _ => rfl, Nat.le_refl _⟩

/-- A step that reads `n` lines of the source and writes `m` lines. -/
theorem Accounted.advance (h : Accounted lines s) (hphase : s.phase ≠ .done)
    {n m : Nat} (hsource : s'.source = s.source.skip n)
    (hcursor : s'.cursor = s.cursor + min n s.source.ready.length)
    (hwritten : s'.written.size = s.written.size + m)
    (hemitted : s'.emitted = s.emitted + m)
    (htrailing : s'.trailing = s.trailing)
    (hfailed : s'.failed + s'.phase.pending ≤ s'.hunks) :
    Accounted lines s' := by
  obtain ⟨hread, htaken⟩ := h.source.skip n
  have hzero := h.trailing hphase
  have hbefore := h.cursor
  have hsize := h.written
  refine ⟨hsource ▸ hread, ?_, ?_, fun _ => htrailing.trans hzero, hfailed⟩
  · rw [hcursor, hsource, htaken, htrailing]
    omega
  · rw [hwritten, hemitted, htrailing]
    omega

theorem size_append_lines (written : Array Bytes) (more : List Line) :
    (written ++ more).size = written.size + more.length := by
  rw [← Array.length_toList, ← Array.length_toList]
  simp

theorem Accounted.move (h : Accounted lines s) (hmove : Move settings name s s')
    (hfine : s'.failure? = none) : Accounted lines s' := by
  have hfailed := h.failed
  cases hmove with
  | overlong => simp [failure?] at hfine
  | behind => simp [failure?, stop] at hfine
  | short => simp [failure?, stop] at hfine
  | noHeader phase back line =>
      refine h.advance (n := 0) (m := 0) (by simp [phase]) rfl rfl rfl
        rfl rfl ?_
      simpa [phase, Phase.pending] using hfailed
  | header phase ready read =>
      refine h.advance (n := 0) (m := 0) (by simp [phase]) rfl rfl rfl
        rfl rfl ?_
      simpa [phase, Phase.pending] using hfailed
  | whole phase whole =>
      refine h.advance (n := 0) (m := 0) (by simp [phase]) rfl rfl rfl
        rfl rfl ?_
      simpa [phase, enterBody, Phase.pending] using hfailed
  | @copied _ count phase whole start there =>
      refine h.advance (n := count) (m := count) (by simp [phase]) rfl ?_ ?_
        rfl rfl ?_
      · rw [Nat.min_eq_left there]
        rfl
      · have hsize := size_append_lines s.written (s.source.ready.take count)
        rwa [List.length_take, Nat.min_eq_left there] at hsize
      · simpa [phase, enterBody, Phase.pending] using hfailed
  | bodyLeft phase back line =>
      refine h.advance (n := 0) (m := 0) (by simp [phase]) rfl rfl rfl
        rfl rfl ?_
      simp only [phase, Phase.pending] at hfailed ⊢
      omega
  | inserted phase ready read role room =>
      refine h.advance (n := 0) (m := 1) (by simp [phase]) rfl rfl (by simp)
        rfl rfl ?_
      simpa [phase, Phase.pending] using hfailed
  | deleted phase ready read role room found =>
      refine h.advance (n := 1) (m := 0) (by simp [phase]) rfl (by simp [found])
        rfl rfl rfl ?_
      simpa [phase, Phase.pending] using hfailed
  | kept phase ready read role room found room' =>
      refine h.advance (n := 1) (m := 1) (by simp [phase]) rfl (by simp [found])
        (by simp) rfl rfl
        ?_
      simpa [phase, Phase.pending] using hfailed
  | contextLeft phase ready read role room found full back =>
      refine h.advance (n := 1) (m := 0) (by simp [phase]) rfl (by simp [found])
        rfl rfl rfl ?_
      simp only [phase, Phase.pending] at hfailed ⊢
      omega
  | passed phase ready read role room missed skip =>
      refine h.advance (n := 1) (m := 0) (by simp [phase]) rfl rfl rfl
        rfl rfl ?_
      simpa [phase, say, Phase.pending] using hfailed
  | missed phase ready read role room missed skip =>
      refine h.advance (n := 1) (m := 0) (by simp [phase]) rfl rfl rfl
        rfl rfl ?_
      simpa [phase, Phase.pending] using hfailed
  | skippingLeft phase back line =>
      refine h.advance (n := 0) (m := 0) (by simp [phase]) rfl rfl rfl
        rfl rfl ?_
      simpa [phase, fail, say, Phase.pending] using hfailed
  | skipped phase ready read room room' =>
      refine h.advance (n := 0) (m := 0) (by simp [phase]) rfl rfl rfl
        rfl rfl ?_
      simpa [phase, Phase.pending] using hfailed
  | flushed phase flush =>
      -- The only step that counts in `trailing`, which was zero so far.
      obtain ⟨hread, htaken⟩ := h.source.skip s.source.ready.length
      have hzero := h.trailing (by simp [phase])
      have hbefore := h.cursor
      have hsize := h.written
      have hmore := size_append_lines s.written s.source.ready
      rw [Nat.min_self] at htaken
      refine ⟨hread, ?_, ?_, fun hdone => absurd rfl hdone, ?_⟩
      · simp only [say, htaken]
        omega
      · simp only [say, htaken, hmore]
        omega
      · simpa [phase, say, Phase.pending] using hfailed
  | dropped phase flush =>
      refine h.advance (n := 0) (m := 0) (by simp [phase]) rfl rfl rfl
        rfl rfl ?_
      simpa [phase, say, Phase.pending] using hfailed

theorem Accounted.steps (h : Accounted lines s) (n : Nat)
    (hfine : (s.steps settings name n).failure? = none) :
    Accounted lines (s.steps settings name n) := by
  induction n with
  | zero => exact h
  | succ n ih =>
      have hbefore := ih (failure?_of_step hfine)
      rw [steps_succ] at hfine ⊢
      rcases step_eq_or_move settings name (s.steps settings name n) with
        hsame | hmove
      · rw [hsame]
        exact hbefore
      · exact hbefore.move hmove hfine

/-! ## The counters do not go back -/

/-- The counters of one machine are those of another or behind them. -/
structure Upto (s s' : Splice) : Prop where
  cursor : s.cursor ≤ s'.cursor
  emitted : s.emitted ≤ s'.emitted
  hunks : s.hunks ≤ s'.hunks

theorem Upto.refl (s : Splice) : Upto s s :=
  ⟨Nat.le_refl _, Nat.le_refl _, Nat.le_refl _⟩

theorem Upto.trans {s'' : Splice} (h : Upto s s') (h' : Upto s' s'') :
    Upto s s'' :=
  ⟨Nat.le_trans h.cursor h'.cursor, Nat.le_trans h.emitted h'.emitted,
    Nat.le_trans h.hunks h'.hunks⟩

theorem Move.upto (h : Move settings name s s') : Upto s s' := by
  cases h <;> constructor <;> simp [enterBody, stop, say, fail]

theorem upto_step (s : Splice) : Upto s (s.step settings name) := by
  rcases step_eq_or_move settings name s with hsame | hmove
  · rw [hsame]
    exact .refl s
  · exact hmove.upto

theorem upto_steps {m n : Nat} (hle : m ≤ n) (s : Splice) :
    Upto (s.steps settings name m) (s.steps settings name n) := by
  obtain ⟨k, rfl⟩ := Nat.exists_eq_add_of_le hle
  induction k with
  | zero => exact .refl _
  | succ k ih => exact (ih (Nat.le_add_right m k)).trans (upto_step _)

/-! ## The counters keep within the bounds of a hunk -/

/-- A machine in a hunk or behind it, by the machine before the body: its
offset is the cursor there, and neither counter has gone further than the
header says. -/
structure Bounded (hunk : Hunk) (entry s : Splice) : Prop where
  offset : s.offset = entry.cursor
  cursor_ge : s.offset ≤ s.cursor
  cursor_le : s.cursor ≤ s.offset + hunk.old.count
  emitted_ge : entry.emitted ≤ s.emitted
  emitted_le : s.emitted ≤ entry.emitted + hunk.new.count
  ends : ∀ hunk' ends seen, s.phase = .body hunk' ends seen →
    ends =
      { source := s.offset + hunk.old.count
        result := entry.emitted + hunk.new.count }
  behind : ∀ hunk', s.phase ≠ .leading hunk'

/-- The machine before a body is within the bounds, which are taken there. -/
theorem bounded_enterBody (hunk : Hunk) (s : Splice) :
    Bounded hunk (s.enterBody hunk) (s.enterBody hunk) where
  offset := rfl
  cursor_ge := Nat.le_refl _
  cursor_le := Nat.le_add_right _ _
  emitted_ge := Nat.le_refl _
  emitted_le := Nat.le_add_right _ _
  ends := by simp +contextual [enterBody]
  behind := by simp [enterBody]

theorem exists_enterBody (hphase : s.phase = .leading hunk)
    (hfine : (s.step settings name).failure? = none) :
    ∃ t : Splice, s.step settings name = t.enterBody hunk ∧
      t.hunks = s.hunks := by
  have hstep : s.step settings name = s.stepLeading name hunk := by
    rw [step, hphase]
  rw [hstep] at hfine ⊢
  unfold stepLeading at hfine ⊢
  split
  · exact ⟨s, rfl, rfl⟩
  · next whole =>
      rw [if_neg whole] at hfine
      split
      · next before =>
          rw [if_pos before] at hfine
          exact absurd hfine (by simp [failure?, stop])
      · next before =>
          rw [if_neg before] at hfine
          simp only [] at hfine ⊢
          split
          · exact ⟨_, rfl, rfl⟩
          · next missing =>
              rw [if_neg missing] at hfine
              exact absurd hfine (by simp [failure?, stop])

/-- Until the next hunk is met a step keeps within the bounds of this one. -/
theorem Bounded.move (h : Bounded hunk entry s)
    (hmove : Move settings name s s') (hsame : s'.hunks = s.hunks) :
    Bounded hunk entry s' := by
  obtain ⟨hoffset, hge, hle, hge', hle', hends, hbehind⟩ := h
  cases hmove with
  | header phase ready read => simp at hsame
  | whole phase whole => exact absurd phase (hbehind _)
  | behind phase whole before => exact absurd phase (hbehind _)
  | copied phase whole start there => exact absurd phase (hbehind _)
  | short phase whole start missing => exact absurd phase (hbehind _)
  | noHeader phase back line =>
      exact ⟨hoffset, hge, hle, hge', hle', by simp, by simp⟩
  | overlong phase ready read =>
      exact ⟨hoffset, hge, hle, hge', hle', by simp, by simp⟩
  | bodyLeft phase back line =>
      exact ⟨hoffset, hge, hle, hge', hle', by simp, by simp⟩
  | skippingLeft phase back line =>
      exact ⟨hoffset, hge, hle, hge', hle', by simp [fail, say],
        by simp [fail, say]⟩
  | skipped phase ready read room room' =>
      exact ⟨hoffset, hge, hle, hge', hle', by simp, by simp⟩
  | flushed phase flush =>
      exact ⟨hoffset, hge, hle, hge', hle', by simp [say], by simp [say]⟩
  | dropped phase flush =>
      exact ⟨hoffset, hge, hle, hge', hle', by simp [say], by simp [say]⟩
  | inserted phase ready read role room =>
      have hsame := hends _ _ _ phase
      have hroom : s.emitted ≠ entry.emitted + hunk.new.count := by
        simpa [hsame] using room
      refine ⟨hoffset, hge, hle, ?_, ?_, by simp [hsame], by simp⟩
      · exact Nat.le_succ_of_le hge'
      · exact Nat.lt_of_le_of_ne hle' hroom
  | deleted phase ready read role room found =>
      have hsame := hends _ _ _ phase
      have hroom : s.cursor ≠ s.offset + hunk.old.count := by
        simpa [hsame] using room
      refine ⟨hoffset, ?_, ?_, hge', hle', by simp [hsame], by simp⟩
      · exact Nat.le_succ_of_le hge
      · exact Nat.lt_of_le_of_ne hle hroom
  | kept phase ready read role room found room' =>
      have hsame := hends _ _ _ phase
      have hroom : s.cursor ≠ s.offset + hunk.old.count := by
        simpa [hsame] using room
      have hroom' : s.emitted ≠ entry.emitted + hunk.new.count := by
        simpa [hsame] using room'
      refine ⟨hoffset, ?_, ?_, ?_, ?_, by simp [hsame], by simp⟩
      · exact Nat.le_succ_of_le hge
      · exact Nat.lt_of_le_of_ne hle hroom
      · exact Nat.le_succ_of_le hge'
      · exact Nat.lt_of_le_of_ne hle' hroom'
  | contextLeft phase ready read role room found full back =>
      have hroom : s.cursor ≠ s.offset + hunk.old.count := by
        simpa [hends _ _ _ phase] using room
      refine ⟨hoffset, ?_, ?_, hge', hle', by simp, by simp⟩
      · exact Nat.le_succ_of_le hge
      · exact Nat.lt_of_le_of_ne hle hroom
  | passed phase ready read role room missed skip =>
      have hsame := hends _ _ _ phase
      have hroom : s.cursor ≠ s.offset + hunk.old.count := by
        simpa [hsame] using room
      refine ⟨hoffset, ?_, ?_, hge', hle', by simp [say, hsame], by simp [say]⟩
      · exact Nat.le_add_right_of_le hge
      · simp only [say]
        omega
  | missed phase ready read role room missed skip =>
      have hroom : s.cursor ≠ s.offset + hunk.old.count := by
        simpa [hends _ _ _ phase] using room
      refine ⟨hoffset, ?_, ?_, hge', hle', by simp, by simp⟩
      · exact Nat.le_add_right_of_le hge
      · simp only
        omega

theorem Bounded.step (h : Bounded hunk entry s)
    (hsame : (s.step settings name).hunks = s.hunks) :
    Bounded hunk entry (s.step settings name) := by
  rcases step_eq_or_move settings name s with hend | hmove
  · rw [hend]
    exact h
  · exact h.move hmove hsame

/-- From a hunk on, and as long as no further one is met, the machine keeps
within the bounds of that hunk. -/
theorem bounded_steps (hphase : s.phase = .leading hunk) (n : Nat)
    (hsame : (s.steps settings name (n + 1)).hunks = s.hunks)
    (hfine : (s.steps settings name (n + 1)).failure? = none) :
    Bounded hunk (s.step settings name) (s.steps settings name (n + 1)) := by
  induction n with
  | zero =>
      rw [steps_succ, steps_zero] at hfine
      obtain ⟨t, ht, -⟩ := exists_enterBody hphase hfine
      rw [steps_succ, steps_zero, ht]
      exact bounded_enterBody hunk t
  | succ n ih =>
      -- The count of hunks stood still all the time, since it never goes back.
      have hlow : s.hunks ≤ (s.steps settings name (n + 1)).hunks :=
        (upto_steps (Nat.zero_le (n + 1)) s).hunks
      have hhigh : (s.steps settings name (n + 1)).hunks ≤
          ((s.steps settings name (n + 1)).step settings name).hunks :=
        (upto_step (s.steps settings name (n + 1))).hunks
      rw [steps_succ] at hsame hfine ⊢
      have hbefore : (s.steps settings name (n + 1)).hunks = s.hunks := by omega
      exact (ih hbefore (failure?_of_step hfine)).step
        (hsame.trans hbefore.symm)

/-! ## All along a run -/

/-- The machine after `n` steps on a patch and a source. -/
def course (settings : Settings) (name : Bytes) (patch : LineStream)
    (source : Bytes) (n : Nat) : Splice :=
  (start patch (.ofBytes source)).steps settings name n

/-- On every patch and every source, as long as the work is not given up: the
cursor is one more than the lines of the source that were taken, and as many
lines were emitted as were written, but for the last copy; neither number goes
back; from the body of a hunk on until the next hunk is met, the cursor is
between the offset and the end of the old range, and no more lines were written
than the new range has; no more hunks have failed than were met; and at the end
of the run as many lines were written as were produced. -/
theorem course_accounted (settings : Settings) (name : Bytes)
    (patch : LineStream) (source : Bytes) :
    (∀ n, (course settings name patch source n).failure? = none →
      Accounted source.lines (course settings name patch source n)) ∧
    (∀ m n, m ≤ n → Upto (course settings name patch source m)
      (course settings name patch source n)) ∧
    (∀ m n hunk, m < n →
      (course settings name patch source m).phase = .leading hunk →
      (course settings name patch source n).hunks =
        (course settings name patch source m).hunks →
      (course settings name patch source n).failure? = none →
      Bounded hunk (course settings name patch source (m + 1))
        (course settings name patch source n)) ∧
    (∃ n, (start patch (.ofBytes source)).run settings name =
      course settings name patch source n) ∧
    (((start patch (.ofBytes source)).run settings name).failure? = none →
      ((start patch (.ofBytes source)).run settings name).written.size =
          ((start patch (.ofBytes source)).run settings name).produced ∧
        ((start patch (.ofBytes source)).run settings name).produced =
          ((start patch (.ofBytes source)).run settings name).emitted +
            ((start patch (.ofBytes source)).run settings name).trailing) := by
  obtain ⟨last, hlast⟩ :=
    exists_steps_eq_run settings name (start patch (.ofBytes source))
  refine ⟨fun n hfine => (accounted_start patch source).steps n hfine,
    fun m n hle => upto_steps hle _, fun m n hunk hlt hphase hsame hfine =>
      ?_, ⟨last, hlast⟩,
    fun hfine => ?_⟩
  · obtain ⟨k, rfl⟩ : ∃ k, n = m + (k + 1) := ⟨n - m - 1, by omega⟩
    unfold course at hphase hsame hfine ⊢
    rw [steps_add settings name m (k + 1)] at hsame hfine ⊢
    exact bounded_steps hphase k hsame hfine
  · rw [hlast] at hfine ⊢
    exact ⟨((accounted_start patch source).steps last hfine).written, rfl⟩

/-- A hunk that is missed at its second line, and one behind it. -/
def missedThenKept : Bytes :=
  Bytes.ascii "@@ -2,2 +2 @@\n b\n-x\n@@ -4 +3 @@\n d\n"

/-- Behind the hunk that was missed the cursor is at the end of its
old range. -/
theorem course_accounted_missed :
    Accounted (Bytes.lines (Bytes.ascii "a\nb\nc\nd\ne\n"))
        (course { directory := ⟨.working, []⟩ } [] (.ofBytes missedThenKept)
          (Bytes.ascii "a\nb\nc\nd\ne\n") 5) ∧
      Bounded ⟨⟨2, 2⟩, ⟨2, 1⟩⟩
        (course { directory := ⟨.working, []⟩ } [] (.ofBytes missedThenKept)
          (Bytes.ascii "a\nb\nc\nd\ne\n") 2)
        (course { directory := ⟨.working, []⟩ } [] (.ofBytes missedThenKept)
          (Bytes.ascii "a\nb\nc\nd\ne\n") 5) := by
  obtain ⟨hcounted, -, hbounded, -⟩ := course_accounted
    { directory := ⟨.working, []⟩ } []
    (.ofBytes missedThenKept) (Bytes.ascii "a\nb\nc\nd\ne\n")
  exact ⟨hcounted 5 (by decide +kernel),
    hbounded 1 5 _ (by decide) (by decide +kernel)
    (by decide +kernel) (by decide +kernel)⟩

end Splice

end UnifiedPatch
