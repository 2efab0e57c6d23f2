import UnifiedPatch.Proofs.SpliceCursors

/-!
# What skipping what is applied already changes

Lines may count as applied already, or they may not; the machine asks at one
place, when a line of a body is not what the source has. A run that never comes
to that place is the same run either way, and a strict run that comes to it has
a failed hunk: the rest of the hunk is passed over, and nothing can end the work
before the hunk is counted (`failures_le_failed_run`). So a strict run without a
failed hunk is step for step the lenient one, up to the end or to the error that
ends both (`run_lenient_of_failures`).

The other way round there is nothing to compare. A lenient run never passes over
the rest of a hunk, and that is the only way for a hunk to fail.
-/

namespace UnifiedPatch

/-- The settings with every line to be found in the source. -/
def Settings.strict (settings : Settings) : Settings :=
  { settings with skipApplied := false }

/-- The settings with lines that are not found taken for applied already. -/
def Settings.lenient (settings : Settings) : Settings :=
  { settings with skipApplied := true }

namespace Splice

variable {settings : Settings} {name : Bytes} {s s' : Splice}

/-! ## Failed hunks -/

/-- Whether the rest of a failed hunk is being passed over. -/
def isSkipping (s : Splice) : Bool :=
  match s.phase with
  | .skipping .. => true
  | _ => false

theorem isLive_of_isSkipping (h : s.isSkipping = true) :
    s.phase.isLive = true := by
  unfold isSkipping at h
  split at h
  · next hphase =>
      rw [hphase]
      rfl
  · simp at h

/-- The hunks that have failed, with the one that is not counted yet. -/
def failures (s : Splice) : Nat := s.failed + s.isSkipping.toNat

theorem Move.failures_le (h : Move settings name s s') :
    s.failures ≤ s'.failures := by
  cases h <;> simp_all [failures, isSkipping, enterBody, stop, fail, say]

/-- Every hunk that has failed is counted in the end. -/
theorem failures_le_failed_run (settings : Settings) (name : Bytes)
    (s : Splice) :
    s.failures ≤ (s.run settings name).failed := by
  fun_induction run settings name s with
  | case1 s hlive ih =>
      exact Nat.le_trans (move_step settings name hlive).failures_le ih
  | case2 s hlive =>
      have hnot : s.isSkipping = false := by
        rw [← Bool.not_eq_true]
        exact fun hs => hlive (isLive_of_isSkipping hs)
      rw [failures, hnot]
      exact Nat.le_refl _

/-! ## Strict and lenient in step -/

/-- A body is followed in the same way, or the hunk fails in the strict one. -/
theorem stepBody_lenient (settings : Settings) (name : Bytes) (hunk : Hunk)
    (ends seen : Tally) (s : Splice) :
    s.stepBody settings.lenient name hunk ends seen =
        s.stepBody settings.strict name hunk ends seen ∨
      (s.stepBody settings.strict name hunk ends seen).failures =
        s.failed + 1 := by
  unfold stepBody
  cases s.patch.next? with
  | none => exact .inl rfl
  | some taken =>
      obtain ⟨line, patch⟩ := taken
      simp only [Settings.strict, Settings.lenient]
      cases BodyLine.ofLine? settings.reverse line with
      | none => exact .inl rfl
      | some b =>
          simp only []
          by_cases hrole : b.role = .insertion
          · rw [if_pos hrole, if_pos hrole]
            exact .inl rfl
          · rw [if_neg hrole, if_neg hrole]
            by_cases hfull : s.cursor = ends.source
            · rw [if_pos hfull, if_pos hfull]
              exact .inl rfl
            · rw [if_neg hfull, if_neg hfull]
              by_cases hfound : s.source.next?.map Prod.fst = some b.content
              · rw [if_pos hfound, if_pos hfound]
                exact .inl rfl
              · -- The only place where it matters what lines may count as.
                right
                rw [if_neg hfound]
                cases s.source.next? with
                | none => rfl
                | some found => rfl

theorem step_lenient (settings : Settings) (name : Bytes) (s : Splice) :
    s.step settings.lenient name = s.step settings.strict name ∨
      s.failures < (s.step settings.strict name).failures := by
  cases hphase : s.phase with
  | body hunk ends seen =>
      have hstart : s.failures = s.failed := by
        simp [failures, isSkipping, hphase]
      simp only [step, hphase]
      refine (stepBody_lenient settings name hunk ends seen s).imp_right
        fun hfailed => ?_
      rw [hfailed, hstart]
      exact Nat.lt_succ_self _
  | header | skipping _ _ =>
      left
      simp only [step, hphase]
      rfl
  | leading _ | trailing | done | stopped _ =>
      left
      simp only [step, hphase]

/-- A strict run in which no further hunk fails is the lenient one. -/
theorem run_lenient_of_failures
    (h : (s.run settings.strict name).failed = s.failures) :
    s.run settings.lenient name = s.run settings.strict name := by
  fun_induction run settings.strict name s with
  | case1 s hlive ih =>
      have hbefore := (move_step settings.strict name hlive).failures_le
      have hafter := failures_le_failed_run settings.strict name
        (s.step settings.strict name)
      rcases step_lenient settings name s with hsame | hfailed
      · rw [← run_step, hsame]
        exact ih (by omega)
      · -- The hunk that has failed would be counted in the end.
        omega
  | case2 s hlive =>
      rw [Bool.not_eq_true] at hlive
      exact run_of_not_isLive settings.lenient name hlive

/-! ## A lenient run -/

/-- A lenient machine counts no failed hunk and has nothing to tell its user. -/
theorem Move.lenient (h : Move settings name s s')
    (hskip : settings.skipApplied = true) (hs : s.isSkipping = false) :
    s'.isSkipping = false ∧ s'.failed = s.failed ∧
      s'.transcript.notices = s.transcript.notices := by
  cases h with
  | missed phase ready read role room missed skip =>
      exact absurd (hskip.symm.trans skip) (by simp)
  | skippingLeft phase back line => simp [isSkipping, phase] at hs
  | skipped phase ready read room room' => simp [isSkipping, phase] at hs
  | short | passed | flushed | dropped =>
      exact ⟨rfl, rfl, Transcript.notices_push_remark _ _⟩
  | noHeader | overlong | header | whole | behind | copied | bodyLeft | inserted
  | deleted | kept
  | contextLeft => exact ⟨rfl, rfl, rfl⟩

theorem run_of_lenient (settings : Settings) (name : Bytes)
    (hskip : settings.skipApplied = true) (hs : s.isSkipping = false) :
    (s.run settings name).failed = s.failed ∧
      (s.run settings name).transcript.notices = s.transcript.notices := by
  fun_induction run settings name s with
  | case1 s hlive ih =>
      obtain ⟨hnot, hfailed, hnotices⟩ :=
        (move_step settings name hlive).lenient hskip hs
      rw [← hfailed, ← hnotices]
      exact ih hnot
  | case2 => exact ⟨rfl, rfl⟩

/-- On every patch and every source, in either direction: the lenient run is the
strict run, with the same output, counters, messages, error and lines left,
exactly if the strict run has no failed hunk, whether it is given up or not. A
lenient run counts no failed hunk, and tells its user of none. -/
theorem run_lenient_eq_iff (settings : Settings) (name : Bytes)
    (patch source : LineStream) :
    ((start patch source).run settings.lenient name =
        (start patch source).run settings.strict name ↔
      ((start patch source).run settings.strict name).failed = 0) ∧
    ((start patch source).run settings.lenient name).failed = 0 ∧
    ((start patch source).run settings.lenient name).transcript.notices =
      [] := by
  have hskip : settings.lenient.skipApplied = true := rfl
  have hs : (start patch source).isSkipping = false := rfl
  obtain ⟨hfailed, hnotices⟩ := run_of_lenient settings.lenient name hskip hs
  refine ⟨⟨fun hsame => ?_, fun hnone => ?_⟩, hfailed, hnotices⟩
  · rw [← hsame]
    exact hfailed
  · exact run_lenient_of_failures hnone

/-- A hunk that is found, and one behind the end of the source. -/
def foundThenShort : Bytes :=
  Bytes.ascii "@@ -1 +1 @@\n-a\n+b\n@@ -9 +9 @@\n-x\n"

/-- The error that ends the strict run ends the lenient run with the
same state. -/
theorem run_lenient_foundThenShort :
    ((start (.ofBytes foundThenShort) (.ofBytes (Bytes.ascii "a\nc\n"))).run
        (Settings.strict { directory := ⟨.working, []⟩ }) []).failure? =
      some (.fatal (.badSource [] 6)) ∧
    (start (.ofBytes foundThenShort) (.ofBytes (Bytes.ascii "a\nc\n"))).run
        (Settings.lenient { directory := ⟨.working, []⟩ }) [] =
      (start (.ofBytes foundThenShort) (.ofBytes (Bytes.ascii "a\nc\n"))).run
        (Settings.strict { directory := ⟨.working, []⟩ }) [] :=
  ⟨by decide +kernel, (run_lenient_eq_iff _ _ _ _).1.2 (by decide +kernel)⟩

end Splice

end UnifiedPatch
