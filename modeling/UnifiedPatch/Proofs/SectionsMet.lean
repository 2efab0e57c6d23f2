import UnifiedPatch.Proofs.SectionRun

/-!
# The sections that a run meets

A run says which sections it meets, and that is the record of them: a section
may be cut short by a failure and leave no result. Nothing but the search for a
section adds to the record, neither the splicing nor what is said when a target
is opened and settled, so it grows by one name with each section and what is on
it stays (`sections_isPrefix`).

The faults of the tree are told apart from the other failures by where they
come from. The search for a section has none and the splicing has none
(`Within`); what is left is the opening of a target and its settling, and
settling has no others.
-/

namespace UnifiedPatch

/-- The section that an event tells of. -/
def Event.section? : Event → Option Bytes
  | .remark (.sectionFound name) => some name
  | _ => none

namespace Transcript

/-- The names of the sections that were met, in order. -/
def sections (t : Transcript) : List Bytes := t.toList.filterMap Event.section?

@[simp] theorem sections_append (t u : Transcript) :
    sections (t ++ u) = t.sections ++ u.sections := by
  simp [sections]

@[simp] theorem sections_push (t : Transcript) (e : Event) :
    sections (t.push e) = t.sections ++ e.section?.toList := by
  cases h : e.section? <;> simp [sections, h]

end Transcript

/-- A fault of the tree. -/
def Failure.isIO : Failure → Bool
  | .fatal (.io _ _) => true
  | _ => false

namespace Splice

/-- What every step keeps: no section is met, and the work is not given up for a
fault of the tree. -/
structure Within (s s' : Splice) : Prop where
  sections : s'.transcript.sections = s.transcript.sections
  failure? : ∀ why, s'.phase = .stopped why →
    s.phase = .stopped why ∨ why.isIO = false

theorem Within.trans {s s' s'' : Splice} (h : Within s s')
    (h' : Within s' s'') :
    Within s s'' :=
  ⟨h'.sections.trans h.sections, fun why hwhy =>
    (h'.failure? why hwhy).elim (h.failure? why) .inr⟩

variable (settings : Settings) (name : Bytes) {s : Splice}

theorem within_of_phase {s' : Splice}
    (hsaid : s'.transcript.sections = s.transcript.sections)
    (hphase : ∀ why, s'.phase ≠ .stopped why) : Within s s' :=
  ⟨hsaid, fun why hwhy => absurd hwhy (hphase why)⟩

theorem within_stop {s' : Splice} {why : Failure}
    (hsaid : s'.transcript.sections = s.transcript.sections)
    (hphase : s'.phase = .stopped why) (hwhy : why.isIO = false) :
    Within s s' := by
  refine ⟨hsaid, fun other hother => .inr ?_⟩
  obtain rfl : why = other := Phase.stopped.inj (hphase.symm.trans hother)
  exact hwhy

theorem within_handBack (patch : LineStream) (line : Line) {phase : Phase}
    (hphase : ∀ why, phase ≠ .stopped why) :
    Within s (s.handBack patch line phase) := by
  unfold handBack
  split
  · exact within_of_phase rfl hphase
  · exact within_stop rfl rfl rfl

theorem within_stepHeader : Within s (s.stepHeader settings) := by
  unfold stepHeader
  split
  · exact within_of_phase rfl (by simp)
  · split
    · exact within_stop rfl rfl rfl
    · exact within_handBack _ _ (by simp)
    · exact within_of_phase rfl (by simp)

theorem within_stepLeading (hunk : Hunk) :
    Within s (s.stepLeading name hunk) := by
  unfold stepLeading
  split
  · exact within_of_phase rfl (by simp [enterBody])
  · split
    · exact within_stop rfl rfl rfl
    · simp only []
      split
      · exact within_of_phase rfl (by simp [enterBody])
      · exact within_stop (by simp [stop, say, Event.section?]) rfl rfl

theorem within_emit (patch : LineStream) (b : BodyLine) (ends : Tally) :
    Within s (s.emit patch b ends) := by
  unfold emit
  split
  · exact within_handBack _ _ (by simp)
  · exact ⟨rfl, fun why hwhy => .inl hwhy⟩

theorem within_stepBody (hunk : Hunk) (ends seen : Tally) :
    Within s (s.stepBody settings name hunk ends seen) := by
  unfold stepBody
  split
  · exact within_of_phase rfl (by simp)
  · next line patch _ =>
      split
      · exact within_handBack _ _ (by simp)
      · next b _ =>
          simp only []
          split
          · refine Within.trans ?_ (within_emit _ _ _)
            exact within_of_phase rfl (by simp)
          · split
            · exact within_handBack _ _ (by simp)
            · -- Whether there was a line to be read makes no difference here.
              cases s.source.next? <;> simp only []
              all_goals
                split
                · split
                  · exact within_of_phase rfl (by simp)
                  · refine Within.trans ?_ (within_emit _ _ _)
                    exact within_of_phase rfl (by simp)
                · split
                  · exact within_of_phase (by simp [say, Event.section?])
                      (by simp [say])
                  · exact within_of_phase rfl (by simp)

theorem within_fail : Within s s.fail :=
  within_of_phase (by simp [fail, say, Event.section?]) (by simp [fail, say])

theorem within_failAt (patch : LineStream) (line : Line) :
    Within s (s.failAt patch line) := by
  unfold failAt
  split
  · refine Within.trans ?_ within_fail
    exact ⟨rfl, fun why hwhy => .inl hwhy⟩
  · exact within_stop rfl rfl rfl

theorem within_stepSkipping (hunk : Hunk) (seen : Tally) :
    Within s (s.stepSkipping settings hunk seen) := by
  unfold stepSkipping
  split
  · exact within_fail
  · split
    · exact within_failAt _ _
    · simp only []
      split
      · exact within_failAt _ _
      · exact within_of_phase rfl (by simp)

theorem within_stepTrailing : Within s (s.stepTrailing name) := by
  unfold stepTrailing
  refine within_of_phase ?_ (by simp [say])
  simp only []
  split <;> simp [say, Event.section?]

theorem within_step : Within s (s.step settings name) := by
  unfold step
  split
  · exact within_stepHeader settings
  · exact within_stepLeading name _
  · exact within_stepBody settings name _ _ _
  · exact within_stepSkipping settings _ _
  · exact within_stepTrailing name
  · exact ⟨rfl, fun why hwhy => .inl hwhy⟩
  · exact ⟨rfl, fun why hwhy => .inl hwhy⟩

theorem within_run (s : Splice) : Within s (s.run settings name) := by
  fun_induction run settings name s with
  | case1 s h ih => exact (within_step settings name).trans ih
  | case2 s h => exact ⟨rfl, fun why hwhy => .inl hwhy⟩

end Splice

namespace Target

variable {settings : Settings} {target : Target} {result : FileResult}
  {tree : FileTree} {why : Failure}

/-- Opening a target says nothing but remarks, and tells of no section. -/
theorem said_acquire (settings : Settings) (name : Bytes) (tree : FileTree) :
    (acquire settings name tree).said.notices = [] ∧
      (acquire settings name tree).said.sections = [] := by
  unfold acquire openNew openExisting opened
  simp only [User.mayRead_superuser, if_true]
  split
  · exact ⟨rfl, rfl⟩
  · split
    · split
      · exact ⟨rfl, rfl⟩
      · split
        · exact ⟨rfl, rfl⟩
        · split <;> exact ⟨rfl, rfl⟩
    · exact ⟨rfl, rfl⟩
    · exact ⟨rfl, rfl⟩
    · exact ⟨rfl, rfl⟩
    · split
      · exact ⟨rfl, rfl⟩
      · split
        · exact ⟨rfl, rfl⟩
        · split
          · exact ⟨rfl, rfl⟩
          · split <;> exact ⟨rfl, rfl⟩

theorem said_settle (settings : Settings) (target : Target)
    (result : FileResult) (tree : FileTree) :
    (settle settings target result tree).said.notices =
        (if result.hasFailed then [.fileFailed result.failed result.hunks]
          else []) ∧
      (settle settings target result tree).said.sections = [] := by
  have hdropped : (dropBackup target result tree).said = #[] := by
    unfold dropBackup
    split
    · rfl
    · split <;> rfl
  unfold settle
  split
  · split <;> exact ⟨rfl, rfl⟩
  · simp only []
    split
    · rw [hdropped]
      exact ⟨rfl, rfl⟩
    · unfold dropEmpty
      split
      · exact ⟨rfl, rfl⟩
      · split <;> exact ⟨rfl, rfl⟩

theorem isIO_of_discard {path : Path} {e : Option Fault}
    (hnull : path.hasNull = false) (h : discard path tree = .error e) :
    (discardFailure target e).isIO = true := by
  rw [discard, hnull] at h
  cases e with
  | some e => rfl
  | none =>
      cases hunlink : tree.unlink path with
      | error e =>
          rw [hunlink] at h
          have hfault : some e = none := Except.error.inj h
          exact absurd hfault (by simp)
      | ok gone =>
          rw [hunlink] at h
          have hdone : (Except.ok gone : Except (Option Fault) FileTree) =
              .error none := h
          exact absurd hdone (by simp)

theorem isIO_of_dropBackup
    (hbackup : ∀ backup ∈ target.backup, backup.hasNull = false)
    (h : (dropBackup target result tree).failure? = some why) :
    why.isIO = true := by
  unfold dropBackup at h
  split at h
  · exact absurd h (by simp)
  · next backup hsome =>
      split at h
      · exact absurd h (by simp)
      · exact absurd h (by simp)
      · next herror =>
          rw [← Option.some.inj h]
          exact isIO_of_discard (hbackup backup hsome) herror

/-- Settling can fail for a fault of the tree only. -/
theorem isIO_of_settle (hpath : target.path.hasNull = false)
    (hbackup : ∀ backup ∈ target.backup, backup.hasNull = false)
    (h : (settle settings target result tree).failure? = some why) :
    why.isIO = true := by
  unfold settle at h
  split at h
  · exact absurd h (by simp)
  · simp only [] at h
    split at h
    · exact isIO_of_dropBackup hbackup h
    · unfold dropEmpty at h
      split at h
      · exact absurd h (by simp)
      · split at h
        · next herror =>
            rw [← Option.some.inj h]
            exact isIO_of_discard hpath herror
        · exact absurd h (by simp)

end Target

/-! ## Sections in their order -/

namespace Run

open Target

@[simp] theorem sections_say (r : Run) (said : Transcript) :
    (r.say said).said.sections = r.said.sections ++ said.sections :=
  Transcript.sections_append ..

@[simp] theorem sections_fail (r : Run) (why : Failure) :
    (r.fail why).said.sections = r.said.sections := rfl

/-- Applying a section meets no further one. -/
theorem sections_applySection (settings : Settings) (name : Bytes) (r : Run) :
    (r.applySection settings name).said.sections = r.said.sections := by
  have hopened := (said_acquire settings name r.tree).2
  cases hopen : (acquire settings name r.tree).result with
  | error why =>
      rw [applySection_eq_of_error hopen, sections_fail, sections_say, hopened,
        List.append_nil]
  | ok o =>
      have hwork :
          ((Splice.start r.patch o.source).run settings
            name).transcript.sections = [] :=
        (Splice.within_run settings name _).sections
      have hworked : (r.worked settings name o
          ((Splice.start r.patch o.source).run settings name)).said.sections =
            r.said.sections := by
        have hnotice : Transcript.sections #[.notice (.patchingFile name)] =
            [] := rfl
        simp only [worked, Transcript.sections_append, hopened, hnotice, hwork,
          List.append_nil]
      rw [applySection_eq_of_ok hopen rfl]
      split
      · exact hworked
      · unfold finishSection
        simp only []
        split <;> simp [hworked, (said_settle _ _ _ _).2]

theorem sections_applySection_entering (settings : Settings) (name : Bytes)
    (p : LineStream) (r : Run) :
    ((r.entering name p).applySection settings name).said.sections =
      r.said.sections ++ [name] := by
  rw [sections_applySection, entering, sections_say]
  rfl

theorem sections_isPrefix (settings : Settings) (r : Run) :
    r.said.sections <+: (r.applySections settings).said.sections := by
  fun_induction applySections settings r with
  | case1 r e patch h => exact List.prefix_refl _
  | case2 r patch h =>
      rw [sections_say]
      exact List.prefix_append _ _
  | case3 r name patch h next why hwhy =>
      rw [sections_applySection, sections_say]
      exact List.prefix_append _ _
  | case4 r name patch h next hnext ih =>
      refine List.IsPrefix.trans ?_ ih
      rw [sections_applySection, sections_say]
      exact List.prefix_append _ _

end Run

end UnifiedPatch
