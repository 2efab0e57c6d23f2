import UnifiedPatch.CommandLine
import UnifiedPatch.Proofs.SectionVisits
import UnifiedPatch.Proofs.SectionsMet
import UnifiedPatch.Proofs.SpliceCursors

/-!
# What can end a run

A fatal error is reported and gives its own exit status. Two other things can
end a run, and each of them is a fault of the patch that no one reports: the
name of a target holds a zero byte, or a hunk header that the work comes to
holds a run of digits that is too long to be read (`Visit.Escapes`). There is
nothing else. The machine gives up at a header, or before a hunk that it cannot
place, or at the end of the source, and the last two are fatal errors; it
always finds room for a line that it hands back; and opening and settling fail
with a fault of the tree, which is a fatal error as well, once the path is
known to be fit.

On the command line the status 1 stands for failed hunks, and for a failure that
no one caught too (`CommandLine.Ending.Tells`).
-/

namespace UnifiedPatch

/-- Whether a failure is a fatal error. -/
def Failure.isFatal : Failure → Bool
  | .fatal _ => true
  | _ => false

theorem Failure.isFatal_of_isIO {why : Failure} (h : why.isIO = true) :
    why.isFatal = true := by
  unfold isIO at h
  split at h
  · rfl
  · exact absurd h (by simp)

/-! ## The splicing -/

namespace Hunk

/-- A header is refused for a run of digits beyond the limit only. -/
theorem digitLimit_lt_of_readHeader {line : Line} {overlong : OverlongRun}
    (h : readHeader line = .error overlong) : digitLimit < overlong.digits := by
  cases hruns : runs? line with
  | none => exact absurd h (by simp [readHeader, hruns])
  | some r =>
      rw [readHeader_of_runs hruns] at h
      cases hlong : r.overlong? with
      | none => simp [hlong] at h
      | some run =>
          rw [hlong] at h
          obtain rfl := Except.error.inj h
          simpa using List.find?_some hlong

end Hunk

namespace Splice

variable {settings : Settings} {name : Bytes} {s s' : Splice} {why : Failure}

/-- In its course the machine is before a header with a run of digits that is
too long. -/
def MeetsOverlong (settings : Settings) (name : Bytes) (s : Splice)
    (run : Hunk.OverlongRun) : Prop :=
  ∃ n line rest, (s.steps settings name n).phase = .header ∧
    (s.steps settings name n).patch.ready = line :: rest ∧
    Hunk.readHeader line = .error run

/-- A step gives the work up for such a header, or with a fatal error. -/
theorem Move.stopped (h : Move settings name s s')
    (hstopped : s'.phase = .stopped why) :
    (∃ run line rest, why = .overlong run ∧ s.phase = .header ∧
      s.patch.ready = line :: rest ∧
      Hunk.readHeader line = .error run) ∨ why.isFatal = true := by
  cases h with
  | overlong phase ready read =>
      obtain rfl := Phase.stopped.inj hstopped
      exact .inl ⟨_, _, _, rfl, phase, ready, read⟩
  | behind phase whole before =>
      obtain rfl := Phase.stopped.inj hstopped
      exact .inr rfl
  | short phase whole start missing =>
      obtain rfl := Phase.stopped.inj hstopped
      exact .inr rfl
  | noHeader | header | whole | copied | bodyLeft | inserted | deleted | kept
  | contextLeft | passed
  | missed | skippingLeft | skipped | flushed
  | dropped => simp [enterBody, fail, say] at hstopped

/-- Work that was given up was given up by a step. -/
theorem exists_step_of_failure? (hs : s.failure? = none)
    (h : (s.run settings name).failure? = some why) :
    ∃ n, (s.steps settings name n).phase.isLive = true ∧
      ((s.steps settings name n).step settings name).phase = .stopped why := by
  obtain ⟨n, hn⟩ := exists_steps_eq_run settings name s
  rw [hn] at h
  clear hn
  induction n with
  | zero => exact absurd (hs.symm.trans h) (by simp)
  | succ n ih =>
      cases hlive : (s.steps settings name n).phase.isLive with
      | true => exact ⟨n, hlive, failure?_eq_some_iff.1 h⟩
      | false =>
          rw [steps_succ, step_of_not_isLive settings name hlive] at h
          exact ih h

/-- Without being a fatal error the work is given up for a header that
is met. -/
theorem failure?_run_iff (hs : s.failure? = none) (hwhy : why.isFatal = false) :
    (s.run settings name).failure? = some why ↔
      ∃ run, why = .overlong run ∧ s.MeetsOverlong settings name run := by
  constructor
  · intro h
    obtain ⟨n, hlive, hstopped⟩ := exists_step_of_failure? hs h
    rcases (move_step settings name hlive).stopped hstopped with
      ⟨run, line, rest, heq, hphase, hready, hread⟩ | hfatal
    · exact ⟨run, heq, n, line, rest, hphase, hready, hread⟩
    · exact absurd (hwhy.symm.trans hfatal) (by simp)
  · rintro ⟨run, rfl, n, line, rest, hphase, hready, hread⟩
    have hstep : ((s.steps settings name n).step settings name).phase =
        .stopped (.overlong run) := by
      simp only [step, hphase, stepHeader,
        LineStream.next?_eq_skip hready, hread]
    rw [← run_steps settings name (n + 1), steps_succ,
      run_of_not_isLive settings name (by rw [hstep]; rfl)]
    exact failure?_eq_some_iff.2 hstep

end Splice

/-! ## Opening -/

namespace Target

variable {settings : Settings} {name : Bytes} {path : Path} {content : Bytes}
  {mode : Nat} {tree : FileTree} {why : Failure}

theorem isFatal_of_openNew
    (h : (openNew settings name path tree).result = .error why) :
    why.isFatal = true := by
  rcases openNew_cases settings name path tree with ⟨r, heq⟩ | ⟨o, heq, -⟩
  · rw [← Except.error.inj (heq.symm.trans h)]
    rfl
  · exact absurd (heq.symm.trans h) (by simp)

theorem isFatal_of_openExisting
    (h : (openExisting settings name path content mode tree).result =
      .error why) :
    why.isFatal = true := by
  unfold openExisting opened at h
  simp only [User.mayRead_superuser, if_true] at h
  split at h
  · exact absurd h (by simp)
  · split at h
    · rw [← Except.error.inj h]
      rfl
    · split at h
      · rw [← Except.error.inj h]
        rfl
      · split at h
        · rw [← Except.error.inj h]
          rfl
        · exact absurd h (by simp)

/-- A path that is fit is refused with a fatal error only. -/
theorem isFatal_of_acquire
    (hnull : (settings.directory.join name).hasNull = false)
    (h : (acquire settings name tree).result = .error why) :
    why.isFatal = true := by
  unfold acquire at h
  simp only [hnull, Bool.false_eq_true, if_false] at h
  split at h
  · exact isFatal_of_openNew h
  · rw [← Except.error.inj h]
    rfl
  · rw [← Except.error.inj h]
    rfl
  · rw [← Except.error.inj h]
    rfl
  · exact isFatal_of_openExisting h

end Target

/-! ## The whole run -/

/-- The failures that end a section without being fatal errors: a zero byte in
the path of its target, and a run of digits that is too long in a header that is
come to. -/
def Visit.Escapes (v : Visit) : Failure → Prop
  | .nullByte => v.path.hasNull = true
  | .overlong run => ∃ o, v.opened.result = .ok o ∧
      (Splice.start v.before.patch o.source).MeetsOverlong v.settings v.name run
  | _ => False

namespace Visit

open Target

variable {v : Visit} {why : Failure}

theorem escapes_iff : v.Escapes why ↔ why = .nullByte ∧ v.path.hasNull = true ∨
    ∃ o, v.opened.result = .ok o ∧ ∃ run, why = .overlong run ∧
      (Splice.start v.before.patch o.source).MeetsOverlong v.settings
        v.name run := by
  cases why <;> simp [Escapes]

/-- A section whose target is open is ended by a header or by a fatal error. -/
theorem failure?_after_of_opened {o : OpenTarget}
    (hbefore : v.before.failure? = none) (hopen : v.opened.result = .ok o)
    (hwhy : why.isFatal = false) :
    v.after.failure? = some why ↔
      ((Splice.start v.before.patch o.source).run v.settings v.name).failure? =
        some why := by
  cases hdone :
    ((Splice.start v.before.patch o.source).run v.settings v.name).failure? with
  | some why' =>
      rw [after, (Run.applySection_of_stopped hopen rfl hdone).2.2]
  | none =>
      obtain ⟨-, -, hfailure, -⟩ :=
        Run.applySection_of_settled hopen rfl hdone rfl
      rw [after, hfailure, hbefore, Option.or_none]
      refine ⟨fun hsettled => ?_, fun h => absurd h (by simp)⟩
      -- The path is fit, since the target is open, and so is the path of the
      -- backup.
      have hnull : v.path.hasNull = false := hasNull_of_acquire hopen
      have hio : why.isIO = true := by
        refine isIO_of_settle ?_ (fun backup hbackup => ?_) hsettled
        · rw [path_acquire hopen]
          exact hnull
        · rw [backup_acquire hopen backup hbackup]
          exact Path.hasNull_withSuffix hnull (by decide)
      exact absurd (hwhy.symm.trans (Failure.isFatal_of_isIO hio)) (by simp)

theorem failure?_after_iff (hbefore : v.before.failure? = none)
    (hwhy : why.isFatal = false) :
    v.after.failure? = some why ↔ v.Escapes why := by
  rw [escapes_iff]
  cases hopen : v.opened.result with
  | ok o =>
      have hnull : v.path.hasNull = false := hasNull_of_acquire hopen
      rw [failure?_after_of_opened hbefore hopen hwhy,
        Splice.failure?_run_iff rfl hwhy]
      simp [hnull]
  | error why' =>
      rw [after, (Run.applySection_of_error hopen).2.2]
      cases hnull : v.path.hasNull with
      | true =>
          obtain rfl : .nullByte = why' :=
            Except.error.inj ((acquire_of_hasNull hnull).symm.trans hopen)
          simp [eq_comm]
      | false =>
          have hfatal := isFatal_of_acquire hnull hopen
          have hne : why' ≠ why := fun heq => by simp [heq, hwhy] at hfatal
          simp [hne]

end Visit

theorem applyPatch_failure?_iff (settings : Settings) (patch : Bytes)
    (tree : FileTree) {why : Failure} (hwhy : why.isFatal = false) :
    (applyPatch settings patch tree).failure? = some why ↔
      ∃ v ∈ Run.visits settings { tree, patch := .ofBytes patch },
        v.Escapes why := by
  have hnot : ∀ e, why ≠ .fatal e := by
    rintro e rfl
    exact absurd hwhy (by simp [Failure.isFatal])
  rw [applyPatch, Run.failure?_applySections_iff rfl hnot]
  constructor
  · rintro ⟨v, hmem, hfailed⟩
    exact ⟨v, hmem, (Visit.failure?_after_iff
      (Run.failure?_before_of_mem_visits rfl hmem) hwhy).1 hfailed⟩
  · rintro ⟨v, hmem, hescapes⟩
    exact ⟨v, hmem, (Visit.failure?_after_iff
      (Run.failure?_before_of_mem_visits rfl hmem) hwhy).2 hescapes⟩

/-! ## The command line -/

theorem Text.stripControls_append {s : Bytes} (h : (27 : UInt8) ∉ s)
    (rest : Bytes) :
    stripControls (s ++ rest) = s ++ stripControls rest := by
  induction s with
  | nil => rfl
  | cons b s ih =>
      obtain ⟨hb, hs⟩ := List.ne_and_not_mem_of_not_mem_cons h
      rw [List.cons_append, stripControls, if_neg (Ne.symm hb), ih hs,
        List.cons_append]

namespace CommandLine

/-- What the status of a command tells of its log level and its run: a failure
that no one caught, failed hunks, or a fatal error, which is reported. -/
structure Ending.Tells (ending : Ending) (level : Except Failure Int)
    (stamp : Bytes) (run : Run) : Prop where
  uncaught : ∀ why, ending.uncaught? = some why ↔
    level = .error why ∨ (∃ n, level = .ok n) ∧ run.failure? = some why ∧
      why.isFatal = false
  failed : ending.status = 1 ↔ ending.uncaught?.isSome = true ∨
    run.failure? = none ∧ ∃ result ∈ run.files, result.hasFailed = true
  fatal : ending.status = 2 ↔
    (∃ n, level = .ok n) ∧ ∃ e, run.failure? = some (.fatal e)
  reported : ∀ e n, level = .ok n → run.failure? = some (.fatal e) →
    ending.err = run.said.standardError stamp n ++
      (Bytes.ascii "hunkpatch: " ++ Text.stripControls
        (e.message ++ [Bytes.newline]))

theorem report_eq (e : FatalError) : report e =
    Bytes.ascii "hunkpatch: " ++ Text.stripControls
      (e.message ++ [Bytes.newline]) := by
  rw [report, List.append_assoc, Text.stripControls_append (by decide)]

theorem exitStatus_eq_one_iff (run : Run) :
    run.exitStatus = 1 ↔ ∃ result ∈ run.files, result.hasFailed = true := by
  simp [Run.exitStatus, Run.failedFiles]

theorem exitStatus_ne_two (run : Run) : run.exitStatus ≠ 2 := by
  unfold Run.exitStatus
  split <;> simp

theorem execute_tells (p : Parameters) (environment : Option Bytes)
    (stamp stdin : Bytes) (tree : FileTree) :
    (p.execute environment stamp stdin tree).Tells (logLevel p environment)
      stamp (applyPatchFile (p.settings tree) p.input stdin tree) := by
  unfold Parameters.execute
  generalize applyPatchFile (p.settings tree) p.input stdin tree = run
  cases logLevel p environment with
  | error why =>
      refine ⟨fun other =>
        ⟨fun h => .inl (congrArg Except.error (Option.some.inj h)), ?_⟩, ?_, ?_,
        fun e n hn => absurd hn (by simp)⟩
      · rintro (h | ⟨⟨n, h⟩, -⟩)
        · exact congrArg some (Except.error.inj h)
        · exact absurd h (by simp)
      · simp
      · simp
  | ok n =>
      simp only []
      split
      · next hfine =>
          refine ⟨fun other => ?_, ?_, ?_, fun e n' hn he => ?_⟩
          · simp [hfine]
          · simp [hfine, exitStatus_eq_one_iff]
          · simp [hfine, exitStatus_ne_two]
          · exact absurd (hfine.symm.trans he) (by simp)
      · next e hfatal =>
          refine ⟨fun other => ?_, ?_, ?_, fun e' n' hn he => ?_⟩
          · simp only [hfatal, Option.some.injEq]
            refine ⟨fun h => absurd h (by simp), ?_⟩
            rintro (h | ⟨-, rfl, h⟩)
            · exact absurd h (by simp)
            · exact absurd h (by simp [Failure.isFatal])
          · simp [hfatal, FatalError.exitStatus]
          · simp [hfatal, FatalError.exitStatus]
          · obtain rfl := Except.ok.inj hn
            obtain rfl : e = e' := by simpa [hfatal] using he
            rw [report_eq]
      · next why hnot hfailed =>
          have hne : ∀ e, run.failure? ≠ some (.fatal e) := by
            intro e he
            exact hnot e (Option.some.inj (hfailed.symm.trans he))
          have hwhy : why.isFatal = false := by
            unfold Failure.isFatal
            split
            · next e => exact absurd rfl (hnot e)
            · rfl
          refine ⟨fun other => ?_, ?_, ?_, fun e n' hn he => absurd he (hne e)⟩
          · simp only [hfailed, Option.some.injEq]
            refine ⟨?_, ?_⟩
            · rintro rfl
              exact .inr ⟨⟨n, rfl⟩, rfl, hwhy⟩
            · rintro (h | ⟨-, h, -⟩)
              · exact absurd h (by simp)
              · exact h
          · simp
          · simp [hne]

/-- A path that was read from the command line is fit. -/
theorem hasNull_of_set? {options : List Occurrence} {p p' : Parameters}
    {switch : Switch} (hp : ∀ path ∈ p.input, path.hasNull = false)
    (h : p.set? options switch = some p') :
    ∀ path ∈ p'.input, path.hasNull = false := by
  have hread : ∀ {text : Bytes} {path : Path}, readPath? text = some path →
      path.hasNull = false := by
    intro text path hpath
    unfold readPath? at hpath
    simp only [] at hpath
    split at hpath
    · exact absurd hpath (by simp)
    · next hfit =>
        obtain rfl := Option.some.inj hpath
        simpa using hfit
  cases switch with
  | input =>
      obtain ⟨path, hpath, rfl⟩ := Option.map_eq_some_iff.1 h
      obtain ⟨text, -, htext⟩ := Option.bind_eq_some_iff.1 hpath
      simpa using hread htext
  | strip | directory | get =>
      obtain ⟨value, -, rfl⟩ := Option.map_eq_some_iff.1 h
      exact hp
  | reverse | forward | dryRun | verbose | force | removeEmptyFiles
  | backupIfMismatch
  | noBackupIfMismatch | help =>
      obtain rfl := Option.some.inj h
      exact hp

theorem hasNull_of_readArguments {args : List Bytes} {p : Parameters}
    (h : readArguments args = .apply p) :
    ∀ path ∈ p.input, path.hasNull = false := by
  have hfold : ∀ (options occurrences : List Occurrence) (start p : Parameters),
      (∀ path ∈ start.input, path.hasNull = false) →
      occurrences.foldlM (fun p o => p.set? options o.switch) start = some p →
      ∀ path ∈ p.input, path.hasNull = false := by
    intro options occurrences
    induction occurrences with
    | nil =>
        intro start p hstart hp
        obtain rfl := Option.some.inj hp
        exact hstart
    | cons o occurrences ih =>
        intro start p hstart hp
        rw [List.foldlM_cons] at hp
        obtain ⟨next, hnext, hrest⟩ := Option.bind_eq_some_iff.1 hp
        exact ih next p (hasNull_of_set? hstart hnext) hrest
  unfold readArguments at h
  split at h
  · exact absurd h (by simp)
  · split at h
    · exact absurd h (by simp)
    · split at h
      · exact absurd h (by simp)
      · next hread =>
          split at h
          · obtain rfl := Request.apply.inj h
            exact hfold _ _ {} _ (by simp) hread
          · exact absurd h (by simp)

theorem isFatal_of_readPatch {path : Path} {tree : FileTree} {why : Failure}
    (hnull : path.hasNull = false) (h : readPatch path tree = .error why) :
    why.isFatal = true := by
  rw [readPatch, hnull] at h
  cases hread : tree.read path with
  | error e =>
      rw [hread] at h
      rw [← Except.error.inj h]
      rfl
  | ok patch =>
      rw [hread] at h
      nomatch h

/-- Whether the patch could be read makes no difference to what escapes. -/
theorem failure?_applyPatchFile_iff {p : Parameters} {stdin : Bytes}
    {tree : FileTree} {why : Failure}
    (hinput : ∀ path ∈ p.input, path.hasNull = false)
    (hwhy : why.isFatal = false) :
    (applyPatchFile (p.settings tree) p.input stdin tree).failure? = some why ↔
      (applyPatch (p.settings tree) (p.patch stdin tree) tree).failure? =
        some why := by
  unfold applyPatchFile Parameters.patch Parameters.readsStandardInput
  cases hpath : p.input with
  | none => rfl
  | some path =>
      simp only []
      split
      · rfl
      · simp only [Option.map_some, Option.getD_some]
        cases hread : readPatch path tree with
        | ok patch => rfl
        | error why' =>
            have hfatal : why'.isFatal = true :=
              isFatal_of_readPatch (hinput path hpath) hread
            have hempty : (applyPatch (p.settings tree) [] tree).failure? =
                none := by
              obtain ⟨q, hnone⟩ := Section.next_of_notes
                (p.settings tree).stripLevel
                (show (LineStream.ofBytes []).Yields [] from .inl rfl) (by simp)
              rw [applyPatch, Run.applySections_of_none hnone]
              rfl
            rw [show (Except.error why' : Except Failure Bytes).toOption.getD
              [] = [] from rfl, hempty]
            refine ⟨fun h => ?_, fun h => absurd h (by simp)⟩
            obtain rfl : why' = why := Option.some.inj h
            exact absurd (hwhy.symm.trans hfatal) (by simp)

/-- A run that is not ended by a fatal error is ended by a zero byte in the path
of a target or by a header with more digits than can be read, and by nothing
else. A command then has the status 1 although no hunk need have failed;
otherwise it has that status for failed hunks only, or for a log level that does
not exist, and it has the status 2 for the fatal errors, which are reported. -/
theorem ends_told (settings : Settings) (patch : Bytes) (tree : FileTree) :
    (∀ why, why.isFatal = false →
      ((applyPatch settings patch tree).failure? = some why ↔
      ∃ v ∈ Run.visits settings { tree, patch := .ofBytes patch },
        v.Escapes why)) ∧
    (∀ (v : Visit) (run : Hunk.OverlongRun), v.Escapes (.overlong run) →
      Hunk.digitLimit < run.digits) ∧
    ∀ (args : List Bytes) (p : Parameters) (environment : Option Bytes)
      (stamp stdin : Bytes),
      readArguments args = .apply p →
      (p.execute environment stamp stdin tree).Tells
        (logLevel p environment) stamp
          (applyPatchFile (p.settings tree) p.input stdin tree) ∧
        ∀ why, why.isFatal = false →
          ((applyPatchFile (p.settings tree) p.input stdin tree).failure? =
            some why ↔
            ∃ v ∈ Run.visits (p.settings tree)
              { tree, patch := .ofBytes (p.patch stdin tree) },
                v.Escapes why) := by
  refine ⟨fun why hwhy => applyPatch_failure?_iff settings patch tree hwhy,
    fun v run => ?_,
    fun args p environment stamp stdin hargs => ⟨?_, fun why hwhy => ?_⟩⟩
  · rintro ⟨o, -, n, line, rest, -, -, hread⟩
    exact Hunk.digitLimit_lt_of_readHeader hread
  · exact execute_tells p environment stamp stdin tree
  · rw [failure?_applyPatchFile_iff (hasNull_of_readArguments hargs) hwhy]
    exact applyPatch_failure?_iff _ _ _ hwhy

/-- A section of a file whose name ends in a zero byte. -/
def zeroNamed : Bytes :=
  Bytes.ascii "--- a/f" ++ [0] ++ Bytes.ascii "\n+++ b/f" ++ [0] ++
    Bytes.ascii "\n"

/-- The name ends the run, and the command has the status 1. -/
theorem ends_told_zeroNamed :
    (applyPatch (Parameters.settings {} .oneFile) zeroNamed .oneFile).failure? =
      some .nullByte ∧
      (Parameters.execute {} none [] zeroNamed .oneFile).status = 1 := by
  obtain ⟨hrun, -, hcommand⟩ :=
    ends_told (Parameters.settings {} .oneFile) zeroNamed .oneFile
  have hescapes := (hrun .nullByte rfl).2
    ⟨_, List.getElem_mem (show 0 < List.length _ by decide +kernel),
      show _ = true by decide +kernel⟩
  obtain ⟨htells, -⟩ := hcommand [] {} none [] zeroNamed rfl
  refine ⟨hescapes, htells.failed.2 (.inl ?_)⟩
  rw [(htells.uncaught .nullByte).2 (.inr ⟨⟨30, rfl⟩, hescapes, rfl⟩)]
  rfl

/-- Not every failure is a fatal error, and not every status 1 is a
failed hunk. -/
theorem not_forall_ends_fatal :
    (¬ ∀ (settings : Settings) (patch : Bytes) (tree : FileTree)
      (why : Failure),
      tree.WellFormed → (applyPatch settings patch tree).failure? = some why →
        why.isFatal = true) ∧
    ¬ ∀ (args : List Bytes) (p : Parameters) (stamp stdin : Bytes)
      (tree : FileTree),
      tree.WellFormed → readArguments args = .apply p →
      (p.execute none stamp stdin tree).status = 1 →
        ∃ result ∈ (applyPatchFile (p.settings tree) p.input stdin tree).files,
          result.hasFailed = true := by
  constructor
  · intro h
    exact absurd (h { directory := ⟨.working, []⟩ } zeroNamed .oneFile .nullByte
      (by decide) (by decide +kernel)) (by decide)
  · intro h
    obtain ⟨result, hresult, -⟩ :=
      h [] {} [] zeroNamed .oneFile (by decide) rfl (by decide +kernel)
    have hnone :
        (applyPatchFile (Parameters.settings {} .oneFile) none zeroNamed
          .oneFile).files =
        #[] := by decide +kernel
    rw [hnone] at hresult
    exact absurd hresult (by simp)

end CommandLine

end UnifiedPatch
