import UnifiedPatch.Proofs.RunFailures
import UnifiedPatch.Proofs.SectionMarks

/-!
# What a run reports

Three parts of a run talk to the user. The run says which file is patched, the
machine says of each hunk that failed, when it gives the hunk up, and the
settling says how many of them there were. What they say agrees, because they go
by the same counters. The machine names a hunk by the number of hunks met and
the line where its body began, and the first has grown by one for each hunk
before it, while the second is a cursor that never goes back (`Recorded`).

So a run that is not given up is reported section by section, and its
results, its notices and its exit status are three readings of one
list (`exists_reports_of_returned`).
-/

namespace UnifiedPatch

/-! ## Failed hunks in order -/

/-- A hunk that failed: its number, and the line at which its body began. -/
structure FailedHunk where
  number : Nat
  line : Nat
  deriving DecidableEq, Repr

/-- What a user is told of a failed hunk. -/
def FailedHunk.notice (f : FailedHunk) : Notice := .hunkFailed f.number f.line

/-- Failed hunks in the order of the patch, among the first `met` hunks and the
first `line` lines. -/
structure InOrder (failures : List FailedHunk) (met line : Nat) : Prop where
  numbers : failures.Pairwise fun f g => f.number < g.number
  lines : failures.Pairwise fun f g => f.line ≤ g.line
  bounds : ∀ f ∈ failures, 1 ≤ f.number ∧ f.number ≤ met ∧ 1 ≤ f.line ∧
    f.line ≤ line

namespace InOrder

variable {failures : List FailedHunk} {met met' line line' : Nat}

theorem mono (h : InOrder failures met line) (hmet : met ≤ met')
    (hline : line ≤ line') :
    InOrder failures met' line' := by
  refine ⟨h.numbers, h.lines, fun f hf => ?_⟩
  obtain ⟨hpos, hnumber, hpos', hle⟩ := h.bounds f hf
  exact ⟨hpos, Nat.le_trans hnumber hmet, hpos', Nat.le_trans hle hline⟩

/-- The next hunk fails. -/
theorem snoc (h : InOrder failures met line) (hpos : 1 ≤ line) :
    InOrder (failures ++ [⟨met + 1, line⟩]) (met + 1) line where
  numbers := by
    refine List.pairwise_append.2 ⟨h.numbers, List.pairwise_singleton _ _,
      fun f hf g hg => ?_⟩
    rw [List.mem_singleton.1 hg]
    exact Nat.lt_succ_of_le (h.bounds f hf).2.1
  lines := by
    refine List.pairwise_append.2 ⟨h.lines, List.pairwise_singleton _ _,
      fun f hf g hg => ?_⟩
    rw [List.mem_singleton.1 hg]
    exact (h.bounds f hf).2.2.2
  bounds f hf := by
    rcases List.mem_append.1 hf with hold | hnew
    · exact (h.mono (Nat.le_succ met) (Nat.le_refl line)).bounds f hold
    · rw [List.mem_singleton.1 hnew]
      exact ⟨Nat.succ_pos met, Nat.le_refl _, hpos, Nat.le_refl _⟩

end InOrder

/-! ## The machine -/

namespace Splice

variable {settings : Settings} {name : Bytes} {failures : List FailedHunk}
  {s s' : Splice}

/-- The line before which no further hunk can fail: where the body began that
the machine is in, or the next line of the source. -/
def reached (s : Splice) : Nat :=
  match s.phase with
  | .body .. | .skipping .. => s.offset
  | _ => s.cursor

/-- What the machine has said to the user so far: of each failed hunk, and
in order. -/
structure Recorded (failures : List FailedHunk) (s : Splice) : Prop where
  notices : s.transcript.notices = failures.map FailedHunk.notice
  count : failures.length = s.failed
  ordered : ∃ met, met + s.phase.pending = s.hunks ∧
    InOrder failures met s.reached
  reached_pos : 1 ≤ s.reached
  reached_le : s.reached ≤ s.cursor

theorem recorded_start (patch source : LineStream) :
    Recorded [] (start patch source) where
  notices := rfl
  count := rfl
  ordered := ⟨0, rfl, .nil, .nil, by simp⟩
  reached_pos := Nat.le_refl 1
  reached_le := Nat.le_refl 1

/-- A step that says nothing to the user. The line reached stays, or the cursor
takes its place. -/
theorem Recorded.keep (h : Recorded failures s) (hmove : Upto s s')
    (hnotices : s'.transcript.notices = s.transcript.notices)
    (hfailed : s'.failed = s.failed)
    (hmet : s.hunks + s'.phase.pending ≤ s'.hunks + s.phase.pending)
    (hreached : s'.reached = s.reached ∨ s'.reached = s'.cursor) :
    Recorded failures s' := by
  obtain ⟨met, hcount, hordered⟩ := h.ordered
  have hpos := h.reached_pos
  have hle := h.reached_le
  have hcursor := hmove.cursor
  refine ⟨hnotices.trans h.notices, h.count.trans hfailed.symm,
    ⟨s'.hunks - s'.phase.pending, by omega,
      hordered.mono (by omega) (by omega)⟩, ?_, ?_⟩
  · omega
  · omega

/-- A hunk is given up. -/
theorem Recorded.fail (h : Recorded failures s) {hunk : Hunk} {seen : Tally}
    (phase : s.phase = .skipping hunk seen) :
    Recorded (failures ++ [⟨s.hunks, s.offset⟩]) s.fail := by
  obtain ⟨met, hcount, hordered⟩ := h.ordered
  have hpos := h.reached_pos
  have hle := h.reached_le
  simp only [reached, phase, Phase.pending] at hcount hordered hpos hle
  refine ⟨?_, ?_, ⟨s.hunks, rfl, ?_⟩, Nat.le_trans hpos hle, Nat.le_refl _⟩
  · rw [Splice.fail, say, Transcript.notices_push_notice, h.notices,
      List.map_append]
    rfl
  · rw [List.length_append, h.count]
    rfl
  · rw [← hcount]
    exact (hordered.snoc hpos).mono (Nat.le_refl _) hle

theorem Recorded.move (h : Recorded failures s)
    (hmove : Move settings name s s') :
    ∃ failures', Recorded failures' s' := by
  have hupto := hmove.upto
  cases hmove with
  | @skippingLeft hunk seen p phase back line =>
      have hback : Recorded failures { s with patch := p } :=
        h.keep ⟨Nat.le_refl _, Nat.le_refl _, Nat.le_refl _⟩ rfl rfl
          (Nat.le_refl _) (.inl rfl)
      exact ⟨_, hback.fail phase⟩
  | noHeader phase | overlong phase | header phase | whole phase | behind phase
  | copied phase
  | bodyLeft phase | contextLeft phase =>
      exact ⟨failures,
        h.keep hupto rfl rfl (by simp [phase, enterBody, stop, Phase.pending])
        (.inr rfl)⟩
  | inserted phase | deleted phase | kept phase | missed phase
  | skipped phase =>
      exact ⟨failures, h.keep hupto rfl rfl (by simp [phase, Phase.pending])
        (.inl (by simp [phase, reached]))⟩
  | passed phase =>
      exact ⟨failures, h.keep hupto (Transcript.notices_push_remark _ _) rfl
        (by simp [phase, say, Phase.pending])
        (.inl (by simp [phase, say, reached]))⟩
  | short phase | flushed phase | dropped phase =>
      exact ⟨failures, h.keep hupto (Transcript.notices_push_remark _ _) rfl
        (by simp [phase, say, stop, Phase.pending]) (.inr rfl)⟩

theorem exists_recorded_steps (settings : Settings) (name : Bytes)
    (h : Recorded failures s) (n : Nat) :
    ∃ failures', Recorded failures' (s.steps settings name n) := by
  induction n with
  | zero => exact ⟨failures, h⟩
  | succ n ih =>
      obtain ⟨before, hbefore⟩ := ih
      rw [steps_succ]
      rcases step_eq_or_move settings name (s.steps settings name n) with
        hsame | hmove
      · rw [hsame]
        exact ⟨before, hbefore⟩
      · exact hbefore.move hmove

/-- At its end the machine has told the user of its failed hunks in order, and
of nothing else. -/
theorem exists_inOrder_run (settings : Settings) (name : Bytes)
    (patch source : LineStream) :
    ∃ failures line,
      InOrder failures ((start patch source).run settings name).hunks line ∧
      failures.length = ((start patch source).run settings name).failed ∧
      ((start patch source).run settings name).transcript.notices =
        failures.map FailedHunk.notice := by
  obtain ⟨n, hn⟩ := exists_steps_eq_run settings name (start patch source)
  obtain ⟨failures, h⟩ :=
    exists_recorded_steps settings name (recorded_start patch source) n
  rw [← hn] at h
  obtain ⟨met, hcount, hordered⟩ := h.ordered
  exact ⟨failures, _, hordered.mono (by omega) (Nat.le_refl _), h.count,
    h.notices⟩

end Splice

/-! ## The sections -/

/-- What a section reports: the name of its file, its failed hunks, as
many of them as it counts and in order among the hunks that it counts, and
its result. -/
structure SectionReport where
  name : Bytes
  failures : List FailedHunk
  result : FileResult
  failed : result.failed = failures.length
  ordered : ∃ hunks line, result.hunks = (hunks : Nat) ∧
    InOrder failures hunks line

namespace SectionReport

/-- The report as it is told: the file, each failed hunk, and their number if
there are any. -/
def notices (report : SectionReport) : List Notice :=
  .patchingFile report.name :: (report.failures.map FailedHunk.notice ++
    if 0 < report.result.failed then [.fileFailed report.result.failed
      report.result.hunks]
    else [])

/-- A failed hunk is told exactly if the result says that one failed. -/
theorem exists_hunkFailed_iff (report : SectionReport) :
    (∃ number line, .hunkFailed number line ∈ report.notices) ↔
      report.result.hasFailed = true := by
  have hlength := report.failed
  simp only [FileResult.hasFailed, decide_eq_true_eq]
  constructor
  · rintro ⟨number, line, hmem⟩
    obtain ⟨f, hf, -⟩ :
        ∃ f ∈ report.failures, f.notice = .hunkFailed number line := by
      simp only [notices] at hmem
      split at hmem <;> simpa using hmem
    have hpos := List.length_pos_of_mem hf
    omega
  · intro hpos
    obtain ⟨f, hf⟩ :=
      List.exists_mem_of_length_pos (l := report.failures) (by omega)
    refine ⟨f.number, f.line,
      List.mem_cons_of_mem _ (List.mem_append_left _ ?_)⟩
    exact List.mem_map_of_mem hf

end SectionReport

/-- Whether a notice tells of a file. -/
def Notice.isPatchingFile : Notice → Bool
  | patchingFile _ => true
  | _ => false

theorem SectionReport.countP_isPatchingFile (report : SectionReport) :
    report.notices.countP Notice.isPatchingFile = 1 := by
  have hfailures :
      (report.failures.map FailedHunk.notice).countP Notice.isPatchingFile =
        0 := by
    simp [List.countP_eq_zero, FailedHunk.notice, Notice.isPatchingFile]
  rw [notices, List.countP_cons_of_pos (by rfl), List.countP_append, hfailures]
  split <;> rfl

namespace Run

open Target

variable {settings : Settings} {name : Bytes} {r : Run}

/-- A section that does not fail adds its report. -/
theorem exists_report_of_fine
    (hfine : (r.applySection settings name).failure? = none) :
    ∃ report : SectionReport, report.name = name ∧
      report.result.path = settings.directory.join name ∧
      (r.applySection settings name).said.notices =
        r.said.notices ++ report.notices ∧
      (r.applySection settings name).files = r.files.push report.result := by
  obtain ⟨o, hopen⟩ := exists_open_of_fine hfine
  obtain ⟨hdone, -, -, -, hfiles⟩ := settled_of_fine hopen rfl rfl hfine
  have hsaid := notices_of_fine hopen rfl hdone
  obtain ⟨failures, line, hordered, hcount, htold⟩ :=
    Splice.exists_inOrder_run settings name r.patch o.source
  generalize (Splice.start r.patch o.source).run settings name = work at *
  obtain ⟨backup, deleted, hresult⟩ := result_settle settings o.target
    (spliced o.target work)
    (o.close work.output (acquire settings name r.tree).tree)
  refine ⟨⟨name, failures,
    { spliced o.target work with backup := backup, deleted := deleted }, ?_,
    work.hunks, line, rfl, hordered⟩, rfl, path_acquire hopen, ?_, ?_⟩
  · exact congrArg Nat.cast hcount.symm
  · rw [hsaid, told, htold]
    simp [SectionReport.notices, spliced]
  · rw [hfiles, hresult]

/-- A run that is not given up adds the reports of the sections that it
comes to. -/
theorem exists_reports_of_returned
    (hfine : (r.applySections settings).failure? = none) :
    ∃ reports : List SectionReport,
      (r.applySections settings).said.notices =
        r.said.notices ++ reports.flatMap SectionReport.notices ∧
      (r.applySections settings).files.toList =
        r.files.toList ++ reports.map SectionReport.result ∧
      reports.map SectionReport.name = (r.visits settings).map Visit.name ∧
      ∀ report ∈ reports,
        report.result.path = settings.directory.join report.name := by
  induction r, hfine using returned_induction settings with
  | ended r p hfine hvisits hrun =>
      rw [hvisits, hrun]
      exact ⟨[], Transcript.notices_append _ _, by simp [Run.say], rfl, by simp⟩
  | more r v p hfine hmore hv hvisits hrun hafter ih =>
      obtain ⟨report, hname, hpath, hsaid, hfiles⟩ :=
        exists_report_of_fine hafter
      obtain ⟨reports, hsaids, hfiless, hnames, hpaths⟩ := ih
      have hentered : v.before.said.notices = r.said.notices := by
        rw [← hv, entering, Run.say, Transcript.notices_append]
        exact List.append_nil _
      have hbefore : v.before.files = r.files := by rw [← hv]; rfl
      rw [hentered] at hsaid
      rw [hbefore] at hfiles
      refine ⟨report :: reports, ?_, ?_, ?_, ?_⟩
      · rw [hrun, hsaids, Visit.after, hsaid, List.flatMap_cons,
          List.append_assoc]
      · rw [hrun, hfiless, Visit.after, hfiles, Array.toList_push,
          List.map_cons, List.append_assoc]
        rfl
      · rw [hvisits, List.map_cons, List.map_cons, hnames, hname]
      · rw [List.forall_mem_cons]
        refine ⟨?_, hpaths⟩
        rw [hname, hpath, ← hv]

end Run

/-- A run that is not given up is told section by section, in the order in which
it comes to them. It tells the name of the file, then of each hunk that failed,
by numbers that increase up to the number of hunks and lines that do not go
back, and then, if there are any such hunks, how many of how many. It has a
result for each file that it tells of, with the same counts, and its exit status
is 1 if it told of a failed hunk and 0 if not. -/
theorem applyPatch_reports (settings : Settings) (patch : Bytes)
    (tree : FileTree)
    (hfine : (applyPatch settings patch tree).failure? = none) :
    (∃ reports : List SectionReport,
      (applyPatch settings patch tree).said.notices =
        reports.flatMap SectionReport.notices ∧
      (applyPatch settings patch tree).files.toList =
        reports.map SectionReport.result ∧
      reports.map SectionReport.name =
        (Run.visits settings { tree, patch := .ofBytes patch }).map Visit.name ∧
      ∀ report ∈ reports,
        report.result.path = settings.directory.join report.name) ∧
    (applyPatch settings patch tree).files.size =
      (applyPatch settings patch tree).said.notices.countP
        Notice.isPatchingFile ∧
    ((applyPatch settings patch tree).exitStatus = 1 ↔
      ∃ number line, .hunkFailed number
        line ∈ (applyPatch settings patch tree).said.notices) ∧
    ((applyPatch settings patch tree).exitStatus = 0 ↔
      ¬ ∃ number line,
        .hunkFailed number
          line ∈ (applyPatch settings patch tree).said.notices) := by
  obtain ⟨reports, hsaid, hfiles, hnames, hpaths⟩ :=
    Run.exists_reports_of_returned hfine
  change (applyPatch settings patch tree).said.notices =
    reports.flatMap _ at hsaid
  change (applyPatch settings patch tree).files.toList = reports.map _ at hfiles
  have hstatus : (applyPatch settings patch tree).exitStatus = 1 ↔
      ∃ number line, .hunkFailed number
        line ∈ (applyPatch settings patch tree).said.notices := by
    rw [CommandLine.exitStatus_eq_one_iff, hsaid]
    constructor
    · rintro ⟨result, hresult, hfailed⟩
      rw [Array.mem_def, hfiles] at hresult
      obtain ⟨report, hreport, rfl⟩ := List.mem_map.1 hresult
      obtain ⟨number, line, hmem⟩ := report.exists_hunkFailed_iff.2 hfailed
      exact ⟨number, line, List.mem_flatMap.2 ⟨report, hreport, hmem⟩⟩
    · rintro ⟨number, line, htold⟩
      obtain ⟨report, hreport, hmem⟩ := List.mem_flatMap.1 htold
      refine ⟨report.result, ?_,
        report.exists_hunkFailed_iff.1 ⟨number, line, hmem⟩⟩
      rw [Array.mem_def, hfiles]
      exact List.mem_map_of_mem hreport
  refine ⟨⟨reports, hsaid, hfiles, hnames, hpaths⟩, ?_, hstatus, ?_⟩
  · rw [← Array.length_toList, hfiles, hsaid, List.countP_flatMap]
    simp [Function.comp_def, SectionReport.countP_isPatchingFile,
      List.map_const']
  · rw [← hstatus]
    unfold Run.exitStatus
    split <;> simp

/-- A hunk that is missed, and a file that is made. -/
def missedThenMade : Bytes := Bytes.ascii
  "--- a/f\n+++ b/f\n@@ -1 +1 @@\n-z\n+b\n--- a/g\n+++ b/g\n@@ -0,0 +1 @@\n+n\n"

/-- The run goes on behind the hunk that was missed, and its status
remembers it. -/
theorem applyPatch_reports_missedThenMade :
    (∃ reports : List SectionReport,
      reports.map SectionReport.name = [Bytes.ascii "f", Bytes.ascii "g"] ∧
      reports.flatMap SectionReport.notices =
        [.patchingFile (Bytes.ascii "f"), .hunkFailed 1 1, .fileFailed 1 1,
          .patchingFile (Bytes.ascii "g")]) ∧
    (applyPatch { directory := ⟨.working, []⟩ } missedThenMade
      .oneFile).exitStatus = 1 := by
  obtain ⟨⟨reports, hsaid, -, hnames, -⟩, -, hstatus, -⟩ :=
    applyPatch_reports { directory := ⟨.working, []⟩ } missedThenMade .oneFile
      (by decide +kernel)
  refine ⟨⟨reports, ?_, ?_⟩, hstatus.2 ⟨1, 1, by decide +kernel⟩⟩
  · rw [hnames]
    decide +kernel
  · rw [← hsaid]
    decide +kernel

end UnifiedPatch
