import UnifiedPatch.Event
import UnifiedPatch.Failure
import UnifiedPatch.Hunk.Body
import UnifiedPatch.LineStream
import UnifiedPatch.Settings

/-!
# Splicing hunks into a source

One file section is worked off by a machine with a few phases. It reads a
header, copies the source up to the first line of the hunk, follows the body
line by line, and looks for the next header. When there is none, the rest of
the source is copied, provided that a hunk was placed by its line number.

Source lines are numbered from one and `cursor` is the next one to be read;
`emitted` counts the lines written by hunks and the copies before them. The
body of a hunk ends where its header says: at the source line past its old
range, or with the last line of its new range. The body line met there is not
consumed, since it may be the first line of what follows: `--- name` after a
hunk starts the next section, but within one it deletes a line.

If a source line is not what the body says, the hunk has failed: what its
header still accounts for is passed over, and the next hunk is tried. When
lines may count as applied already, the body line is passed over instead.

Every step either uses up a line of the patch or goes on to a phase of lower
rank, so the machine halts (`Splice.run`).
-/

namespace UnifiedPatch

/-- A number of source lines and a number of result lines. -/
structure Tally where
  source : Nat := 0
  result : Nat := 0
  deriving DecidableEq, Repr

/-- The tally with one more line of the given role. -/
def Tally.count (t : Tally) (role : Role) : Tally :=
  { source := t.source + role.inSource.toNat
    result := t.result + role.inResult.toNat }

/-- Where the machine is. -/
inductive Phase where
  /-- before a hunk header, or at the end of the section -/
  | header
  /-- a header was read; the source lines before the hunk come next -/
  | leading (hunk : Hunk)
  /-- inside the body; both sides end at `ends`, and `seen` was met so far -/
  | body (hunk : Hunk) (ends seen : Tally)
  /-- the hunk has failed; the rest of its body is passed over -/
  | skipping (hunk : Hunk) (seen : Tally)
  /-- no header is left; the rest of the source comes next -/
  | trailing
  /-- all is done -/
  | done
  /-- the work was given up -/
  | stopped (why : Failure)
  deriving DecidableEq, Repr

namespace Phase

/-- Whether there is a next step. -/
def isLive : Phase → Bool
  | done | stopped _ => false
  | _ => true

/-- Steps that use up no line of the patch go on to a phase of lower rank. -/
def rank : Phase → Nat
  | leading _ => 4
  | body .. => 3
  | skipping .. => 3
  | header => 2
  | trailing => 1
  | done | stopped _ => 0

end Phase

/-- The machine: the patch and the source that are left, what was written, the
counters, what was said, and the phase.

* `cursor`: the number of the next source line;
* `emitted`: how many lines hunks and the copies before them have written;
* `hunks`, `failed`: how many hunks were met, and how many of them failed;
* `trailing`: how many lines the last copy took from the source;
* `flush`: whether the rest of the source is to be copied;
* `offset`: the source line at which the body of the last hunk began. -/
structure Splice where
  patch : LineStream
  source : LineStream
  written : Array Bytes := #[]
  cursor : Nat := 1
  emitted : Nat := 0
  hunks : Nat := 0
  failed : Nat := 0
  trailing : Nat := 0
  flush : Bool := false
  offset : Nat := 0
  transcript : Transcript := #[]
  phase : Phase := .header

namespace Splice

/-- The bytes written so far. -/
def output (s : Splice) : Bytes := s.written.toList.flatten

/-- How many lines the result has by the counters. -/
def produced (s : Splice) : Nat := s.emitted + s.trailing

/-- The failure that the work was given up for. -/
def failure? (s : Splice) : Option Failure :=
  match s.phase with
  | .stopped why => some why
  | _ => none

/-- The machine after it said something. -/
def say (s : Splice) (e : Event) : Splice :=
  { s with transcript := s.transcript.push e }

/-- Gives the work up. -/
def stop (s : Splice) (why : Failure) : Splice :=
  { s with phase := .stopped why }

/-- Hands a line back to the patch and goes on in `phase`. -/
def handBack (s : Splice) (patch : LineStream) (line : Line) (phase : Phase) :
    Splice :=
  match patch.unread? line with
  | some patch => { s with patch, phase }
  | none => { s with patch, phase := .stopped .alreadyHeld }

/-- Reads a header, if the next line is one. -/
def stepHeader (settings : Settings) (s : Splice) : Splice :=
  match s.patch.next? with
  | none => { s with phase := .trailing }
  | some (line, patch) =>
      match Hunk.readHeader line with
      | .error run => { s with patch, phase := .stopped (.overlong run) }
      | .ok none => s.handBack patch line .trailing
      | .ok (some hunk) =>
          { s with
            patch
            hunks := s.hunks + 1
            phase := .leading (if settings.reverse then hunk.swap else hunk) }

/-- Goes into the body of a hunk from where the two sides stand. -/
def enterBody (s : Splice) (hunk : Hunk) : Splice :=
  { s with
    offset := s.cursor
    phase := .body hunk
      { source := s.cursor + hunk.old.count
        result := s.emitted + hunk.new.count } {} }

/-- Copies the source up to the first line of a hunk. A hunk of a file that is
created or deleted whole has no place, and nothing is copied for it. -/
def stepLeading (name : Bytes) (hunk : Hunk) (s : Splice) : Splice :=
  if hunk.wholeFile then s.enterBody hunk
  else if hunk.old.start < s.cursor then
    s.stop
      (.fatal
        (.invalidPatch (.hunkBehind s.hunks hunk.old.start s.cursor) none))
  else
    let count := hunk.old.start - s.cursor
    let copy := s.source.copy (some count)
    let copied :=
      { s with source := copy.rest, written := s.written ++ copy.lines }
    if copy.missing = 0 then
      { copied with
        cursor := s.cursor + count, emitted := s.emitted + count,
          flush := true }.enterBody hunk
    else
      (copied.say (.remark (.sourceExhausted copy.missing))).stop
        (.fatal (.badSource name copy.missing))

/-- Writes the content of a body line, unless the new range of the hunk is
complete: then the line is handed back and the hunk is done. -/
def emit (s : Splice) (patch : LineStream) (b : BodyLine) (ends : Tally) :
    Splice :=
  if s.emitted = ends.result then s.handBack patch b.text .header
  else
    { s with
      patch
      written := s.written.push b.content
      emitted := s.emitted + 1 }

/-- Follows one line of a body. -/
def stepBody (settings : Settings) (name : Bytes) (hunk : Hunk)
    (ends seen : Tally) (s : Splice) : Splice :=
  match s.patch.next? with
  | none => { s with phase := .header }
  | some (line, patch) =>
      match BodyLine.ofLine? settings.reverse line with
      | none => s.handBack patch line .header
      | some b =>
          let seen := seen.count b.role
          if b.role = .insertion then
            { s with phase := .body hunk ends seen }.emit patch b ends
          else if s.cursor = ends.source then s.handBack patch b.text .header
          else
            let read := s.source.next?
            let s :=
              match read with
              | none => s
              | some (_, source) => { s with source, cursor := s.cursor + 1 }
            if read.map Prod.fst = some b.content then
              let s := { s with phase := .body hunk ends seen }
              if b.role = .deletion then { s with patch }
              else s.emit patch b ends
            else if settings.skipApplied then
              { s with patch, phase := .body hunk ends seen }.say
                (.remark (.lineSkipped name s.hunks))
            else { s with patch, phase := .skipping hunk seen }

/-- Counts a hunk as failed and goes on to the next header. -/
def fail (s : Splice) : Splice :=
  { s with failed := s.failed + 1, phase := .header }.say
    (.notice (.hunkFailed s.hunks s.offset))

/-- Hands a line back to the patch and counts the hunk as failed. -/
def failAt (s : Splice) (patch : LineStream) (line : Line) : Splice :=
  match patch.unread? line with
  | some patch => { s with patch }.fail
  | none => { s with patch, phase := .stopped .alreadyHeld }

/-- Passes over one line of the body of a failed hunk. -/
def stepSkipping (settings : Settings) (hunk : Hunk) (seen : Tally)
    (s : Splice) : Splice :=
  match s.patch.next? with
  | none => s.fail
  | some (line, patch) =>
      match BodyLine.ofLine? settings.reverse line with
      | none => s.failAt patch line
      | some b =>
          let seen := seen.count b.role
          if hunk.old.count < seen.source || hunk.new.count < seen.result then
            s.failAt patch b.text
          else { s with patch, phase := .skipping hunk seen }

/-- Copies the rest of the source, if it is to be copied, and ends the work. -/
def stepTrailing (name : Bytes) (s : Splice) : Splice :=
  let copied :=
    if s.flush then
      let copy := s.source.copy none
      { s with
        source := copy.rest
        written := s.written ++ copy.lines
        trailing := copy.rest.taken - s.source.taken }
    else s
  { copied with phase := .done }.say
    (.remark (.hunksDone name s.hunks s.failed copied.produced))

/-- One step of the machine. -/
def step (settings : Settings) (name : Bytes) (s : Splice) : Splice :=
  match s.phase with
  | .header => s.stepHeader settings
  | .leading hunk => s.stepLeading name hunk
  | .body hunk ends seen => s.stepBody settings name hunk ends seen
  | .skipping hunk seen => s.stepSkipping settings hunk seen
  | .trailing => s.stepTrailing name
  | .done | .stopped _ => s

/-! ## The machine halts -/

/-- What every step makes smaller. -/
def variant (s : Splice) : Nat := 5 * s.patch.ready.length + s.phase.rank

@[simp] theorem patch_say (s : Splice) (e : Event) :
    (s.say e).patch = s.patch := rfl

@[simp] theorem phase_say (s : Splice) (e : Event) :
    (s.say e).phase = s.phase := rfl

theorem variant_handBack_le {s : Splice} {patch : LineStream} {line : Line}
    {phase : Phase} :
    (s.handBack patch line phase).variant ≤
      5 * (patch.ready.length + 1) + phase.rank := by
  unfold handBack variant
  split
  · next h =>
      have := LineStream.length_ready_of_unread? h
      simp only [this]
      omega
  · simp only [Phase.rank]
    omega

theorem variant_stepHeader_lt (settings : Settings) {s : Splice}
    (h : s.phase = .header) :
    (s.stepHeader settings).variant < s.variant := by
  unfold stepHeader
  split
  · simp [variant, h, Phase.rank]
  · next line patch hn =>
      have hl := LineStream.length_ready_of_next? hn
      split
      · simp only [variant, h, Phase.rank]
        omega
      · have := @variant_handBack_le s patch line .trailing
        simp only [variant, h, Phase.rank] at this ⊢
        omega
      · simp only [variant, h, Phase.rank]
        omega

theorem variant_stepLeading_lt (name : Bytes) {hunk : Hunk} {s : Splice}
    (h : s.phase = .leading hunk) :
    (s.stepLeading name hunk).variant < s.variant := by
  unfold stepLeading
  split
  · simp [enterBody, variant, h, Phase.rank]
  · split
    · simp [stop, variant, h, Phase.rank]
    · simp only []
      split
      · simp [enterBody, variant, h, Phase.rank]
      · simp [stop, say, variant, h, Phase.rank]

theorem variant_emit_lt {s : Splice} {patch : LineStream} {b : BodyLine}
    {ends : Tally} (h : s.phase.rank ≤ 3) :
    (s.emit patch b ends).variant < 5 * (patch.ready.length + 1) + 3 := by
  unfold emit
  split
  · have := @variant_handBack_le s patch b.text .header
    simp only [Phase.rank] at this
    omega
  · simp only [variant]
    omega

theorem variant_stepBody_lt (settings : Settings) (name : Bytes) {hunk : Hunk}
    {ends seen : Tally} {s : Splice} (h : s.phase = .body hunk ends seen) :
    (s.stepBody settings name hunk ends seen).variant < s.variant := by
  have hs : s.variant = 5 * s.patch.ready.length + 3 := by
    simp [variant, h, Phase.rank]
  rw [hs]
  unfold stepBody
  split
  · simp [variant, Phase.rank]
  · next line patch hn =>
      have hl := LineStream.length_ready_of_next? hn
      rw [← hl]
      split
      · have := @variant_handBack_le s patch line .header
        simp only [Phase.rank] at this
        omega
      · next b _ =>
          simp only []
          split
          · exact variant_emit_lt (by simp [Phase.rank])
          · split
            · have := @variant_handBack_le s patch b.text .header
              simp only [Phase.rank] at this
              omega
            · split
              · split
                · simp only [variant, Phase.rank]
                  omega
                · exact variant_emit_lt (by simp [Phase.rank])
              · split
                · simp only [variant, patch_say, phase_say, Phase.rank]
                  omega
                · simp only [variant, Phase.rank]
                  omega

theorem variant_failAt_lt {s : Splice} {patch : LineStream} {line : Line} :
    (s.failAt patch line).variant < 5 * (patch.ready.length + 1) + 3 := by
  unfold failAt
  split
  · next h =>
      have := LineStream.length_ready_of_unread? h
      simp only [fail, variant, patch_say, phase_say, Phase.rank]
      omega
  · simp only [variant, Phase.rank]
    omega

theorem variant_stepSkipping_lt (settings : Settings) {hunk : Hunk}
    {seen : Tally} {s : Splice} (h : s.phase = .skipping hunk seen) :
    (s.stepSkipping settings hunk seen).variant < s.variant := by
  have hs : s.variant = 5 * s.patch.ready.length + 3 := by
    simp [variant, h, Phase.rank]
  rw [hs]
  unfold stepSkipping
  split
  · simp [fail, variant, Phase.rank]
  · next line patch hn =>
      have hl := LineStream.length_ready_of_next? hn
      rw [← hl]
      split
      · exact variant_failAt_lt
      · simp only []
        split
        · exact variant_failAt_lt
        · simp only [variant, Phase.rank]
          omega

theorem variant_stepTrailing_lt (name : Bytes) {s : Splice}
    (h : s.phase = .trailing) :
    (s.stepTrailing name).variant < s.variant := by
  unfold stepTrailing
  simp only []
  split <;> simp [variant, h, Phase.rank]

theorem variant_step_lt (settings : Settings) (name : Bytes) {s : Splice}
    (h : s.phase.isLive = true) :
    (s.step settings name).variant < s.variant := by
  unfold step
  split
  · next hp => exact variant_stepHeader_lt settings hp
  · next hp => exact variant_stepLeading_lt name hp
  · next hp => exact variant_stepBody_lt settings name hp
  · next hp => exact variant_stepSkipping_lt settings hp
  · next hp => exact variant_stepTrailing_lt name hp
  · next hp => simp [hp, Phase.isLive] at h
  · next hp => simp [hp, Phase.isLive] at h

/-- The machine at its end. -/
def run (settings : Settings) (name : Bytes) (s : Splice) : Splice :=
  if s.phase.isLive then run settings name (s.step settings name) else s
termination_by s.variant
decreasing_by exact variant_step_lt settings name (by assumption)

/-- The machine before the first step on a patch and a source. -/
def start (patch source : LineStream) : Splice := { patch, source }

theorem variant_run_le (settings : Settings) (name : Bytes) (s : Splice) :
    (s.run settings name).variant ≤ s.variant := by
  fun_induction run settings name s with
  | case1 s h ih =>
      exact Nat.le_trans ih (Nat.le_of_lt (variant_step_lt settings name h))
  | case2 => exact Nat.le_refl _

/-- A run hands on no more lines of the patch than it was given. -/
theorem length_patch_run_start_le (settings : Settings) (name : Bytes)
    (patch source : LineStream) :
    ((start patch source).run settings name).patch.ready.length ≤
      patch.ready.length := by
  have h := variant_run_le settings name (start patch source)
  simp only [variant, start, Phase.rank] at h
  simp only [start]
  omega

end Splice

end UnifiedPatch
