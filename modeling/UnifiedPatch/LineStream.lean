import UnifiedPatch.Bytes

/-!
# Lines, and a stream of them with one line of hand-back

A byte string falls into lines after each newline; the newline belongs to its
line, and only the last line may lack one. Concatenating the lines gives the
bytes back (`flatten_lines`), no line is empty (`ne_nil_of_mem_lines`).

A `LineStream` is read from the front. A reader that has taken a line it does
not own hands it back, and the next reader gets it first; one line at a time
can be handed back. `taken` counts the lines that came out of the stream, a
line handed back and read again only once. The view of a stream is `ready`, the
list of lines that can still be read.
-/

namespace UnifiedPatch

/-- A line with its terminator. -/
abbrev Line := Bytes

/-- The lines of a byte string. -/
def Bytes.lines : Bytes → List Line
  | [] => []
  | b :: s =>
      if b = Bytes.newline then [b] :: lines s
      else
        match lines s with
        | [] => [[b]]
        | line :: more => (b :: line) :: more

theorem Bytes.flatten_lines (s : Bytes) : s.lines.flatten = s := by
  induction s with
  | nil => rfl
  | cons b s ih =>
      unfold lines
      split
      · simp [ih]
      · split
        · next h =>
            rw [h] at ih
            simp_all
        · next h =>
            rw [h] at ih
            simpa using ih

theorem Bytes.ne_nil_of_mem_lines {s : Bytes} {line : Line}
    (h : line ∈ s.lines) :
    line ≠ [] := by
  induction s generalizing line with
  | nil => simp [lines] at h
  | cons b s ih =>
      unfold lines at h
      split at h
      · rcases List.mem_cons.1 h with rfl | h
        · simp
        · exact ih h
      · split at h
        · rw [List.mem_singleton.1 h]
          simp
        · next hs =>
            rcases List.mem_cons.1 h with rfl | h
            · simp
            · exact ih (by rw [hs]; exact List.mem_cons_of_mem _ h)

/-- A stream of lines: those still to be read, whether the first of them was
handed back, and how many lines have been taken out. -/
structure LineStream where
  ready : List Line
  held : Bool := false
  taken : Nat := 0
  deriving DecidableEq

namespace LineStream

/-- The lines of a byte string, none of them read yet. -/
def ofBytes (s : Bytes) : LineStream := { ready := s.lines }

/-- The stream of a file that does not exist. -/
def empty : LineStream := { ready := [] }

/-- The next line and the stream after it. -/
def next? (s : LineStream) : Option (Line × LineStream) :=
  match s.ready with
  | [] => none
  | line :: ready =>
      some (line, { ready, taken := if s.held then s.taken else s.taken + 1 })

/-- Hands a line back; refused while another one is handed back already. -/
def unread? (s : LineStream) (line : Line) : Option LineStream :=
  if s.held then none
  else some { s with ready := line :: s.ready, held := true }

/-- Up to `n` lines and the stream after them. -/
def takeLines : Nat → LineStream → List Line × LineStream
  | 0, s => ([], s)
  | n + 1, s =>
      match s.next? with
      | none => ([], s)
      | some (line, rest) =>
          (line :: (takeLines n rest).1, (takeLines n rest).2)

/-- All lines and the exhausted stream. -/
def drain (s : LineStream) : List Line × LineStream :=
  takeLines s.ready.length s

/-- A copy of lines out of a stream: the lines, the stream after them, and how
many of the lines asked for were not there. -/
structure Copy where
  lines : List Line
  rest : LineStream
  missing : Int

/-- Copies the number of lines asked for, or all of them if no number is given.
A negative number asks for nothing and is missing as a whole. -/
def copy (s : LineStream) : Option Int → Copy
  | none => { lines := s.drain.1, rest := s.drain.2, missing := 0 }
  | some n =>
      let got := takeLines n.toNat s
      { lines := got.1, rest := got.2, missing := n - got.1.length }

/-! ## What reading and handing back do to the view -/

@[simp] theorem ready_ofBytes (s : Bytes) : (ofBytes s).ready = s.lines := rfl

theorem next?_eq_none_iff {s : LineStream} : s.next? = none ↔ s.ready = [] := by
  unfold next?
  split <;> simp_all

theorem ready_of_next? {s rest : LineStream} {line : Line}
    (h : s.next? = some (line, rest)) : s.ready = line :: rest.ready := by
  unfold next? at h
  split at h
  · simp at h
  · next hs =>
      injection h with h
      injection h with hl hr
      rw [hs, hl, ← hr]

/-- After a line was read nothing is held, so it can be handed back. -/
theorem held_of_next? {s rest : LineStream} {line : Line}
    (h : s.next? = some (line, rest)) : rest.held = false := by
  unfold next? at h
  split at h
  · simp at h
  · injection h with h
    injection h with hl hr
    rw [← hr]

theorem ready_of_unread? {s rest : LineStream} {line : Line}
    (h : s.unread? line = some rest) : rest.ready = line :: s.ready := by
  unfold unread? at h
  split at h
  · simp at h
  · injection h with h
    rw [← h]

theorem length_ready_of_next? {s rest : LineStream} {line : Line}
    (h : s.next? = some (line, rest)) :
    rest.ready.length + 1 = s.ready.length := by
  simp [ready_of_next? h]

theorem length_ready_of_unread? {s rest : LineStream} {line : Line}
    (h : s.unread? line = some rest) :
    rest.ready.length = s.ready.length + 1 := by
  simp [ready_of_unread? h]

theorem takeLines_eq (n : Nat) (s : LineStream) :
    (takeLines n s).1 = s.ready.take n ∧
    (takeLines n s).2.ready = s.ready.drop n := by
  induction n generalizing s with
  | zero => simp [takeLines]
  | succ n ih =>
      unfold takeLines
      split
      · next h =>
          have := next?_eq_none_iff.1 h
          simp [this]
      · next h =>
          have hr := ready_of_next? h
          simp [ih, hr]

theorem drain_eq (s : LineStream) :
    s.drain.1 = s.ready ∧ s.drain.2.ready = [] := by
  have h := takeLines_eq s.ready.length s
  simpa [drain] using h

end LineStream

end UnifiedPatch
