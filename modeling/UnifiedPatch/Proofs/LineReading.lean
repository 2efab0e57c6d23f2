import UnifiedPatch.LineStream

/-!
# Lines of a text that was put together, and streams read some way in

A patch is a text before it is a list of lines, and the statements about hunks
begin with the text: header and body lines one after another, then whatever
follows. Cutting such a text gives its lines back as soon as each of them ends
in its only newline. What follows may lack one, and it is cut on its own
(`lines_flatten_append`).

A reader that knows how many lines it has taken is where `skip` says. Two
readings in a row are one (`skip_skip`), and skipping is all that a reading
does to a stream besides handing out its lines (`next?_eq_skip`), so a run
over many lines is described by one number and not by a chain of streams.
-/

namespace UnifiedPatch

/-- A line that ends in its only newline. -/
def Line.Terminated (line : Line) : Prop :=
  line.getLast? = some Bytes.newline ∧ Bytes.newline ∉ line.dropLast

instance (line : Line) : Decidable line.Terminated :=
  inferInstanceAs (Decidable (_ ∧ _))

theorem Line.Terminated.eq_append {line : Line} (h : line.Terminated) :
    ∃ text : Bytes, Bytes.newline ∉ text ∧ line = text ++ [Bytes.newline] := by
  obtain ⟨hlast, hrest⟩ := h
  obtain ⟨text, rfl⟩ := List.getLast?_eq_some_iff.1 hlast
  exact ⟨text, by simpa using hrest, rfl⟩

theorem Line.Terminated.cons {line : Line} (h : line.Terminated) {b : UInt8}
    (hb : b ≠ Bytes.newline) : Line.Terminated (b :: line) := by
  obtain ⟨text, htext, rfl⟩ := h.eq_append
  refine ⟨by rw [← List.cons_append, List.getLast?_append]; rfl, ?_⟩
  rw [← List.cons_append, List.dropLast_concat]
  simp [htext, Ne.symm hb]

theorem Bytes.lines_append_newline {text : Bytes} (h : newline ∉ text)
    (rest : Bytes) :
    (text ++ newline :: rest).lines = (text ++ [newline]) :: rest.lines := by
  induction text with
  | nil => simp [lines]
  | cons b text ih =>
      have hb : b ≠ newline := fun he => h (by simp [he])
      have ht : newline ∉ text := fun hm => h (by simp [hm])
      rw [List.cons_append, lines, if_neg hb, ih ht]
      rfl

/-- Terminated lines put together and cut again are the same lines; the text
after them is cut on its own. -/
theorem Bytes.lines_flatten_append {ls : List Line} (h : ∀ l ∈ ls, l.Terminated)
    (rest : Bytes) : Bytes.lines (ls.flatten ++ rest) = ls ++ rest.lines := by
  induction ls with
  | nil => rfl
  | cons l ls ih =>
      obtain ⟨text, htext, hl⟩ := (h l (by simp)).eq_append
      have hcut := lines_append_newline htext (ls.flatten ++ rest)
      rw [ih fun m hm => h m (by simp [hm])] at hcut
      rw [hl]
      simpa using hcut

theorem Bytes.lines_flatten {ls : List Line} (h : ∀ l ∈ ls, l.Terminated) :
    Bytes.lines ls.flatten = ls := by
  have hcut := lines_flatten_append h []
  rwa [List.append_nil, lines, List.append_nil] at hcut

namespace LineStream

/-- The stream after `n` lines, or at its end if there are fewer. -/
def skip (n : Nat) (s : LineStream) : LineStream := (takeLines n s).2

@[simp] theorem skip_zero (s : LineStream) : s.skip 0 = s := rfl

@[simp] theorem ready_skip (n : Nat) (s : LineStream) :
    (s.skip n).ready = s.ready.drop n := (takeLines_eq n s).2

theorem next?_eq_skip {s : LineStream} {line : Line} {rest : List Line}
    (h : s.ready = line :: rest) : s.next? = some (line, s.skip 1) := by
  simp [skip, takeLines, next?, h]

theorem skip_of_ready_nil {s : LineStream} (h : s.ready = []) (n : Nat) :
    s.skip n = s := by
  cases n with
  | zero => rfl
  | succ n => simp [skip, takeLines, next?_eq_none_iff.2 h]

theorem skip_succ (s : LineStream) (n : Nat) :
    s.skip (n + 1) = (s.skip 1).skip n := by
  cases h : s.ready with
  | nil => rw [skip_of_ready_nil h, skip_of_ready_nil h, skip_of_ready_nil h]
  | cons line rest =>
      conv => lhs; rw [skip, takeLines, next?_eq_skip h]
      rfl

theorem skip_skip (s : LineStream) (m n : Nat) :
    (s.skip m).skip n = s.skip (m + n) := by
  induction m generalizing s with
  | zero => rw [skip_zero, Nat.zero_add]
  | succ m ih => rw [skip_succ s m, ih, Nat.add_right_comm, ← skip_succ]

theorem takeLines_eq_take_skip (n : Nat) (s : LineStream) :
    takeLines n s = (s.ready.take n, s.skip n) :=
  Prod.ext (takeLines_eq n s).1 rfl

/-- A line just read can be handed back, whatever it has been changed to. -/
theorem unread?_skip_one {s : LineStream} {line : Line} {rest : List Line}
    (h : s.ready = line :: rest) (back : Line) :
    ∃ p : LineStream, (s.skip 1).unread? back = some p ∧
      p.ready = back :: rest := by
  have hheld := held_of_next? (next?_eq_skip h)
  refine ⟨_, if_neg (by simp [hheld]), ?_⟩
  simp [h]

end LineStream

end UnifiedPatch
