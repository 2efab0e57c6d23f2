import UnifiedPatch.Proofs.LineJoining
import Mathlib.Data.Finset.Card

/-!
# A stream of lines is a list with a cursor

A reader of a stream makes requests: the next line, a number of lines copied, or
the line just read taken back. What the stream keeps for that is what is left of
its text, whether a line has been handed back and a count. A list with a cursor
needs two numbers for the same, the place of the cursor and the farthest place
it has been at, which are one apart while a line is handed back (`Cursor`). Both
answer every fair reader alike (`Shows.answer`, `Shows.serve`), so what is true
of a cursor is read off a list and carried over.

The reader's own account needs no cursor: it appends what it gets, drops the
last line when it hands it back, and knows the place of each line by the length
of its account. The cursor shows that this account is the front of the list, and
that the lines got so far are those up to the farthest place, some of them got
twice (`Cursor.accounts_serve`).

That the list is the right one is a matter of the text alone. The lines of a
text are the only way to cut it behind each newline into pieces of which none is
empty (`Bytes.cut_iff`).
-/

namespace UnifiedPatch

namespace Bytes

variable {s : Bytes} {pieces : List Line}

/-- A text cut behind each of its newlines, and nowhere else. -/
structure Cut (s : Bytes) (pieces : List Line) : Prop where
  flatten_eq : pieces.flatten = s
  ne_nil : ∀ piece ∈ pieces, piece ≠ []
  single : ∀ piece ∈ pieces, piece.Single
  terminated : ∀ piece ∈ pieces.dropLast, piece.Terminated

theorem cut_lines (s : Bytes) : s.Cut s.lines where
  flatten_eq := flatten_lines s
  ne_nil _ := ne_nil_of_mem_lines
  single _ := single_of_mem_lines
  terminated _ := terminated_of_mem_dropLast_lines

theorem lines_of_single {piece : Line} (hsingle : piece.Single)
    (hne : piece ≠ []) :
    lines piece = [piece] := by
  rcases hsingle.cases with hline | hnone
  · have hcut : lines [piece].flatten = [piece] :=
      lines_flatten (by simpa using hline)
    rwa [List.flatten_singleton] at hcut
  · have hlength : (lines piece).length = 1 := by
      simpa [lines] using length_lines_append_of_not_mem hnone hne []
    obtain ⟨line, hline⟩ := List.length_eq_one_iff.1 hlength
    have hflatten := flatten_lines piece
    rw [hline, List.flatten_singleton] at hflatten
    rw [hline, hflatten]

theorem Cut.eq_lines (h : s.Cut pieces) : pieces = s.lines := by
  rcases List.eq_nil_or_concat pieces with rfl | ⟨front, last, hconcat⟩
  · rw [← h.flatten_eq]
    rfl
  · rw [List.concat_eq_append] at hconcat
    subst hconcat
    have hfront : ∀ piece ∈ front, piece.Terminated := by
      simpa only [List.dropLast_concat] using h.terminated
    have hlast : lines last = [last] :=
      lines_of_single (h.single last (by simp)) (h.ne_nil last (by simp))
    rw [← h.flatten_eq, List.flatten_append, lines_flatten_append hfront,
      List.flatten_singleton, hlast]

theorem cut_iff : s.Cut pieces ↔ pieces = s.lines := by
  refine ⟨Cut.eq_lines, fun h => ?_⟩
  rw [h]
  exact cut_lines s

end Bytes

namespace LineStream

/-! ## Requests and replies -/

/-- What a reader asks of a stream: the next line, to take a line back, or to
copy a number of lines, all of them if no number is given. -/
inductive Request
  | read
  | handBack (line : Line)
  | copy (count : Option Nat)
  deriving DecidableEq

/-- What a stream replies: the line, if there is one, whether it takes a line
back, or the lines copied and how many were missing. -/
inductive Reply
  | read (line : Option Line)
  | handedBack
  | refused
  | copied (lines : List Line) (missing : Int)
  deriving DecidableEq

/-- What the stream replies to a request, and the stream after it. -/
def answer (s : LineStream) : Request → Reply × LineStream
  | .read =>
      match s.next? with
      | none => (.read none, s)
      | some (line, rest) => (.read (some line), rest)
  | .handBack line =>
      match s.unread? line with
      | none => (.refused, s)
      | some rest => (.handedBack, rest)
  | .copy count =>
      let copy := s.copy (count.map Int.ofNat)
      (.copied copy.lines copy.missing, copy.rest)

/-- The replies to requests made one after another, and the state after them. -/
def serve {σ : Type} (answer : σ → Request → Reply × σ) (s : σ) :
    List Request → List Reply × σ
  | [] => ([], s)
  | request :: requests =>
      let (reply, next) := answer s request
      let (replies, last) := serve answer next requests
      (reply :: replies, last)

namespace Reply

/-- The lines that the reader gets. -/
def lines : Reply → List Line
  | .read line => line.toList
  | .handedBack => []
  | .refused => []
  | .copied lines _ => lines

/-- The line just read, unless it has been handed back since. A line that was
copied counts as read, and a reply without lines changes nothing. -/
def justRead (last : Option Line) : Reply → Option Line
  | .handedBack => none
  | reply => reply.lines.getLast?.or last

/-- The lines delivered so far; one that is handed back is not delivered. -/
def account (before : List Line) : Reply → List Line
  | .handedBack => before.dropLast
  | reply => before ++ reply.lines

variable {reply : Reply}

theorem justRead_eq (h : reply ≠ .handedBack) (last : Option Line) :
    reply.justRead last = reply.lines.getLast?.or last := by
  cases reply with
  | handedBack => exact absurd rfl h
  | read | refused | copied => rfl

theorem account_eq (h : reply ≠ .handedBack) (before : List Line) :
    reply.account before = before ++ reply.lines := by
  cases reply with
  | handedBack => exact absurd rfl h
  | read | refused | copied => rfl

end Reply

/-- Whether a request hands back nothing but the line just read. -/
def Request.Fair (last : Option Line) : Request → Prop
  | .handBack line => last = some line
  | _ => True

instance (last : Option Line) :
    ∀ request : Request, Decidable (request.Fair last)
  | .handBack line => inferInstanceAs (Decidable (last = some line))
  | .read => inferInstanceAs (Decidable True)
  | .copy _ => inferInstanceAs (Decidable True)

/-- A reader that hands back nothing but the line just read. -/
def Fair (last : Option Line) : List (Request × Reply) → Prop
  | [] => True
  | (request, reply) :: more =>
      request.Fair last ∧ Fair (reply.justRead last) more

instance decidableFair : ∀ (last : Option Line) (log : List (Request × Reply)),
    Decidable (Fair last log)
  | _, [] => inferInstanceAs (Decidable True)
  | last, (_, reply) :: more =>
      have := decidableFair (reply.justRead last) more
      inferInstanceAs (Decidable (_ ∧ _))

section

variable {σ : Type} {answer : σ → Request → Reply × σ} {s : σ}
  {request : Request} {requests : List Request}

theorem serve_cons : serve answer s (request :: requests) =
    ((answer s request).1 :: (serve answer (answer s request).2 requests).1,
      (serve answer (answer s request).2 requests).2) :=
  rfl

theorem fair_serve_cons {last : Option Line} :
    Fair last
      ((request :: requests).zip (serve answer s (request :: requests)).1) ↔
      request.Fair last ∧ Fair ((answer s request).1.justRead last)
        (requests.zip (serve answer (answer s request).2 requests).1) :=
  Iff.rfl

end

/-- The lines delivered by replies, in order. -/
def delivered (replies : List Reply) : List Line :=
  replies.foldl (fun before reply => reply.account before) []

/-- Each delivery of a line, with the place of the line: how many were
delivered before. -/
def deliveries (before : List Line) : List Reply → List (Line × Nat)
  | [] => []
  | reply :: replies =>
      reply.lines.zipIdx before.length ++
        deliveries (reply.account before) replies

end LineStream

/-! ## The list with a cursor -/

/-- A list with a cursor that has passed `place` lines. At the farthest it has
passed `reached` lines, and it goes back by one line at most. -/
@[ext]
structure Cursor where
  lines : List Line
  place : Nat
  reached : Nat
  place_le : place ≤ reached
  reached_le_succ : reached ≤ place + 1
  reached_le : reached ≤ lines.length

namespace Cursor

open LineStream (Request Reply Fair serve deliveries)

variable {c : Cursor} {request : Request} {line : Line} {delivery : Line × Nat}

/-- A cursor that has passed no line yet. -/
def start (lines : List Line) : Cursor where
  lines := lines
  place := 0
  reached := 0
  place_le := Nat.le_refl 0
  reached_le_succ := Nat.zero_le 1
  reached_le := Nat.zero_le _

/-- The lines behind the cursor. -/
def passed (c : Cursor) : List Line := c.lines.take c.place

/-- The lines in front of the cursor. -/
def ahead (c : Cursor) : List Line := c.lines.drop c.place

/-- Forward by `n` lines, or to the end if there are fewer. -/
def forward (c : Cursor) (n : Nat) : Cursor where
  lines := c.lines
  place := min (c.place + n) c.lines.length
  reached := max c.reached (min (c.place + n) c.lines.length)
  place_le := Nat.le_max_right _ _
  reached_le_succ := by
    have hplace := c.place_le
    have hsucc := c.reached_le_succ
    have hlength := c.reached_le
    omega
  reached_le := Nat.max_le.2 ⟨c.reached_le, Nat.min_le_right _ _⟩

/-- Back over the last line reached. -/
def back (c : Cursor) : Cursor where
  lines := c.lines
  place := c.reached - 1
  reached := c.reached
  place_le := Nat.sub_le _ _
  reached_le_succ := by omega
  reached_le := c.reached_le

/-- The line just read is the last one passed, unless the cursor has
gone back. -/
def justRead (c : Cursor) : Option Line :=
  if c.place = c.reached then c.passed.getLast? else none

/-- What a list with a cursor replies to a request, and where the cursor stands
after it. It takes for granted that a line handed back is the one just read. -/
def answer (c : Cursor) : Request → Reply × Cursor
  | .read => (.read c.ahead.head?, c.forward 1)
  | .handBack _ => (.handedBack, c.back)
  | .copy (some n) =>
      (.copied (c.ahead.take n) (n - min n c.ahead.length : Nat), c.forward n)
  | .copy none => (.copied c.ahead 0, c.forward c.ahead.length)

/-! ### Where the cursor moves -/

theorem place_le_length (c : Cursor) : c.place ≤ c.lines.length :=
  Nat.le_trans c.place_le c.reached_le

@[simp] theorem length_passed (c : Cursor) : c.passed.length = c.place := by
  rw [passed, List.length_take, Nat.min_eq_left c.place_le_length]

theorem place_lt_length (h : c.ahead ≠ []) : c.place < c.lines.length := by
  rw [ahead, ne_eq, List.drop_eq_nil_iff] at h
  omega

theorem passed_append_ahead (c : Cursor) : c.passed ++ c.ahead = c.lines :=
  List.take_append_drop c.place c.lines

theorem passed_forward (c : Cursor) (n : Nat) :
    (c.forward n).passed = c.passed ++ c.ahead.take n := by
  rw [passed, forward, ← List.take_eq_take_min, List.take_add]
  rfl

theorem ahead_forward (c : Cursor) (n : Nat) :
    (c.forward n).ahead = c.ahead.drop n := by
  rw [ahead, forward, ← List.drop_eq_drop_min, ahead, List.drop_drop]

/-- Where there is nothing to go over, the cursor stays. -/
theorem forward_of_take_nil {n : Nat} (h : c.ahead.take n = []) :
    c.forward n = c := by
  have hplace := c.place_le
  have hlength := c.reached_le
  have hstay : min (c.place + n) c.lines.length = c.place := by
    rcases List.take_eq_nil_iff.1 h with hzero | hnil
    · omega
    · have hend := List.drop_eq_nil_iff.1 hnil
      omega
  ext1
  · rfl
  · exact hstay
  · simp only [forward, hstay]
    omega

theorem forward_forward (c : Cursor) (m n : Nat) :
    (c.forward m).forward n = c.forward (m + n) := by
  ext1
  · rfl
  · simp only [forward]
    omega
  · simp only [forward]
    omega

theorem justRead_eq_some (h : c.justRead = some line) :
    c.place = c.reached ∧ c.passed.getLast? = some line := by
  unfold justRead at h
  split at h
  · next hplace => exact ⟨hplace, h⟩
  · exact absurd h (by simp)

/-- Going back takes the line just read away from those passed. -/
theorem passed_back (h : c.justRead = some line) :
    c.passed = c.back.passed ++ [line] ∧ c.back.ahead = line :: c.ahead := by
  obtain ⟨hplace, hlast⟩ := justRead_eq_some h
  have hback : c.back.passed = c.passed.dropLast := by
    rw [List.dropLast_eq_take, length_passed, passed, passed,
      List.take_take, hplace, Nat.min_eq_left (Nat.sub_le _ _)]
    rfl
  have hpassed : c.passed = c.back.passed ++ [line] := by
    rw [hback, List.dropLast_append_getLast? line hlast]
  refine ⟨hpassed, ?_⟩
  have hlines : c.back.passed ++ c.back.ahead = c.passed ++ c.ahead :=
    c.back.passed_append_ahead.trans c.passed_append_ahead.symm
  rw [hpassed, List.append_assoc, List.singleton_append] at hlines
  exact List.append_cancel_left hlines

/-! ### What an answer tells the reader -/

/-- An answer takes a line back, or it delivers lines and goes over them. -/
theorem answer_cases (c : Cursor) (request : Request) :
    (∃ line, request = .handBack line) ∨
      ∃ n, (c.answer request).1 ≠ .handedBack ∧
        (c.answer request).1.lines = c.ahead.take n ∧
        (c.answer request).2 = c.forward n := by
  cases request with
  | handBack line => exact .inl ⟨line, rfl⟩
  | read => exact .inr ⟨1, by simp [answer], by rw [List.take_one]; rfl, rfl⟩
  | copy count =>
      cases count with
      | none =>
          exact .inr ⟨c.ahead.length, by simp [answer],
            by rw [List.take_length]; rfl, rfl⟩
      | some n => exact .inr ⟨n, by simp [answer], rfl, rfl⟩

theorem justRead_back (c : Cursor) : c.back.justRead = none := by
  unfold justRead
  split
  · next hplace =>
      have hzero : c.back.place = 0 := by
        simp only [back] at hplace ⊢
        omega
      rw [passed, hzero, List.take_zero, List.getLast?_nil]
  · rfl

theorem justRead_forward (c : Cursor) (n : Nat) :
    (c.forward n).justRead = (c.ahead.take n).getLast?.or c.justRead := by
  by_cases hnil : c.ahead.take n = []
  · rw [forward_of_take_nil hnil, hnil, List.getLast?_nil, Option.none_or]
  · have hplace : (c.forward n).place = (c.forward n).reached := by
      have hsucc := c.reached_le_succ
      have hlength := c.reached_le
      rw [List.take_eq_nil_iff, ahead, List.drop_eq_nil_iff] at hnil
      simp only [forward]
      omega
    obtain ⟨line, hline⟩ :=
      Option.isSome_iff_exists.1 (List.getLast?_isSome.2 hnil)
    rw [justRead, if_pos hplace, passed_forward, List.getLast?_append, hline,
      Option.some_or, Option.some_or]

theorem justRead_answer (c : Cursor) (request : Request) :
    (c.answer request).2.justRead =
      (c.answer request).1.justRead c.justRead := by
  rcases c.answer_cases request with ⟨line, rfl⟩ | ⟨n, hne, hlines, hnext⟩
  · exact c.justRead_back
  · rw [hnext, justRead_forward, Reply.justRead_eq hne, hlines]

/-- The account of a fair reader is what the cursor has passed. -/
theorem account_answer (hfair : request.Fair c.justRead) :
    (c.answer request).1.account c.passed = (c.answer request).2.passed := by
  rcases c.answer_cases request with ⟨line, rfl⟩ | ⟨n, hne, hlines, hnext⟩
  · change c.passed.dropLast = c.back.passed
    rw [(passed_back hfair).1, List.dropLast_concat]
  · rw [Reply.account_eq hne, hlines, hnext, passed_forward]

/-- A window of a list, its lines numbered by their place in the list. -/
theorem mem_zipIdx_window (lines : List Line) (place n : Nat) :
    delivery ∈ ((lines.drop place).take n).zipIdx place ↔
      place ≤ delivery.2 ∧ delivery.2 < place + n ∧
      lines[delivery.2]? = some delivery.1 := by
  rw [List.mem_zipIdx_iff_le_and_getElem?_sub, List.getElem?_take]
  refine and_congr_right fun hle => ?_
  split
  · next hlt =>
      rw [List.getElem?_drop, Nat.add_sub_cancel' hle]
      exact ⟨fun h => ⟨by omega, h⟩, And.right⟩
  · next hnot =>
      exact ⟨fun h => absurd h (by simp), fun ⟨hlt, _⟩ => absurd hlt (by omega)⟩

/-- The lines passed at any time, numbered by their place. -/
def seen (c : Cursor) : List (Line × Nat) := (c.lines.take c.reached).zipIdx

theorem mem_seen_iff :
    delivery ∈ c.seen ↔
      delivery.2 < c.reached ∧ c.lines[delivery.2]? = some delivery.1 := by
  have hwindow : delivery ∈ ((c.lines.drop 0).take c.reached).zipIdx 0 ↔ _ :=
    mem_zipIdx_window c.lines 0 c.reached
  rw [List.drop_zero, Nat.zero_add] at hwindow
  rw [seen, hwindow, and_iff_right (Nat.zero_le _)]

/-- The lines seen by the end of an answer are those delivered by it and those
seen before. -/
theorem mem_seen_answer (c : Cursor) (request : Request) :
    delivery ∈ (c.answer request).1.lines.zipIdx c.place ∨ delivery ∈ c.seen ↔
      delivery ∈ (c.answer request).2.seen := by
  rcases c.answer_cases request with ⟨line, rfl⟩ | ⟨n, -, hlines, hnext⟩
  · exact ⟨fun h => h.resolve_left List.not_mem_nil, .inr⟩
  · rw [hlines, hnext, ahead, mem_zipIdx_window, mem_seen_iff, mem_seen_iff]
    have hplace := c.place_le
    have hlength := c.reached_le
    -- The window begins at the cursor, so it may begin one line before the
    -- farthest place: a line there is delivered again and was seen before.
    simp only [forward]
    constructor
    · rintro (⟨hle, hlt, hline⟩ | ⟨hlt, hline⟩)
      · have hin := (List.getElem?_eq_some_iff.1 hline).1
        exact ⟨by omega, hline⟩
      · exact ⟨by omega, hline⟩
    · rintro ⟨hlt, hline⟩
      by_cases hle : c.place ≤ delivery.2
      · by_cases hold : delivery.2 < c.reached
        · exact .inr ⟨hold, hline⟩
        · exact .inl ⟨hle, by omega, hline⟩
      · exact .inr ⟨by omega, hline⟩

/-- What a fair reader knows of a cursor that has come from `c` to `c'` by
its replies. -/
structure Accounts (c : Cursor) (replies : List Reply) (c' : Cursor) :
    Prop where
  lines : c'.lines = c.lines
  delivered : replies.foldl (fun before reply => reply.account before)
    c.passed = c'.passed
  deliveries (delivery : Line × Nat) :
    delivery ∈ deliveries c.passed replies ∨ delivery ∈ c.seen ↔
      delivery ∈ c'.seen

theorem lines_answer (c : Cursor) (request : Request) :
    (c.answer request).2.lines = c.lines := by
  rcases c.answer_cases request with ⟨line, rfl⟩ | ⟨n, -, -, hnext⟩
  · rfl
  · rw [hnext]
    rfl

theorem accounts_serve (c : Cursor) (requests : List Request)
    (hfair : Fair c.justRead (requests.zip (serve answer c requests).1)) :
    c.Accounts (serve answer c requests).1 (serve answer c requests).2 := by
  induction requests generalizing c with
  | nil =>
      exact ⟨rfl, rfl,
        fun _ => ⟨fun h => h.resolve_left List.not_mem_nil, .inr⟩⟩
  | cons request requests ih =>
      obtain ⟨hrequest, hmore⟩ := LineStream.fair_serve_cons.1 hfair
      rw [← justRead_answer] at hmore
      have hnext := ih (c.answer request).2 hmore
      have haccount := account_answer hrequest
      rw [LineStream.serve_cons]
      refine ⟨hnext.lines.trans (c.lines_answer request), ?_,
        fun delivery => ?_⟩
      · rw [List.foldl_cons, haccount]
        exact hnext.delivered
      · rw [deliveries, haccount, length_passed, List.mem_append, or_right_comm,
          mem_seen_answer, or_comm]
        exact hnext.deliveries delivery

/-- The number of lines seen is the farthest place. -/
theorem card_seen (c : Cursor) : c.seen.toFinset.card = c.reached := by
  have hnodup : c.seen.Nodup := by
    refine List.Nodup.of_map Prod.snd ?_
    rw [seen, List.zipIdx_map_snd]
    exact List.nodup_range' 1
  rw [List.toFinset_card_of_nodup hnodup, seen, List.length_zipIdx,
    List.length_take, Nat.min_eq_left c.reached_le]

end Cursor

namespace LineStream

variable {s : LineStream} {c : Cursor} {request : Request}
  {requests : List Request} {line : Line}

/-! ## The stream and the cursor -/

/-- A stream that stands where the cursor stands: it holds a line that was
handed back as long as the cursor is not at the farthest place. -/
structure Shows (s : LineStream) (c : Cursor) : Prop where
  ready : s.ready = c.ahead
  taken : s.taken = c.reached
  held : s.held = true ↔ c.place < c.reached

theorem shows_ofBytes (data : Bytes) :
    (ofBytes data).Shows (.start data.lines) :=
  ⟨rfl, rfl, by simp [ofBytes, Cursor.start]⟩

theorem taken_skip_one {more : List Line} (h : s.ready = line :: more) :
    (s.skip 1).taken = if s.held then s.taken else s.taken + 1 := by
  simp [skip, takeLines, next?, h]

theorem Shows.skip_one (h : s.Shows c) : (s.skip 1).Shows (c.forward 1) := by
  cases hready : s.ready with
  | nil =>
      have hnil : c.ahead.take 1 = [] := by
        rw [← h.ready, hready, List.take_nil]
      rw [skip_of_ready_nil hready, Cursor.forward_of_take_nil hnil]
      exact h
  | cons line more =>
      have hlt : c.place < c.lines.length := by
        refine Cursor.place_lt_length ?_
        rw [← h.ready, hready]
        simp
      have hplace := c.place_le
      have hsucc := c.reached_le_succ
      refine ⟨?_, ?_, ?_⟩
      · rw [ready_skip, h.ready, Cursor.ahead_forward]
      · -- A line that was held back is behind the farthest place already.
        rw [taken_skip_one hready, h.taken]
        simp only [Cursor.forward]
        split
        · next hheld =>
            have hback := h.held.1 hheld
            omega
        · next hheld =>
            have hback : ¬ c.place < c.reached :=
              fun hlt => hheld (h.held.2 hlt)
            omega
      · rw [held_of_next? (next?_eq_skip hready)]
        simp only [Cursor.forward]
        constructor
        · exact fun hfalse => absurd hfalse (by simp)
        · omega

theorem Shows.skip (h : s.Shows c) (n : Nat) :
    (s.skip n).Shows (c.forward n) := by
  induction n generalizing s c with
  | zero =>
      rw [skip_zero, Cursor.forward_of_take_nil List.take_zero]
      exact h
  | succ n ih =>
      rw [skip_succ, Nat.add_comm n 1, ← Cursor.forward_forward]
      exact ih h.skip_one

/-- The line just read can be handed back, and the stream is where it
was before. -/
theorem Shows.unread (h : s.Shows c) (hlast : c.justRead = some line) :
    ∃ rest, s.unread? line = some rest ∧ rest.Shows c.back := by
  obtain ⟨hplace, -⟩ := Cursor.justRead_eq_some hlast
  obtain ⟨hpassed, hahead⟩ := Cursor.passed_back hlast
  have hpos : 0 < c.place := by
    rw [← c.length_passed, hpassed]
    simp
  have hheld : ¬ s.held = true := fun hheld => by
    have hback := h.held.1 hheld
    omega
  refine ⟨_, if_neg hheld, ?_, h.taken, ?_⟩
  · rw [hahead, ← h.ready]
  · simp only [Cursor.back, true_iff]
    omega

theorem answer_read (s : LineStream) :
    s.answer .read = (.read s.ready.head?, s.skip 1) := by
  cases hready : s.ready with
  | nil =>
      rw [skip_of_ready_nil hready, answer, next?_eq_none_iff.2 hready,
        List.head?_nil]
  | cons line more => rw [answer, next?_eq_skip hready, List.head?_cons]

theorem copy_some (s : LineStream) (n : Nat) :
    s.copy (some n) =
      ⟨s.ready.take n, s.skip n, (n - min n s.ready.length : Nat)⟩ := by
  simp only [copy, Int.toNat_natCast, takeLines_eq_take_skip, List.length_take]
  congr 1
  omega

theorem copy_none (s : LineStream) :
    s.copy none = ⟨s.ready, s.skip s.ready.length, 0⟩ := by
  simp only [copy, drain, takeLines_eq_take_skip, List.take_length]

/-- One request of a fair reader: the stream answers as the cursor does, and
stands where the cursor then stands. -/
theorem Shows.answer (h : s.Shows c) (hfair : request.Fair c.justRead) :
    (s.answer request).1 = (c.answer request).1 ∧
      (s.answer request).2.Shows (c.answer request).2 := by
  cases request with
  | read =>
      rw [answer_read, h.ready]
      exact ⟨rfl, h.skip 1⟩
  | handBack line =>
      obtain ⟨rest, hrest, hshows⟩ := h.unread hfair
      rw [LineStream.answer, hrest]
      exact ⟨rfl, hshows⟩
  | copy count =>
      cases count with
      | none =>
          rw [LineStream.answer, Option.map_none, copy_none, h.ready]
          exact ⟨rfl, h.skip _⟩
      | some n =>
          rw [LineStream.answer, Option.map_some, Int.ofNat_eq_natCast,
            copy_some, h.ready]
          exact ⟨rfl, h.skip n⟩

theorem Shows.serve (h : s.Shows c)
    (hfair : Fair c.justRead
      (requests.zip (serve LineStream.answer s requests).1)) :
    (serve LineStream.answer s requests).1 =
      (serve Cursor.answer c requests).1 ∧
      (serve LineStream.answer s requests).2.Shows
        (serve Cursor.answer c requests).2 := by
  induction requests generalizing s c with
  | nil => exact ⟨rfl, h⟩
  | cons request requests ih =>
      obtain ⟨hrequest, hmore⟩ := LineStream.fair_serve_cons.1 hfair
      obtain ⟨hreply, hnext⟩ := h.answer hrequest
      rw [hreply, ← Cursor.justRead_answer] at hmore
      obtain ⟨hreplies, hlast⟩ := ih hnext hmore
      exact ⟨congrArg₂ List.cons hreply hreplies, hlast⟩

/-- A stream is a list with a cursor. Whatever is asked of the stream of a text
by a reader that hands back nothing but the line just read, it replies as the
list of the lines with a cursor would, and these lines are the only way to cut
the text. The lines delivered, those handed back not counted, are the front of
the list, and the lines still to be read the rest; each line is delivered in its
place, and as many have been taken as have been delivered at least once. From
there a copy delivers the number of lines asked for, as far as there are any,
and is missing the others; a copy of all delivers all. -/
theorem serve_refines_cursor (data : Bytes) (requests : List Request)
    {replies : List Reply} {s : LineStream}
    (hserve : serve answer (ofBytes data) requests = (replies, s))
    (hfair : Fair none (requests.zip replies)) :
    (∀ pieces, data.Cut pieces ↔ pieces = data.lines) ∧
    replies = (serve Cursor.answer (.start data.lines) requests).1 ∧
    delivered replies ++ s.ready = data.lines ∧
    (∀ delivery ∈ deliveries [] replies,
      data.lines[delivery.2]? = some delivery.1) ∧
    s.taken = (deliveries [] replies).toFinset.card ∧
    (∀ n : Nat, (s.copy (some n)).lines = s.ready.take (min n s.ready.length) ∧
      (s.copy (some n)).missing = n - min n s.ready.length) ∧
    (s.copy none).lines = s.ready ∧ (s.copy none).missing = 0 := by
  obtain ⟨rfl, rfl⟩ := Prod.ext_iff.1 hserve
  obtain ⟨hcursor, hshows⟩ := (shows_ofBytes data).serve hfair
  rw [hcursor] at hfair ⊢
  have haccounts := Cursor.accounts_serve (.start data.lines) requests hfair
  have hseen : ∀ delivery, delivery ∈ deliveries [] _ ↔ delivery ∈ _ :=
    fun delivery => by
    rw [← haccounts.deliveries delivery]
    exact ⟨.inl, fun h => h.resolve_right List.not_mem_nil⟩
  refine ⟨fun pieces => Bytes.cut_iff, rfl, ?_, ?_, ?_, ?_, ?_⟩
  · have hdelivered : delivered _ = _ := haccounts.delivered
    rw [hdelivered, hshows.ready, Cursor.passed_append_ahead, haccounts.lines]
    rfl
  · intro delivery hdelivery
    have hline := (Cursor.mem_seen_iff.1 ((hseen delivery).1 hdelivery)).2
    rw [haccounts.lines] at hline
    exact hline
  · rw [hshows.taken, ← Cursor.card_seen]
    refine congrArg Finset.card (Finset.ext fun delivery => ?_)
    rw [List.mem_toFinset, List.mem_toFinset, hseen]
  · intro n
    rw [copy_some, ← List.take_eq_take_min]
    exact ⟨rfl, Int.ofNat_sub (Nat.min_le_left _ _)⟩
  · rw [copy_none]
    exact ⟨rfl, rfl⟩

/-- Three lines, the last of them without a newline. -/
def threeLines : Bytes := Bytes.ascii "a\nb\nc"

/-- Lines are handed back after they were read, after they were copied, and at
the end. -/
def backAndForth : List Request :=
  [.read, .handBack (Bytes.ascii "a\n"), .copy (some 2),
    .handBack (Bytes.ascii "b\n"), .read, .copy (some 5), .read,
    .handBack (Bytes.ascii "c"), .copy none]

/-- What is replied to `backAndForth` by a reader of the three lines. -/
def backAndForthReplies : List Reply :=
  [.read (some (Bytes.ascii "a\n")), .handedBack,
    .copied [Bytes.ascii "a\n", Bytes.ascii "b\n"] 0, .handedBack,
    .read (some (Bytes.ascii "b\n")), .copied [Bytes.ascii "c"] 4, .read none,
    .handedBack, .copied [Bytes.ascii "c"] 0]

/-- Six deliveries are of three lines. -/
theorem serve_refines_cursor_backAndForth :
    serve answer (ofBytes threeLines) backAndForth =
      (backAndForthReplies, ⟨[], false, 3⟩) ∧
    Fair none (backAndForth.zip backAndForthReplies) ∧
    (serve Cursor.answer (.start threeLines.lines) backAndForth).1 =
      backAndForthReplies ∧
    delivered backAndForthReplies = threeLines.lines ∧
    (deliveries [] backAndForthReplies).length = 6 ∧
    (deliveries [] backAndForthReplies).toFinset.card = 3 := by
  have hserve : serve answer (ofBytes threeLines) backAndForth =
      (backAndForthReplies, ⟨[], false, 3⟩) := by decide +kernel
  have hfair : Fair none (backAndForth.zip backAndForthReplies) := by
    decide +kernel
  obtain ⟨-, hreplies, hdelivered, -, htaken, -⟩ :=
    serve_refines_cursor threeLines backAndForth hserve hfair
  rw [List.append_nil] at hdelivered
  exact ⟨hserve, hfair, hreplies.symm, hdelivered, by decide +kernel,
    htaken.symm⟩

end LineStream

end UnifiedPatch
