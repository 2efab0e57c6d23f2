import UnifiedPatch.Hunk.Body
import UnifiedPatch.Hunk.Header
import UnifiedPatch.Proofs.LineReading

/-!
# Hunks as they are written

The statements about hunks need the other side of the readers: a hunk as the
text of a patch has it, with the lines it takes from the old file and the ones
it makes in the new. A `WrittenHunk` is a header line that reads as the two
ranges, however it is spelled, and body lines whose numbers agree with them; no
body line is looked at for what else it might be, so one whose content begins
`-- ` or `++ ` is a deletion or an insertion like any other.

Reading is direction-bound where writing is not. `script` is what the body
lines of a written hunk read as in a direction, `before` and `after` are the
two sides of the hunk in that direction, and `sourceSide_script` with its twin
ties them together: turned round, a hunk takes what it made.

A body is followed line by line until the source has something else. `followed`
is the part before that line. It is the whole body exactly if the source starts
with the lines the body takes from it (`followed_eq_self_iff`), which is how a
verdict reached one line at a time comes to be one comparison.
-/

namespace UnifiedPatch

/-! ## Sides of a body -/

@[simp] theorem Role.inSource_context : context.inSource = true := rfl
@[simp] theorem Role.inSource_deletion : deletion.inSource = true := rfl
@[simp] theorem Role.inSource_insertion : insertion.inSource = false := rfl
@[simp] theorem Role.inResult_context : context.inResult = true := rfl
@[simp] theorem Role.inResult_deletion : deletion.inResult = false := rfl
@[simp] theorem Role.inResult_insertion : insertion.inResult = true := rfl

theorem Role.inSource_eq_true_iff {role : Role} :
    role.inSource = true ↔ role ≠ .insertion := by
  cases role <;> simp

/-- The lines that a body finds in the source. -/
def sourceSide (body : List BodyLine) : List Line :=
  (body.filter fun b => b.role.inSource).map BodyLine.content

/-- The lines that a body leaves in the result. -/
def resultSide (body : List BodyLine) : List Line :=
  (body.filter fun b => b.role.inResult).map BodyLine.content

@[simp] theorem sourceSide_nil : sourceSide [] = [] := rfl

@[simp] theorem resultSide_nil : resultSide [] = [] := rfl

theorem sourceSide_cons (b : BodyLine) (body : List BodyLine) :
    sourceSide (b :: body) =
      if b.role.inSource then b.content :: sourceSide body
      else sourceSide body := by
  simp only [sourceSide, List.filter_cons]
  split <;> rfl

theorem resultSide_cons (b : BodyLine) (body : List BodyLine) :
    resultSide (b :: body) =
      if b.role.inResult then b.content :: resultSide body
      else resultSide body := by
  simp only [resultSide, List.filter_cons]
  split <;> rfl

@[simp] theorem sourceSide_append (body more : List BodyLine) :
    sourceSide (body ++ more) = sourceSide body ++ sourceSide more := by
  simp [sourceSide]

@[simp] theorem resultSide_append (body more : List BodyLine) :
    resultSide (body ++ more) = resultSide body ++ resultSide more := by
  simp [resultSide]

/-! ## The part of a body that the source agrees with -/

/-- The lines of a body before the first one that is not found in the source. -/
def followed : List BodyLine → List Line → List BodyLine
  | [], _ => []
  | b :: body, source =>
      if b.role = .insertion then b :: followed body source
      else if source.head? = some b.content then b :: followed body source.tail
      else []

theorem followed_isPrefix (body : List BodyLine) (source : List Line) :
    followed body source <+: body := by
  fun_induction followed body source with
  | case1 => exact List.nil_prefix
  | case2 b body source _ ih => exact List.cons_prefix_cons.2 ⟨rfl, ih⟩
  | case3 b body source _ _ ih => exact List.cons_prefix_cons.2 ⟨rfl, ih⟩
  | case4 => exact List.nil_prefix

theorem sourceSide_followed_isPrefix (body : List BodyLine)
    (source : List Line) :
    sourceSide (followed body source) <+: source := by
  fun_induction followed body source with
  | case1 => exact List.nil_prefix
  | case2 b body source hb ih =>
      simpa [sourceSide_cons, hb] using ih
  | case3 b body source hb hs ih =>
      obtain ⟨rest, rfl⟩ := List.head?_eq_some_iff.1 hs
      rw [sourceSide_cons, if_pos (Role.inSource_eq_true_iff.2 hb)]
      exact List.cons_prefix_cons.2 ⟨rfl, ih⟩
  | case4 => exact List.nil_prefix

/-- The line after what was followed is one that the source should have and
has not. -/
theorem missed_of_followed {body : List BodyLine} {source : List Line}
    {b : BodyLine} {more : List BodyLine}
    (h : body = followed body source ++ b :: more) :
    b.role ≠ .insertion ∧
      (source.drop (sourceSide (followed body source)).length).head? ≠
        some b.content := by
  fun_induction followed body source with
  | case1 => simp at h
  | case2 c body source hc ih =>
      simpa [sourceSide_cons, hc] using ih (List.cons.inj h).2
  | case3 c body source hc hs ih =>
      obtain ⟨rest, rfl⟩ := List.head?_eq_some_iff.1 hs
      rw [sourceSide_cons, if_pos (Role.inSource_eq_true_iff.2 hc)]
      exact ih (List.cons.inj h).2
  | case4 c body source hc hs =>
      obtain ⟨rfl, -⟩ := List.cons.inj h
      exact ⟨hc, hs⟩

theorem followed_eq_self_iff {body : List BodyLine} {source : List Line} :
    followed body source = body ↔ sourceSide body <+: source := by
  constructor
  · intro h
    have hp := sourceSide_followed_isPrefix body source
    rwa [h] at hp
  · intro hp
    obtain ⟨more, hmore⟩ := followed_isPrefix body source
    cases more with
    | nil => simpa using hmore
    | cons b more =>
        -- The side of the body goes on with the very line that was missed.
        exfalso
        obtain ⟨hrole, hmiss⟩ := missed_of_followed hmore.symm
        rw [← hmore, sourceSide_append, sourceSide_cons,
          if_pos (Role.inSource_eq_true_iff.2 hrole)] at hp
        obtain ⟨rest, hrest⟩ := hp
        generalize followed body source = front at hmiss hrest
        rw [← hrest] at hmiss
        simp at hmiss

/-- Only as many source lines matter as the body takes. -/
theorem followed_take {body : List BodyLine} {source : List Line} {n : Nat}
    (h : (sourceSide body).length ≤ n) :
    followed body (source.take n) = followed body source := by
  fun_induction followed body source generalizing n with
  | case1 => rfl
  | case2 b body source hb ih =>
      rw [followed, if_pos hb, ih (by simpa [sourceSide_cons, hb] using h)]
  | case3 b body source hb hs ih =>
      obtain ⟨rest, rfl⟩ := List.head?_eq_some_iff.1 hs
      rw [sourceSide_cons, if_pos (Role.inSource_eq_true_iff.2 hb),
        List.length_cons] at h
      obtain ⟨m, rfl⟩ : ∃ m, n = m + 1 := ⟨n - 1, by omega⟩
      rw [List.take_succ_cons, followed, if_neg hb, if_pos List.head?_cons]
      rw [show (b.content :: rest.take m).tail =
        (b.content :: rest).tail.take m from rfl, ih (by omega)]
  | case4 b body source hb hs =>
      rw [followed, if_neg hb, if_neg]
      cases source with
      | nil => simp
      | cons line source =>
          rw [sourceSide_cons, if_pos (Role.inSource_eq_true_iff.2 hb),
            List.length_cons] at h
          obtain ⟨m, rfl⟩ : ∃ m, n = m + 1 := ⟨n - 1, by omega⟩
          exact hs

/-! ## Written lines and hunks -/

namespace Role

/-- The byte in front of a body line: a blank, `-` or `+`. -/
def sign : Role → UInt8
  | context => 32
  | deletion => 45
  | insertion => 43

/-- The role that a line plays when the patch is read in a direction. -/
def facing (reverse : Bool) : Role → Role
  | context => context
  | deletion => if reverse then insertion else deletion
  | insertion => if reverse then deletion else insertion

theorem ofMarker?_sign (reverse : Bool) (role : Role) :
    ofMarker? reverse role.sign = some (role.facing reverse) := by
  cases reverse <;> cases role <;> decide

theorem inSource_facing (reverse : Bool) (role : Role) :
    (role.facing reverse).inSource = if reverse then role.inResult
      else role.inSource := by
  cases reverse <;> cases role <;> rfl

theorem inResult_facing (reverse : Bool) (role : Role) :
    (role.facing reverse).inResult = if reverse then role.inSource
      else role.inResult := by
  cases reverse <;> cases role <;> rfl

end Role

/-- A body line as it is written: its role when the patch is read forwards, its
content, and whether the blank of an empty context line was left out. -/
structure WrittenLine where
  role : Role
  content : Line
  bare : Bool := false
  terminated : content.Terminated
  blank_of_bare : bare = true →
    role = .context ∧ (content = [10] ∨ content = [13, 10])

namespace WrittenLine

/-- A body line with its sign in front. -/
def signed (role : Role) (content : Line) (terminated : content.Terminated) :
    WrittenLine where
  role
  content
  terminated
  blank_of_bare := by simp

/-- A body line as it stands in the patch. -/
def text (l : WrittenLine) : Line :=
  if l.bare then l.content else l.role.sign :: l.content

/-- What a written line says when the patch is read in a direction. -/
def reading (reverse : Bool) (l : WrittenLine) : BodyLine :=
  { role := l.role.facing reverse
    content := l.content
    text := l.role.sign :: l.content }

theorem terminated_text (l : WrittenLine) : l.text.Terminated := by
  unfold text
  split
  · exact l.terminated
  · exact l.terminated.cons (by cases l.role <;> decide)

/-- A written line reads as what it says, its lost blank put back. -/
theorem ofLine?_text (reverse : Bool) (l : WrittenLine) :
    BodyLine.ofLine? reverse l.text = some (l.reading reverse) := by
  have hrestore : BodyLine.restoreBlank l.text = l.role.sign :: l.content := by
    unfold text BodyLine.restoreBlank
    split
    · next hbare =>
        obtain ⟨hrole, hblank⟩ := l.blank_of_bare hbare
        rw [if_pos hblank, hrole]
        rfl
    · rw [if_neg]
      cases l.role <;> simp [Role.sign]
  rw [BodyLine.ofLine?, hrestore]
  simp only [Role.ofMarker?_sign]
  rfl

end WrittenLine

/-- A hunk as it is written: a header line that reads as the two ranges, and
body lines whose numbers are those of the ranges. -/
structure WrittenHunk where
  header : Line
  hunk : Hunk
  body : List WrittenLine
  reads : Hunk.readHeader header = .ok (some hunk)
  terminated : header.Terminated
  old_count : body.countP (fun l => l.role.inSource) = hunk.old.count
  new_count : body.countP (fun l => l.role.inResult) = hunk.new.count

namespace WrittenHunk

/-- The lines of a hunk in the patch. -/
def lines (w : WrittenHunk) : List Line :=
  w.header :: w.body.map WrittenLine.text

/-- The text of hunks one after another. -/
def textOf (ws : List WrittenHunk) : Bytes := (ws.flatMap lines).flatten

/-- The lines of the old file that a hunk takes. -/
def oldLines (w : WrittenHunk) : List Line :=
  (w.body.filter fun l => l.role.inSource).map WrittenLine.content

/-- The lines of the new file that a hunk makes. -/
def newLines (w : WrittenHunk) : List Line :=
  (w.body.filter fun l => l.role.inResult).map WrittenLine.content

/-- The two ranges of a hunk in a direction, the one that is taken first. -/
def facing (reverse : Bool) (w : WrittenHunk) : Hunk :=
  if reverse then w.hunk.swap else w.hunk

/-- The lines that a hunk takes in a direction. -/
def before (reverse : Bool) (w : WrittenHunk) : List Line :=
  if reverse then w.newLines else w.oldLines

/-- The lines that a hunk makes in a direction. -/
def after (reverse : Bool) (w : WrittenHunk) : List Line :=
  if reverse then w.oldLines else w.newLines

/-- What the body of a hunk says in a direction. -/
def script (reverse : Bool) (w : WrittenHunk) : List BodyLine :=
  w.body.map (WrittenLine.reading reverse)

theorem sourceSide_script (reverse : Bool) (w : WrittenHunk) :
    sourceSide (w.script reverse) = w.before reverse := by
  simp only [sourceSide, script, List.filter_map, List.map_map, before,
    oldLines, newLines]
  cases reverse <;>
    simp [Function.comp_def, WrittenLine.reading, Role.inSource_facing]

theorem resultSide_script (reverse : Bool) (w : WrittenHunk) :
    resultSide (w.script reverse) = w.after reverse := by
  simp only [resultSide, script, List.filter_map, List.map_map, after,
    oldLines, newLines]
  cases reverse <;>
    simp [Function.comp_def, WrittenLine.reading, Role.inResult_facing]

theorem length_before (reverse : Bool) (w : WrittenHunk) :
    (w.before reverse).length = (w.facing reverse).old.count := by
  have ho := w.old_count
  have hn := w.new_count
  rw [List.countP_eq_length_filter] at ho hn
  cases reverse <;> simp [before, facing, Hunk.swap, oldLines, newLines, ho, hn]

theorem length_after (reverse : Bool) (w : WrittenHunk) :
    (w.after reverse).length = (w.facing reverse).new.count := by
  have ho := w.old_count
  have hn := w.new_count
  rw [List.countP_eq_length_filter] at ho hn
  cases reverse <;> simp [after, facing, Hunk.swap, oldLines, newLines, ho, hn]

theorem map_ofLine?_body (reverse : Bool) (w : WrittenHunk) :
    (w.body.map WrittenLine.text).map (BodyLine.ofLine? reverse) =
      (w.script reverse).map some := by
  simp [script, Function.comp_def, WrittenLine.ofLine?_text]

/-- The text of hunks and what follows falls into the lines of the hunks and
the lines of what follows. -/
theorem lines_textOf_append (ws : List WrittenHunk) (tail : Bytes) :
    Bytes.lines (textOf ws ++ tail) = ws.flatMap lines ++ tail.lines := by
  refine Bytes.lines_flatten_append (fun l hl => ?_) tail
  obtain ⟨w, -, hl⟩ := List.mem_flatMap.1 hl
  rcases List.mem_cons.1 hl with rfl | hl
  · exact w.terminated
  · obtain ⟨b, -, rfl⟩ := List.mem_map.1 hl
    exact b.terminated_text

/-- A header line starts with a sign of its own, so that no blank is put before
it and no direction takes it for a body line. -/
theorem header_eq_cons (w : WrittenHunk) : ∃ rest, w.header = 64 :: rest := by
  have h := w.reads
  unfold Hunk.readHeader Hunk.runs? at h
  cases hs : Bytes.after? (Bytes.ascii "@@ -") w.header with
  | none => simp [hs] at h
  | some s =>
      rw [Bytes.after?_eq_some_iff.1 hs]
      exact ⟨_, rfl⟩

theorem restoreBlank_header (w : WrittenHunk) :
    BodyLine.restoreBlank w.header = w.header := by
  obtain ⟨rest, h⟩ := w.header_eq_cons
  rw [h]
  exact if_neg (by simp)

end WrittenHunk

end UnifiedPatch
