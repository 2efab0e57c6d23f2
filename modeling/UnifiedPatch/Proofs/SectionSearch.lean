import Mathlib.Data.List.Forall2
import UnifiedPatch.Proofs.MarkerNames
import UnifiedPatch.Proofs.SectionRun

/-!
# What a search for a section finds

A search is described by the first line that has the old-file marker in front,
and by the line behind it; nothing else of the patch counts (`Finds`). Either
there is no such line, and all lines are used up; or the patch ends with it; or
something else than a new-file marker line follows, which the error then
carries; or there is a pair of marker lines, and it tells a name. The
description says with each outcome how many lines are taken, and it is met
exactly (`next_iff_finds`): not one line behind the pair is touched.

So searches one after another cut the patch into pieces. Each piece is the
notes and the pair of marker lines that one search took, and a last piece has
no pair (`nextAll_iff_findsAll`).
-/

namespace UnifiedPatch

namespace Section

variable {level : Int} {s : LineStream}

/-! ## The outcomes of a search -/

/-- Lines up to the first one that has the old-file marker in front. -/
structure Lead where
  notes : List Line
  oldLine : Line
  unmarked : ∀ line ∈ notes, ¬ Marker.old <+: line
  marked : Marker.old <+: oldLine

/-- The notes and the line that ends them. -/
def Lead.lines (l : Lead) : List Line := l.notes ++ [l.oldLine]

/-- The file that two marker lines are about: the new one, unless that is the
null device by its whole name; then the old one. -/
def Subject (oldLine newLine : Line) (full : Bytes) : Prop :=
  (Marker.Bears Marker.new Marker.devNull newLine ∧
    Marker.Bears Marker.old full oldLine) ∨
    (¬ Marker.Bears Marker.new Marker.devNull newLine ∧
      Marker.Bears Marker.new full newLine)

/-- The name that two marker lines tell at a strip level. -/
def Tells (level : Int) (oldLine newLine : Line) (name : Bytes) : Prop :=
  ∃ full, Subject oldLine newLine full ∧ Marker.Stripped level full name

/-- What a search in lines comes to, and how many of them it takes. -/
inductive Finds (level : Int) :
    List Line → Except FatalError (Option Bytes) → Nat → Prop
  /-- no line has the old-file marker in front -/
  | nothing {notes : List Line}
      (unmarked : ∀ line ∈ notes, ¬ Marker.old <+: line) :
      Finds level notes (.ok none) notes.length
  /-- the first such line is the last line -/
  | cutOff (l : Lead) :
      Finds level l.lines (.error (.invalidPatch .endAfterOldMarker none))
        l.lines.length
  /-- the line behind it has not the new-file marker in front -/
  | misled (l : Lead) {line : Line} {behind : List Line}
      (unmarked : ¬ Marker.new <+: line) :
      Finds level (l.lines ++ line :: behind)
        (.error (.invalidPatch .unspecified (some line))) (l.lines.length + 1)
  /-- there is a pair of marker lines -/
  | pair (l : Lead) {newLine : Line} {behind : List Line} {name : Bytes}
      (marked : Marker.new <+: newLine)
      (tells : Tells level l.oldLine newLine name) :
      Finds level (l.lines ++ newLine :: behind) (.ok (some name))
        (l.lines.length + 1)

theorem exists_lead_or_unmarked (lines : List Line) :
    (∀ line ∈ lines, ¬ Marker.old <+: line) ∨
      ∃ (l : Lead) (behind : List Line), lines = l.lines ++ behind := by
  induction lines with
  | nil => exact .inl (by simp)
  | cons line lines ih =>
      by_cases hline : Marker.old <+: line
      · exact .inr ⟨⟨[], line, by simp, hline⟩, lines, rfl⟩
      · rcases ih with hnone | ⟨l, behind, rfl⟩
        · exact .inl (by simpa [hline] using hnone)
        · refine .inr ⟨⟨line :: l.notes, l.oldLine, ?_, l.marked⟩, behind, rfl⟩
          simpa [hline] using l.unmarked

theorem name?_eq_some_iff {oldLine newLine : Line} {name : Bytes}
    (hold : Marker.old <+: oldLine) :
    name? level oldLine newLine = some name ↔
      Tells level oldLine newLine name := by
  obtain ⟨oldName, hread⟩ :
      ∃ oldName, Marker.name? Marker.old level oldLine = some oldName :=
    Option.ne_none_iff_exists'.1 fun hnone =>
      Marker.name?_eq_none_iff.1 hnone hold
  simp only [name?, Option.map_eq_some_iff, hread, Option.getD_some,
    Tells, Subject, ← @Marker.name?_zero_eq_some_iff Marker.new Marker.devNull]
  by_cases hnull : Marker.name? Marker.new 0 newLine = some Marker.devNull
  · obtain ⟨newName, hnew⟩ :
        ∃ newName, Marker.name? Marker.new level newLine = some newName := by
      refine Option.ne_none_iff_exists'.1 fun hnone => ?_
      have hzero : Marker.name? Marker.new 0 newLine = none :=
        Marker.name?_eq_none_iff.2 (Marker.name?_eq_none_iff.1 hnone)
      exact absurd (hzero.symm.trans hnull) (by simp)
    simp [hnull, hnew, ← Marker.name?_eq_some_iff, hread]
  · simp [hnull, ← Marker.name?_eq_some_iff]

theorem name?_eq_none_iff {oldLine newLine : Line} :
    name? level oldLine newLine = none ↔ ¬ Marker.new <+: newLine := by
  rw [name?, Option.map_eq_none_iff, Marker.name?_eq_none_iff]

/-! ## The search -/

theorem seekOld_of_notes {notes behind : List Line}
    (hnotes : ∀ line ∈ notes, ¬ Marker.old <+: line)
    (hs : s.ready = notes ++ behind) :
    seekOld s = seekOld (s.skip notes.length) := by
  induction notes generalizing s with
  | nil => rw [List.length_nil, LineStream.skip_zero]
  | cons note notes ih =>
      have hnote := Bytes.after?_eq_none_iff.2 (hnotes note (by simp))
      rw [seekOld_of_unmarked hs hnote, List.length_cons,
        LineStream.skip_succ s notes.length]
      exact ih (s := s.skip 1) (fun line hline => hnotes line (by simp [hline]))
        (by simp [hs])

theorem seekOld_of_lead {l : Lead} {behind : List Line}
    (hs : s.ready = l.lines ++ behind) :
    seekOld s = (some l.oldLine, s.skip l.lines.length) := by
  rw [Lead.lines, List.append_assoc] at hs
  have hready : (s.skip l.notes.length).ready = l.oldLine :: behind := by
    simp [hs]
  rw [seekOld_of_notes l.unmarked hs, seekOld, LineStream.next?_eq_skip hready]
  simp only [Bytes.isSome_after?_iff.2 l.marked, if_true, LineStream.skip_skip,
    Lead.lines, List.length_append, List.length_singleton]

theorem next_of_finds {found : Except FatalError (Option Bytes)} {n : Nat}
    (h : Finds level s.ready found n) : next level s = (found, s.skip n) := by
  generalize hs : s.ready = lines at h
  cases h with
  | nothing unmarked =>
      have hready : (s.skip lines.length).ready = [] := by simp [hs]
      rw [next, seekOld_of_notes unmarked
        (hs.trans (List.append_nil lines).symm), seekOld,
        LineStream.next?_eq_none_iff.2 hready]
  | cutOff l =>
      have hready : (s.skip l.lines.length).ready = [] := by simp [hs]
      rw [next, seekOld_of_lead (hs.trans (List.append_nil _).symm)]
      simp only [LineStream.next?_eq_none_iff.2 hready]
  | @misled l line behind unmarked =>
      have hready : (s.skip l.lines.length).ready = line :: behind := by
        simp [hs]
      rw [next, seekOld_of_lead hs]
      simp only [LineStream.next?_eq_skip hready, name?_eq_none_iff.2 unmarked,
        LineStream.skip_skip]
  | @pair l newLine behind name marked tells =>
      have hready : (s.skip l.lines.length).ready = newLine :: behind := by
        simp [hs]
      rw [next, seekOld_of_lead hs]
      simp only [LineStream.next?_eq_skip hready,
        (name?_eq_some_iff l.marked).2 tells, LineStream.skip_skip]

/-- A search in any lines comes to something. -/
theorem exists_finds (level : Int) (lines : List Line) :
    ∃ found n, Finds level lines found n := by
  rcases exists_lead_or_unmarked lines with hnone | ⟨l, behind, rfl⟩
  · exact ⟨_, _, .nothing hnone⟩
  · cases behind with
    | nil =>
        rw [List.append_nil]
        exact ⟨_, _, .cutOff l⟩
    | cons line behind =>
        by_cases hline : Marker.new <+: line
        · obtain ⟨name, hname⟩ :
              ∃ name, name? level l.oldLine line = some name :=
            Option.ne_none_iff_exists'.1 fun hnone =>
              name?_eq_none_iff.1 hnone hline
          exact ⟨_, _, .pair l hline ((name?_eq_some_iff l.marked).1 hname)⟩
        · exact ⟨_, _, .misled l hline⟩

theorem next_iff_finds {found : Except FatalError (Option Bytes)}
    {rest : LineStream} :
    next level s = (found, rest) ↔
      ∃ n, Finds level s.ready found n ∧ rest = s.skip n := by
  constructor
  · intro h
    obtain ⟨found', n, hfinds⟩ := exists_finds level s.ready
    obtain ⟨rfl, rfl⟩ := Prod.mk.inj ((next_of_finds hfinds).symm.trans h)
    exact ⟨n, hfinds, rfl⟩
  · rintro ⟨n, hfinds, rfl⟩
    exact next_of_finds hfinds

/-! ## Searches one after another -/

/-- Searches one after another, until one finds no section: the names found, the
error that the last search comes to if it fails, and the stream that is left. -/
def nextAll (level : Int) (s : LineStream) :
    List Bytes × Option FatalError × LineStream :=
  match _h : next level s with
  | (.error e, rest) => ([], some e, rest)
  | (.ok none, rest) => ([], none, rest)
  | (.ok (some name), rest) =>
      (name :: (nextAll level rest).1, (nextAll level rest).2)
termination_by s.ready.length
decreasing_by all_goals exact length_next_lt _h

/-- What a search comes to that finds no section. -/
def ending : Option FatalError → Except FatalError (Option Bytes)
  | none => .ok none
  | some e => .error e

/-- Notes, and a pair of marker lines. -/
structure Pair extends Lead where
  newLine : Line
  new_marked : Marker.new <+: newLine

/-- The lines of a piece: the notes and the two marker lines. -/
def Pair.piece (p : Pair) : List Line := p.toLead.lines ++ [p.newLine]

/-- What searches one after another find in lines, and how many of them they
take: the lines are cut into pieces that each end in a pair of marker lines and
tell a name, and a last piece in which no section is found. -/
def FindsAll (level : Int) (lines : List Line) (names : List Bytes)
    (e : Option FatalError) (n : Nat) : Prop :=
  ∃ (pairs : List Pair) (last : List Line) (m : Nat),
    lines = pairs.flatMap Pair.piece ++ last ∧
    List.Forall₂ (fun p name => Tells level p.oldLine p.newLine name)
      pairs names ∧
    Finds level last (ending e) m ∧ n = (pairs.flatMap Pair.piece).length + m

theorem nextAll_of_ending {e : Option FatalError} {rest : LineStream}
    (h : next level s = (ending e, rest)) :
    nextAll level s = ([], e, rest) := by
  rw [nextAll]
  cases e <;> split <;> simp_all [ending]

theorem nextAll_of_some {name : Bytes} {rest : LineStream}
    (h : next level s = (.ok (some name), rest)) :
    nextAll level s =
      (name :: (nextAll level rest).1, (nextAll level rest).2) := by
  rw [nextAll]
  split <;> simp_all

/-- In front of other lines a piece is what one search takes. -/
theorem Pair.finds (p : Pair) {name : Bytes} (more : List Line)
    (h : Tells level p.oldLine p.newLine name) :
    Finds level (p.piece ++ more) (.ok (some name)) p.piece.length := by
  rw [Pair.piece, ← List.append_cons, List.length_append]
  exact .pair p.toLead p.new_marked h

theorem nextAll_of_findsAll {names : List Bytes} {e : Option FatalError}
    {n : Nat} (h : FindsAll level s.ready names e n) :
    nextAll level s = (names, e, s.skip n) := by
  obtain ⟨pairs, last, m, hlines, htells, hending, rfl⟩ := h
  induction htells generalizing s with
  | nil =>
      rw [List.flatMap_nil, List.nil_append] at hlines
      rw [List.flatMap_nil, List.length_nil, Nat.zero_add]
      exact nextAll_of_ending (next_of_finds (hlines ▸ hending))
  | @cons p name pairs names hname htells ih =>
      rw [List.flatMap_cons, List.append_assoc] at hlines
      have hnext := next_of_finds (hlines ▸ p.finds _ hname)
      have hrest := ih (s := s.skip p.piece.length) (by simp [hlines])
      rw [nextAll_of_some hnext, hrest, LineStream.skip_skip, List.flatMap_cons,
        List.length_append, Nat.add_assoc]

theorem exists_findsAll (level : Int) (s : LineStream) : ∃ n,
    FindsAll level s.ready (nextAll level s).1 (nextAll level s).2.1 n := by
  fun_induction nextAll level s with
  | case1 s e rest h =>
      obtain ⟨n, hfinds, -⟩ := next_iff_finds.1 h
      exact ⟨_, [], s.ready, n, rfl, .nil, hfinds, rfl⟩
  | case2 s rest h =>
      obtain ⟨n, hfinds, -⟩ := next_iff_finds.1 h
      exact ⟨_, [], s.ready, n, rfl, .nil, hfinds, rfl⟩
  | case3 s name rest h ih =>
      obtain ⟨k, hfinds, rfl⟩ := next_iff_finds.1 h
      obtain ⟨n, pairs, last, m, hlines, htells, hending, -⟩ := ih
      generalize hs : s.ready = lines at hfinds
      cases hfinds with
      | @pair l newLine behind name marked tells =>
          have hbehind : (s.skip (l.lines.length + 1)).ready = behind := by
            simp [hs]
          refine ⟨_, ⟨l, newLine, marked⟩ :: pairs, last, m, ?_,
            .cons tells htells, hending, rfl⟩
          rw [List.flatMap_cons, List.append_assoc, ← hlines, hbehind]
          exact List.append_cons ..

theorem nextAll_iff_findsAll {names : List Bytes} {e : Option FatalError}
    {rest : LineStream} :
    nextAll level s = (names, e, rest) ↔
      ∃ n, FindsAll level s.ready names e n ∧ rest = s.skip n := by
  constructor
  · intro h
    obtain ⟨n, hfinds⟩ := exists_findsAll level s
    have hall := nextAll_of_findsAll hfinds
    rw [h] at hfinds hall
    simp only [Prod.mk.injEq, true_and] at hall
    exact ⟨n, hfinds, hall⟩
  · rintro ⟨n, hfinds, rfl⟩
    exact nextAll_of_findsAll hfinds

/-- A search in any lines, at any strip level, comes to exactly what the first
line with the old-file marker in front and the line behind it say: the lines are
used up if there is no such line, it fails if no new-file marker line follows,
with the line that does, and otherwise it is the name that the pair tells. It
takes the lines up to there and no other. Searches one after another find the
names of all pairs that they cut the lines into, in order; each begins with the
line behind those that the one before it took. -/
theorem searches_exact (level : Int) (s : LineStream) :
    (∀ found rest, next level s = (found, rest) ↔
      ∃ n, Finds level s.ready found n ∧ rest = s.skip n) ∧
    ∀ names e rest, nextAll level s = (names, e, rest) ↔
      ∃ n, FindsAll level s.ready names e n ∧ rest = s.skip n :=
  ⟨fun _ _ => next_iff_finds, fun _ _ _ => nextAll_iff_findsAll⟩

/-- A file that is deleted, one that is renamed, and an old-file marker without
a line behind it. -/
example : nextAll 1 (.ofBytes
      (Bytes.ascii "diff a b\n--- a/x\t2024\n+++ /dev/null\n" ++
        Bytes.ascii "--- a/y\n+++ b/d/z\r\nnote\n--- a")) =
    ([Bytes.ascii "x", Bytes.ascii "d/z"],
      some (.invalidPatch .endAfterOldMarker none),
      { ready := [], taken := 7 }) := by decide +kernel

end Section

end UnifiedPatch
