import UnifiedPatch.Proofs.LineReading

/-!
# How many lines there are when pieces are put together

A text is cut behind each newline, so each of its lines has one newline at most
and none but the last lacks it (`single_of_mem_lines`,
`terminated_of_mem_dropLast_lines`). Pieces of that kind that are put together
in another order need not stay apart: one that lacks its newline joins with the
next one, and one that is empty is not seen at all. So the text has at most as
many lines as there were pieces. It has as many exactly if no piece but the last
lacks its newline and the last is not empty (`Separate`).
-/

namespace UnifiedPatch

/-- A line that has no newline but at its end. -/
def Line.Single (line : Line) : Prop := Bytes.newline ∉ line.dropLast

instance (line : Line) : Decidable line.Single :=
  inferInstanceAs (Decidable (¬ _))

/-- Pieces that stay apart when they are put together. -/
def Separate (pieces : List Line) : Prop :=
  (∀ piece ∈ pieces.dropLast, piece.Terminated) ∧ pieces.getLast? ≠ some []

instance (pieces : List Line) : Decidable (Separate pieces) :=
  inferInstanceAs (Decidable (_ ∧ _))

namespace Line

variable {line : Line}

theorem Terminated.ne_nil (h : line.Terminated) : line ≠ [] := by
  rintro rfl
  exact absurd h.1 (by simp)

theorem Terminated.of_cons {b : UInt8} (h : Terminated (b :: line))
    (hb : b ≠ Bytes.newline) :
    line.Terminated := by
  obtain ⟨hlast, hrest⟩ := h
  cases line with
  | nil => exact absurd (Option.some.inj hlast) hb
  | cons b' text =>
      rw [List.dropLast_cons_cons] at hrest
      exact ⟨by rwa [List.getLast?_cons_cons] at hlast,
        fun hmem => hrest (List.mem_cons_of_mem b hmem)⟩

theorem Single.tail (h : line.Single) : Single line.tail := by
  cases line with
  | nil => exact h
  | cons b text =>
      cases text with
      | nil => exact List.not_mem_nil
      | cons b' text =>
          intro hmem
          exact h (List.mem_cons_of_mem b hmem)

/-- A single line has its newline, or none. -/
theorem Single.cases (h : line.Single) :
    line.Terminated ∨ Bytes.newline ∉ line := by
  rcases List.eq_nil_or_concat line with rfl | ⟨text, last, hconcat⟩
  · exact .inr List.not_mem_nil
  · rw [List.concat_eq_append] at hconcat
    subst hconcat
    by_cases hlast : last = Bytes.newline
    · exact .inl ⟨by rw [List.getLast?_concat, hlast], h⟩
    · rw [Single, List.dropLast_concat] at h
      exact .inr (by simpa using ⟨h, Ne.symm hlast⟩)

end Line

theorem separate_of_terminated {pieces : List Line}
    (h : ∀ piece ∈ pieces, piece.Terminated) :
    Separate pieces := by
  refine ⟨fun piece hpiece => h piece (List.dropLast_subset _ hpiece),
    fun hlast => ?_⟩
  exact (h [] (List.mem_of_getLast? hlast)).ne_nil rfl

namespace Bytes

variable {s text : Bytes} {line piece : Line}

/-! ## The lines of a text -/

theorem lines_eq_nil_iff : s.lines = [] ↔ s = [] := by
  refine ⟨fun h => ?_, fun h => by rw [h, lines]⟩
  rw [← flatten_lines s, h, List.flatten_nil]

theorem single_of_mem_lines (h : line ∈ s.lines) : line.Single := by
  induction s generalizing line with
  | nil => exact absurd h List.not_mem_nil
  | cons b s ih =>
      unfold lines at h
      split at h
      · rcases List.mem_cons.1 h with rfl | hmem
        · exact List.not_mem_nil
        · exact ih hmem
      · next hb =>
          split at h
          · rw [List.mem_singleton.1 h]
            exact List.not_mem_nil
          · next first more hs =>
              rcases List.mem_cons.1 h with rfl | hmem
              · have hfirst : first ∈ lines s := by
                  rw [hs]
                  exact List.mem_cons_self
                rw [Line.Single,
                  List.dropLast_cons_of_ne_nil (ne_nil_of_mem_lines hfirst)]
                exact List.not_mem_cons_of_ne_of_not_mem (Ne.symm hb)
                  (ih hfirst)
              · exact ih (by rw [hs]; exact List.mem_cons_of_mem _ hmem)

theorem terminated_of_mem_dropLast_lines (h : line ∈ s.lines.dropLast) :
    line.Terminated := by
  induction s generalizing line with
  | nil => exact absurd h List.not_mem_nil
  | cons b s ih =>
      unfold lines at h
      split at h
      · next hb =>
          cases hs : lines s with
          | nil =>
              rw [hs] at h
              exact absurd h List.not_mem_nil
          | cons first more =>
              rw [hs, List.dropLast_cons_of_ne_nil (by simp), ← hs] at h
              rcases List.mem_cons.1 h with rfl | hmem
              · rw [hb]
                decide
              · exact ih hmem
      · next hb =>
          split at h
          · exact absurd h List.not_mem_nil
          · next first more hs =>
              cases more with
              | nil => exact absurd h List.not_mem_nil
              | cons second more =>
                  rw [List.dropLast_cons_of_ne_nil (by simp)] at h
                  have hbefore : (lines s).dropLast =
                      first :: (second :: more).dropLast := by
                    rw [hs, List.dropLast_cons_of_ne_nil (by simp)]
                  rcases List.mem_cons.1 h with rfl | hmem
                  · refine Line.Terminated.cons (ih ?_) hb
                    rw [hbefore]
                    exact List.mem_cons_self
                  · exact ih
                      (by rw [hbefore]; exact List.mem_cons_of_mem _ hmem)

/-- A line of a text that lacks its newline is the last one. -/
theorem getLast?_lines_of_not_terminated (h : line ∈ s.lines)
    (hnot : ¬ line.Terminated) :
    s.lines.getLast? = some line := by
  have hfront : line ∉ s.lines.dropLast :=
    fun hmem => hnot (terminated_of_mem_dropLast_lines hmem)
  rcases List.eq_nil_or_concat s.lines with hnil | ⟨front, last, hconcat⟩
  · rw [hnil] at h
    exact absurd h List.not_mem_nil
  · rw [List.concat_eq_append] at hconcat
    rw [hconcat] at h hfront ⊢
    rw [List.dropLast_concat] at hfront
    rw [List.getLast?_concat,
      List.mem_singleton.1 ((List.mem_append.1 h).resolve_left hfront)]

/-! ## The lines of pieces put together -/

/-- A byte in front makes a line only if there is none. -/
theorem length_lines_cons {b : UInt8} (hb : b ≠ newline) (s : Bytes) :
    (lines (b :: s)).length = max 1 s.lines.length := by
  rw [lines, if_neg hb]
  split
  · next hs => rw [hs]; rfl
  · next hs =>
      rw [hs, List.length_cons, List.length_cons]
      omega

theorem length_lines_append_of_not_mem (h : newline ∉ text) (hne : text ≠ [])
    (rest : Bytes) :
    (lines (text ++ rest)).length = max 1 rest.lines.length := by
  induction text with
  | nil => exact absurd rfl hne
  | cons b text ih =>
      obtain ⟨hb, htext⟩ := List.ne_and_not_mem_of_not_mem_cons h
      rw [List.cons_append, length_lines_cons (Ne.symm hb)]
      cases text with
      | nil => rfl
      | cons b' text =>
          rw [ih htext (by simp)]
          omega

/-- A piece in front makes one line more if it has its newline, or if it is all
there is. -/
theorem length_lines_append (h : piece.Single) (rest : Bytes) :
    (lines (piece ++ rest)).length ≤ rest.lines.length + 1 ∧
      ((lines (piece ++ rest)).length = rest.lines.length + 1 ↔
        piece.Terminated ∨ piece ≠ [] ∧ rest = []) := by
  rcases h.cases with hline | hnone
  · obtain ⟨text, htext, rfl⟩ := hline.eq_append
    have hcut := lines_append_newline htext rest
    rw [List.append_assoc, List.singleton_append, hcut, List.length_cons]
    exact ⟨Nat.le_refl _, by simp [hline]⟩
  · have hnot : ¬ piece.Terminated :=
      fun hline => hnone (List.mem_of_getLast? hline.1)
    by_cases hne : piece = []
    · subst hne
      simp [hnot]
    · rw [length_lines_append_of_not_mem hnone hne, ← lines_eq_nil_iff,
        ← List.length_eq_zero_iff]
      simp only [hnot, hne, ne_eq, not_false_eq_true, false_or, true_and]
      omega

/-- Pieces put together have at most as many lines as they are, and as many
exactly if they stay apart. -/
theorem length_lines_flatten {pieces : List Line}
    (h : ∀ piece ∈ pieces, piece.Single) :
    (lines pieces.flatten).length ≤ pieces.length ∧
      ((lines pieces.flatten).length = pieces.length ↔ Separate pieces) := by
  induction pieces with
  | nil => exact ⟨Nat.le_refl 0, by simp [lines, Separate]⟩
  | cons piece more ih =>
      obtain ⟨hle, hiff⟩ := ih fun other hother => h other (by simp [hother])
      obtain ⟨hone, hone'⟩ :=
        length_lines_append (h piece (by simp)) more.flatten
      have hcount : (lines (piece :: more).flatten).length =
          (piece :: more).length ↔
          (piece.Terminated ∨ piece ≠ [] ∧ more.flatten = []) ∧
          Separate more := by
        rw [← hone', ← hiff, List.flatten_cons, List.length_cons]
        omega
      refine ⟨by rw [List.flatten_cons, List.length_cons]; omega,
        hcount.trans ?_⟩
      cases more with
      | nil =>
          have hterminated : piece.Terminated → piece ≠ [] :=
            Line.Terminated.ne_nil
          simpa [Separate] using hterminated
      | cons next more =>
          have hsome : Separate (next :: more) →
              (next :: more).flatten ≠ [] := by
            intro hapart hempty
            have hlength := hiff.2 hapart
            rw [hempty, lines, List.length_nil, List.length_cons] at hlength
            omega
          have hcons : Separate (piece :: next :: more) ↔
              piece.Terminated ∧ Separate (next :: more) := by
            simp only [Separate, List.dropLast_cons_cons, List.forall_mem_cons,
              List.getLast?_cons_cons, and_assoc]
          rw [hcons]
          constructor
          · rintro ⟨hline | ⟨-, hempty⟩, hapart⟩
            · exact ⟨hline, hapart⟩
            · exact absurd hempty (hsome hapart)
          · rintro ⟨hline, hapart⟩
            exact ⟨.inl hline, hapart⟩

end Bytes

end UnifiedPatch
