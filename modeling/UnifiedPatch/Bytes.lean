/-!
# Byte strings

Files, patches, lines and names are byte strings: a patch program must carry
bytes through that no text encoding explains, so nothing here decodes them. A
byte string is a list, which is what the readers below recurse on and what the
lemmas about them speak of.

Splitting at a separator and joining with it are inverse to each other, and a
piece never holds the separator: that is what makes a path a list of names.
-/

namespace UnifiedPatch

/-- A byte string. -/
abbrev Bytes := List UInt8

namespace Bytes

/-- The bytes of a text of ASCII characters, the only texts the program itself
writes. -/
def ascii (text : String) : Bytes :=
  text.toList.map fun c => c.toNat.toUInt8

/-- The line terminator. -/
def newline : UInt8 := 10

/-- The separator of path segments. -/
def slash : UInt8 := 47

/-- What follows `lead` in `s`, if `s` starts with `lead`. -/
def after? : (lead s : Bytes) → Option Bytes
  | [], s => some s
  | _ :: _, [] => none
  | a :: lead, b :: s => if a = b then after? lead s else none

/-- The pieces of `s` between the separators; there is one more piece than
there are separators. -/
def splitOn (sep : UInt8) : Bytes → List Bytes
  | [] => [[]]
  | b :: s =>
      if b = sep then [] :: splitOn sep s
      else
        match splitOn sep s with
        | [] => [[b]]
        | piece :: pieces => (b :: piece) :: pieces

/-- The pieces with one separator between each two of them. -/
def joinWith (sep : UInt8) : List Bytes → Bytes
  | [] => []
  | [piece] => piece
  | piece :: pieces => piece ++ sep :: joinWith sep pieces

/-! ## The laws of splitting -/

theorem after?_eq_some_iff {lead s rest : Bytes} :
    after? lead s = some rest ↔ s = lead ++ rest := by
  induction lead generalizing s with
  | nil => simp [after?, eq_comm]
  | cons a lead ih =>
      cases s with
      | nil => simp [after?]
      | cons b s =>
          by_cases h : a = b
          · simp [after?, h, ih]
          · simp [after?, h, Ne.symm h]

theorem splitOn_ne_nil (sep : UInt8) (s : Bytes) : splitOn sep s ≠ [] := by
  cases s with
  | nil => simp [splitOn]
  | cons b s =>
      unfold splitOn
      split
      · simp
      · split <;> simp

/-- Joining the pieces gives the byte string back. -/
theorem joinWith_splitOn (sep : UInt8) (s : Bytes) :
    joinWith sep (splitOn sep s) = s := by
  induction s with
  | nil => rfl
  | cons b s ih =>
      unfold splitOn
      split
      · next h =>
          cases hs : splitOn sep s with
          | nil => exact absurd hs (splitOn_ne_nil sep s)
          | cons piece pieces =>
              rw [hs] at ih
              simp [joinWith, ih, h]
      · cases hs : splitOn sep s with
        | nil => exact absurd hs (splitOn_ne_nil sep s)
        | cons piece pieces =>
            rw [hs] at ih
            cases pieces with
            | nil => simpa [joinWith] using ih
            | cons next pieces => simpa [joinWith] using ih

/-- No piece holds the separator. -/
theorem sep_not_mem_of_mem_splitOn {sep : UInt8} {s piece : Bytes}
    (h : piece ∈ splitOn sep s) : sep ∉ piece := by
  induction s generalizing piece with
  | nil =>
      simp [splitOn] at h
      simp [h]
  | cons b s ih =>
      unfold splitOn at h
      split at h
      · rcases List.mem_cons.1 h with rfl | h
        · simp
        · exact ih h
      · next hb =>
          split at h
          · next hs => exact absurd hs (splitOn_ne_nil sep s)
          · next first pieces hs =>
              rcases List.mem_cons.1 h with rfl | h
              · have : sep ∉ first := ih (by simp [hs])
                simp [Ne.symm hb, this]
              · exact ih (by simp [hs, h])

theorem splitOn_of_not_mem {sep : UInt8} {piece : Bytes} (h : sep ∉ piece) :
    splitOn sep piece = [piece] := by
  induction piece with
  | nil => rfl
  | cons b piece ih =>
      rw [List.mem_cons, not_or] at h
      rw [splitOn, if_neg (Ne.symm h.1), ih h.2]

/-- A separator cuts whatever stands on either side. -/
theorem splitOn_append_sep (sep : UInt8) (front back : Bytes) :
    splitOn sep (front ++ sep :: back) =
      splitOn sep front ++ splitOn sep back := by
  induction front with
  | nil => simp [splitOn]
  | cons b front ih =>
      rw [List.cons_append, splitOn, splitOn, ih]
      split
      · rfl
      · cases hfront : splitOn sep front with
        | nil => exact absurd hfront (splitOn_ne_nil sep front)
        | cons piece pieces => rfl

/-- There is one more piece than there are separators. -/
theorem length_splitOn (sep : UInt8) (s : Bytes) :
    (splitOn sep s).length = s.count sep + 1 := by
  induction s with
  | nil => rfl
  | cons b s ih =>
      rw [splitOn]
      split
      · next h => simp [h, ih]
      · next h =>
          rw [List.count_cons_of_ne h, ← ih]
          cases hs : splitOn sep s with
          | nil => exact absurd hs (splitOn_ne_nil sep s)
          | cons piece pieces => rfl

theorem joinWith_append {sep : UInt8} {front back : List Bytes}
    (hfront : front ≠ []) (hback : back ≠ []) :
    joinWith sep (front ++ back) =
      joinWith sep front ++ sep :: joinWith sep back := by
  induction front with
  | nil => exact absurd rfl hfront
  | cons piece front ih =>
      cases front with
      | nil =>
          cases back with
          | nil => exact absurd rfl hback
          | cons next back => rfl
      | cons next front =>
          simpa [joinWith] using ih (List.cons_ne_nil next front)

/-- Cutting gives the pieces back that were joined, if none of them holds the
separator. -/
theorem splitOn_joinWith {sep : UInt8} {pieces : List Bytes} (hne : pieces ≠ [])
    (h : ∀ piece ∈ pieces, sep ∉ piece) :
    splitOn sep (joinWith sep pieces) = pieces := by
  induction pieces with
  | nil => exact absurd rfl hne
  | cons piece pieces ih =>
      have hpiece := h piece (by simp)
      by_cases hmore : pieces = []
      · rw [hmore, joinWith, splitOn_of_not_mem hpiece]
      · rw [← List.singleton_append, joinWith_append (by simp) hmore,
          splitOn_append_sep, ih hmore fun other hmem =>
            h other (by simp [hmem]), joinWith,
          splitOn_of_not_mem hpiece]

/-- A joined text begins with the separator if its first piece is empty and not
its last. -/
theorem head?_joinWith_eq_iff {sep : UInt8} {pieces : List Bytes}
    (h : ∀ piece ∈ pieces, sep ∉ piece) :
    (joinWith sep pieces).head? = some sep ↔
      ∃ more, more ≠ [] ∧ pieces = [] :: more := by
  cases pieces with
  | nil => simp [joinWith]
  | cons piece pieces =>
      cases piece with
      | nil => cases pieces <;> simp [joinWith]
      | cons b piece =>
          have hb : b ≠ sep :=
            fun heq => h _ List.mem_cons_self (heq ▸ List.mem_cons_self)
          cases pieces <;> simp [joinWith, hb]

/-! ## What stands in front -/

theorem isSome_after?_iff {lead s : Bytes} :
    (after? lead s).isSome ↔ lead <+: s := by
  simp only [Option.isSome_iff_exists, after?_eq_some_iff]
  exact ⟨fun ⟨rest, h⟩ => ⟨rest, h.symm⟩, fun ⟨rest, h⟩ => ⟨rest, h.symm⟩⟩

theorem after?_eq_none_iff {lead s : Bytes} :
    after? lead s = none ↔ ¬ lead <+: s := by
  rw [← isSome_after?_iff, Option.not_isSome_iff_eq_none]

/-- The longest stretch of bytes of a kind, and what follows it. -/
theorem takeWhile_eq_and_dropWhile_eq_iff {p : UInt8 → Bool}
    {s front back : Bytes} :
    s.takeWhile p = front ∧ s.dropWhile p = back ↔
      s = front ++ back ∧ (∀ b ∈ front, p b = true) ∧
      ∀ b ∈ back.head?, p b = false := by
  constructor
  · rintro ⟨rfl, rfl⟩
    refine ⟨List.takeWhile_append_dropWhile.symm,
      List.all_eq_true.1 List.all_takeWhile, ?_⟩
    intro b hb
    have hhead := List.head?_dropWhile_not p s
    rw [hb] at hhead
    simpa using hhead
  · rintro ⟨rfl, hfront, hback⟩
    rw [List.takeWhile_append_of_pos hfront,
      List.dropWhile_append_of_pos hfront]
    cases back with
    | nil => simp
    | cons b back => simp [hback b rfl]

end Bytes

end UnifiedPatch
