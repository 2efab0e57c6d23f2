import Mathlib.Data.List.Induction
import Mathlib.Data.Nat.Digits.Defs
import UnifiedPatch.Proofs.PatchText

/-!
# The form of a hunk header

A header is a text of four digit runs with fixed bytes between them, two of
which may be left out with their comma, and then anything (`HasForm`). Read
from the front the form is unambiguous. A run before the last is followed by a
comma or a blank, so it is as long as it can be. Only behind the last run
anything may stand, and there the form says that no digit follows, and that a
count is taken if there is one. The reader takes the runs of the form and no
others (`runs?_eq_some_iff`).

A number is then what its run says in base ten, leading zeros included, and the
first run that is too long makes the header unreadable (`readHeader_of_form`).
Printed numbers are runs, so every hunk is read back from its header, printed in
full or with a count of one left out (`readHeader_printed`).
-/

namespace UnifiedPatch

namespace Decimal

/-- A run of digits, at least one. -/
def IsRun (run : Bytes) : Prop := run ≠ [] ∧ ∀ b ∈ run, isDigit b = true

theorem isRun_ofNat (n : Nat) : IsRun (ofNat n) :=
  ⟨ofNat_ne_nil n, fun _ => isDigit_of_mem_ofNat⟩

/-- The value of a run is what its digits say in base ten. -/
theorem value_eq_ofDigits (run : Bytes) :
    value run = Nat.ofDigits 10 (run.reverse.map fun b => b.toNat - 48) := by
  induction run using List.reverseRecOn with
  | nil => rfl
  | append_singleton run b ih =>
      have hlast : value (run ++ [b]) = 10 * value run + (b.toNat - 48) := by
        simp [value, valueFrom]
      rw [hlast, ih, List.reverse_concat, List.map_cons, Nat.ofDigits_cons,
        Nat.add_comm]

/-- A number below a power of ten has at most that many digits. -/
theorem length_ofNat_le {n k : Nat} (hk : 0 < k) (h : n < 10 ^ k) :
    (ofNat n).length ≤ k := by
  fun_induction ofNat n generalizing k with
  | case1 n hn => exact hk
  | case2 n hn ih =>
      obtain ⟨k, rfl⟩ :=
        Nat.exists_eq_add_one_of_ne_zero (Nat.pos_iff_ne_zero.1 hk)
      have hpow : n / 10 < 10 ^ k := Nat.div_lt_of_lt_mul (Nat.pow_succ' ▸ h)
      -- A number of two digits or more is not below the zeroth power of ten.
      have hk' : 0 < k := by
        refine Nat.pos_of_ne_zero fun hzero => hn ?_
        simpa [hzero] using h
      rw [List.length_append]
      exact Nat.succ_le_succ (ih hk' hpow)

end Decimal

namespace Hunk

open Decimal (IsRun isDigit)

/-! ## The form -/

/-- No digit stands in front. -/
def StopsRun (s : Bytes) : Prop := ∀ b ∈ s.head?, isDigit b = false

/-- A comma and a digit stand in front. -/
def StartsCount (s : Bytes) : Prop :=
  ∃ b rest, s = 44 :: b :: rest ∧ isDigit b = true

/-- A count as it is written: its run after a comma, or nothing. -/
def countText : Option Bytes → Bytes
  | none => []
  | some run => Bytes.ascii "," ++ run

/-- The text of a header up to its last digit. -/
def Runs.text (r : Runs) : Bytes :=
  Bytes.ascii "@@ -" ++ (r.oldStart ++ (countText r.oldCount ++
    (Bytes.ascii " +" ++ (r.newStart ++ countText r.newCount))))

/-- A line reads as a header of four runs and a rest: the last run is as long as
it can be, and the last count is taken if it can be. -/
structure HasForm (line : Line) (r : Runs) (rest : Bytes) : Prop where
  text : line = r.text ++ rest
  runs : ∀ run ∈ r.all, IsRun run
  maximal : StopsRun rest
  counted : r.newCount = none → ¬ StartsCount rest

/-! ## One run, one count -/

variable {run s rest : Bytes} {line : Line} {r : Runs}

theorem stopsRun_blank (rest : Bytes) :
    StopsRun (Bytes.ascii " +" ++ rest) := by
  intro b hb
  obtain rfl : 32 = b := by simpa [Bytes.ascii] using hb
  rfl

/-- Behind a run that has no count the rest goes on, and a comma stops a run. -/
theorem stopsRun_countText (count : Option Bytes) (h : StopsRun rest) :
    StopsRun (countText count ++ rest) := by
  cases count with
  | none => exact h
  | some run =>
      intro b hb
      obtain rfl : 44 = b := by simpa [countText, Bytes.ascii] using hb
      rfl

theorem digitRun?_eq_some_iff :
    digitRun? s = some (run, rest) ↔
      s = run ++ rest ∧ IsRun run ∧ StopsRun rest := by
  constructor
  · intro h
    unfold digitRun? at h
    split at h
    · exact absurd h (by simp)
    · next found hne =>
        obtain ⟨rfl, rfl⟩ := Prod.mk.inj (Option.some.inj h)
        obtain ⟨hs, hrun, hstop⟩ :=
          (Bytes.takeWhile_eq_and_dropWhile_eq_iff (p := isDigit) (s := s)).1
            ⟨rfl, rfl⟩
        exact ⟨hs, ⟨hne, hrun⟩, hstop⟩
  · rintro ⟨hs, ⟨hne, hrun⟩, hstop⟩
    obtain ⟨htake, hdrop⟩ :=
      Bytes.takeWhile_eq_and_dropWhile_eq_iff.2 ⟨hs, hrun, hstop⟩
    unfold digitRun?
    rw [htake, hdrop]
    split
    · exact absurd rfl hne
    · rfl

theorem digitRun?_eq_none_iff : digitRun? s = none ↔ StopsRun s := by
  unfold digitRun? StopsRun
  cases s with
  | nil => simp
  | cons b s =>
      cases hb : isDigit b <;> simp [hb]

theorem startsCount_iff : StartsCount s ↔
    ∃ run rest, s = Bytes.ascii "," ++ (run ++ rest) ∧ IsRun run ∧
      StopsRun rest := by
  constructor
  · rintro ⟨b, more, rfl, hb⟩
    cases hrun : digitRun? (b :: more) with
    | none =>
        have hstop := digitRun?_eq_none_iff.1 hrun b rfl
        exact absurd (hb.symm.trans hstop) (by simp)
    | some found =>
        obtain ⟨hs, hfound⟩ := digitRun?_eq_some_iff.1 hrun
        exact ⟨found.1, found.2, congrArg (44 :: ·) hs, hfound⟩
  · rintro ⟨run, rest, rfl, ⟨hne, hdigits⟩, -⟩
    cases run with
    | nil => exact absurd rfl hne
    | cons b run => exact ⟨b, run ++ rest, rfl, hdigits b (by simp)⟩

theorem countRun_of_run (hrun : IsRun run) (hstop : StopsRun rest) :
    countRun (Bytes.ascii "," ++ (run ++ rest)) = (some run, rest) := by
  unfold countRun
  rw [Bytes.after?_eq_some_iff.2 rfl]
  simp only [digitRun?_eq_some_iff.2 ⟨rfl, hrun, hstop⟩]

theorem countRun_of_not_startsCount (h : ¬ StartsCount s) :
    countRun s = (none, s) := by
  unfold countRun
  split
  · rfl
  · next afterComma hcomma =>
      split
      · rfl
      · next run rest hrun =>
          obtain ⟨rfl, hfound⟩ := digitRun?_eq_some_iff.1 hrun
          exact absurd (startsCount_iff.2
            ⟨run, rest, Bytes.after?_eq_some_iff.1 hcomma, hfound⟩) h

theorem countRun_eq_iff {count : Option Bytes} :
    countRun s = (count, rest) ↔ s = countText count ++ rest ∧
      (∀ run ∈ count, IsRun run ∧ StopsRun rest) ∧
      (count = none → ¬ StartsCount rest) := by
  constructor
  · intro h
    by_cases hs : StartsCount s
    · obtain ⟨run, rest', rfl, hrun, hstop⟩ := startsCount_iff.1 hs
      rw [countRun_of_run hrun hstop] at h
      obtain ⟨rfl, rfl⟩ := Prod.mk.inj h
      exact ⟨(List.append_assoc ..).symm, by simpa using ⟨hrun, hstop⟩, by simp⟩
    · rw [countRun_of_not_startsCount hs] at h
      obtain ⟨rfl, rfl⟩ := Prod.mk.inj h
      exact ⟨rfl, by simp, fun _ => hs⟩
  · rintro ⟨rfl, hrun, hstarts⟩
    cases count with
    | none => exact countRun_of_not_startsCount (hstarts rfl)
    | some run =>
        obtain ⟨hrun, hstop⟩ := hrun run rfl
        rw [countText, List.append_assoc]
        exact countRun_of_run hrun hstop

/-! ## The four runs -/

theorem runs?_of_form (h : HasForm line r rest) : runs? line = some r := by
  obtain ⟨oldStart, oldCount, newStart, newCount⟩ := r
  obtain ⟨rfl, hruns, hstop, hstarts⟩ := h
  simp only [Runs.all, List.mem_cons, List.mem_append,
    Option.mem_toList] at hruns
  have hblank := stopsRun_blank (newStart ++ (countText newCount ++ rest))
  have hold := digitRun?_eq_some_iff.2
    ⟨rfl, hruns oldStart (by simp), stopsRun_countText oldCount hblank⟩
  have holdCount := countRun_eq_iff.2
    ⟨rfl, fun run hrun => ⟨hruns run (.inr (.inl hrun)), hblank⟩, fun _ =>
      (by rintro ⟨b, more, heq, -⟩; simp [Bytes.ascii] at heq)⟩
  have hnew := digitRun?_eq_some_iff.2
    ⟨rfl, hruns newStart (by simp), stopsRun_countText newCount hstop⟩
  have hnewCount := countRun_eq_iff.2
    ⟨rfl, fun run hrun => ⟨hruns run (.inr (.inr (.inr hrun))), hstop⟩, hstarts⟩
  simp only [runs?, Runs.text, List.append_assoc,
    Bytes.after?_eq_some_iff.2 rfl, hold, holdCount, hnew, hnewCount,
    Option.bind_eq_bind, Option.bind_some]
  rfl

theorem form_of_runs? (h : runs? line = some r) :
    ∃ rest, HasForm line r rest := by
  simp only [runs?, Option.bind_eq_bind, Option.bind_eq_some_iff] at h
  obtain ⟨s₁, hlead, ⟨oldStart, s₂⟩, hold, s₃, hplus, ⟨newStart, s₄⟩,
      hnew, hr⟩ := h
  generalize holdCount : countRun s₂ = found at hplus hr
  generalize hnewCount : countRun s₄ = found' at hr
  obtain ⟨oldCount, s₅⟩ := found
  obtain ⟨newCount, rest⟩ := found'
  obtain rfl := Option.some.inj hr
  obtain rfl := Bytes.after?_eq_some_iff.1 hlead
  obtain ⟨rfl, holdRun, -⟩ := digitRun?_eq_some_iff.1 hold
  obtain ⟨rfl, holdCount, -⟩ := countRun_eq_iff.1 holdCount
  obtain rfl := Bytes.after?_eq_some_iff.1 hplus
  obtain ⟨rfl, hnewRun, hstop⟩ := digitRun?_eq_some_iff.1 hnew
  obtain ⟨rfl, hnewCount, hstarts⟩ := countRun_eq_iff.1 hnewCount
  refine ⟨rest, ?_, ?_, ?_, hstarts⟩
  · simp only [Runs.text, List.append_assoc]
  · simp only [Runs.all, List.mem_cons, List.mem_append, Option.mem_toList]
    rintro run (rfl | hrun | rfl | hrun)
    · exact holdRun
    · exact (holdCount run hrun).1
    · exact hnewRun
    · exact (hnewCount run hrun).1
  · cases newCount with
    | none => exact hstop
    | some run => exact (hnewCount run rfl).2

/-- The runs that are read off a line are those of its form. -/
theorem runs?_eq_some_iff : runs? line = some r ↔ ∃ rest, HasForm line r rest :=
  ⟨form_of_runs?, fun ⟨_, h⟩ => runs?_of_form h⟩

theorem runs?_eq_none_iff :
    runs? line = none ↔ ¬ ∃ r rest, HasForm line r rest := by
  simp only [← runs?_eq_some_iff, not_exists]
  exact Option.eq_none_iff_forall_ne_some

/-! ## The four numbers -/

theorem Runs.overlong?_eq_none_iff :
    r.overlong? = none ↔ ∀ run ∈ r.all, run.length ≤ digitLimit := by
  simp [overlong?]

theorem Runs.exists_overlong?_iff :
    (∃ run, r.overlong? = some run) ↔
      ∃ run ∈ r.all, digitLimit < run.length := by
  rw [← Option.isSome_iff_exists, overlong?, List.find?_isSome]
  simp

theorem readHeader_of_form (h : HasForm line r rest) : readHeader line =
    match r.overlong? with
    | none => .ok (some (ofDigits r))
    | some run => .error ⟨run.length⟩ :=
  readHeader_of_runs (runs?_of_form h)

theorem readHeader_of_not_form (h : ¬ ∃ r rest, HasForm line r rest) :
    readHeader line = .ok none := by
  simp only [readHeader, runs?_eq_none_iff.2 h]

theorem readHeader_eq_none_iff :
    readHeader line = .ok none ↔ ¬ ∃ r rest, HasForm line r rest := by
  refine ⟨?_, readHeader_of_not_form⟩
  rintro hread ⟨r, rest, hform⟩
  rw [readHeader_of_form hform] at hread
  cases hlong : r.overlong? <;> simp [hlong] at hread

theorem readHeader_eq_error_iff {overlong : OverlongRun} :
    readHeader line = .error overlong ↔
      ∃ r rest, HasForm line r rest ∧ ∃ run, r.overlong? = some run ∧
        overlong = ⟨run.length⟩ := by
  constructor
  · intro hread
    by_cases hform : ∃ r rest, HasForm line r rest
    · obtain ⟨r, rest, hform⟩ := hform
      rw [readHeader_of_form hform] at hread
      cases hlong : r.overlong? with
      | none => simp [hlong] at hread
      | some run =>
          rw [hlong] at hread
          exact ⟨r, rest, hform, run, hlong, (Except.error.inj hread).symm⟩
    · rw [readHeader_of_not_form hform] at hread
      exact absurd hread (by simp)
  · rintro ⟨r, rest, hform, run, hlong, rfl⟩
    rw [readHeader_of_form hform, hlong]

theorem readHeader_eq_some_iff {hunk : Hunk} :
    readHeader line = .ok (some hunk) ↔
      ∃ r rest, HasForm line r rest ∧ r.overlong? = none ∧
        ofDigits r = hunk := by
  constructor
  · intro hread
    obtain ⟨r, hr, rfl⟩ := runs_of_readHeader hread
    obtain ⟨rest, hform⟩ := form_of_runs? hr
    rw [readHeader_of_form hform] at hread
    cases hlong : r.overlong? with
    | none => exact ⟨r, rest, hform, hlong, rfl⟩
    | some run => simp [hlong] at hread
  · rintro ⟨r, rest, hform, hlong, rfl⟩
    rw [readHeader_of_form hform, hlong]

/-! ## Printed headers -/

/-- The digits of a hunk as they are printed. A count of one may be left out. -/
def printed (h : Hunk) (leaveOld leaveNew : Bool) : Runs where
  oldStart := Decimal.ofNat h.old.start
  oldCount := if leaveOld then none else some (Decimal.ofNat h.old.count)
  newStart := Decimal.ofNat h.new.start
  newCount := if leaveNew then none else some (Decimal.ofNat h.new.count)

variable {h : Hunk} {leaveOld leaveNew : Bool}

/-- Every run of a printed header is one of the four numbers. -/
theorem exists_ofNat_of_mem_printed
    (hrun : run ∈ (h.printed leaveOld leaveNew).all) :
    ∃ n ∈ [h.old.start, h.old.count, h.new.start, h.new.count], run =
      Decimal.ofNat n := by
  cases leaveOld <;> cases leaveNew <;> simp [printed, Runs.all] at hrun ⊢ <;>
    grind

theorem ofDigits_printed (hold : leaveOld = true → h.old.count = 1)
    (hnew : leaveNew = true → h.new.count = 1) :
    ofDigits (h.printed leaveOld leaveNew) = h := by
  obtain ⟨⟨a, b⟩, ⟨c, d⟩⟩ := h
  cases leaveOld <;> cases leaveNew <;>
    simp_all [ofDigits, printed, Decimal.value_ofNat]

theorem hasForm_printed (hstop : StopsRun rest)
    (hcount : leaveNew = true → ¬ StartsCount rest) :
    HasForm ((h.printed leaveOld leaveNew).text ++ rest)
      (h.printed leaveOld leaveNew) rest where
  text := rfl
  runs run hrun := by
    obtain ⟨n, -, rfl⟩ := exists_ofNat_of_mem_printed hrun
    exact Decimal.isRun_ofNat n
  maximal := hstop
  counted hnone := by
    refine hcount ?_
    cases leaveNew with
    | true => rfl
    | false => exact absurd hnone (by simp [printed])

/-- A hunk is read back from its header. -/
theorem readHeader_printed
    (hshort : ∀ n ∈ [h.old.start, h.old.count, h.new.start, h.new.count], n <
      10 ^ digitLimit)
    (hold : leaveOld = true → h.old.count = 1)
    (hnew : leaveNew = true → h.new.count = 1) (hstop : StopsRun rest)
    (hcount : leaveNew = true → ¬ StartsCount rest) :
    readHeader ((h.printed leaveOld leaveNew).text ++ rest) = .ok (some h) := by
  refine readHeader_eq_some_iff.2
    ⟨_, rest, hasForm_printed hstop hcount, ?_, ofDigits_printed hold hnew⟩
  refine Runs.overlong?_eq_none_iff.2 fun run hrun => ?_
  obtain ⟨n, hn, rfl⟩ := exists_ofNat_of_mem_printed hrun
  exact Decimal.length_ofNat_le (by decide) (hshort n hn)

/-- The header reader accepts the form of a header and nothing else, refuses a
header for a run that is too long and for nothing else, and otherwise returns
the four values in base ten. So it undoes printing, and the hunk that it returns
turns round. -/
theorem readHeader_exact :
    (∀ line : Line,
      (readHeader line = .ok none ↔ ¬ ∃ r rest, HasForm line r rest) ∧
      ((∃ overlong, readHeader line = .error overlong) ↔
        ∃ r rest, HasForm line r rest ∧
          ∃ run ∈ r.all, digitLimit < run.length) ∧
      ∀ hunk, readHeader line = .ok (some hunk) ↔
        ∃ r rest, HasForm line r rest ∧
          (∀ run ∈ r.all, run.length ≤ digitLimit) ∧
          ofDigits r = hunk) ∧
    (∀ run, Decimal.value run =
      Nat.ofDigits 10 (run.reverse.map fun b => b.toNat - 48)) ∧
    ∀ (a b c d : Nat) (leaveOld leaveNew : Bool) (rest : Bytes),
      (∀ n ∈ [a, b, c, d], n < 10 ^ digitLimit) → (leaveOld = true → b = 1) →
      (leaveNew = true → d = 1 ∧ ¬ StartsCount rest) → StopsRun rest →
        ∃ hunk : Hunk,
          readHeader ((printed ⟨⟨a, b⟩, ⟨c, d⟩⟩ leaveOld leaveNew).text ++
            rest) =
            .ok (some hunk) ∧
          hunk = ⟨⟨a, b⟩, ⟨c, d⟩⟩ ∧ hunk.swap = ⟨⟨c, d⟩, ⟨a, b⟩⟩ := by
  refine ⟨fun line => ⟨readHeader_eq_none_iff, ?_, fun hunk => ?_⟩,
    Decimal.value_eq_ofDigits, ?_⟩
  · simp only [readHeader_eq_error_iff, ← Runs.exists_overlong?_iff]
    constructor
    · rintro ⟨_, r, rest, hform, run, hlong, -⟩
      exact ⟨r, rest, hform, run, hlong⟩
    · rintro ⟨r, rest, hform, run, hlong⟩
      exact ⟨_, r, rest, hform, run, hlong, rfl⟩
  · simp only [readHeader_eq_some_iff, Runs.overlong?_eq_none_iff]
  · intro a b c d leaveOld leaveNew rest hshort hold hnew hstop
    exact ⟨_, readHeader_printed hshort hold (fun h => (hnew h).1) hstop
      fun h => (hnew h).2, rfl, rfl⟩

/-- `@@ -3 +4,0 @@ f` is read as the hunk that takes out line three, and its
other side puts a line in. -/
theorem readHeader_exact_one_line :
    ∃ hunk : Hunk,
      readHeader ((printed ⟨⟨3, 1⟩, ⟨4, 0⟩⟩ true false).text ++
        Bytes.ascii " @@ f\n") =
        .ok (some hunk) ∧
      hunk = ⟨⟨3, 1⟩, ⟨4, 0⟩⟩ ∧ hunk.swap = ⟨⟨4, 0⟩, ⟨3, 1⟩⟩ := by
  refine readHeader_exact.2.2 3 1 4 0 true false (Bytes.ascii " @@ f\n") ?_
    (fun _ => rfl)
    (fun h => absurd h (by decide)) (digitRun?_eq_none_iff.1 (by decide))
  intro n hn
  have hsmall : n < 10 ^ 1 := by
    revert n
    decide
  exact Nat.lt_of_lt_of_le hsmall (Nat.pow_le_pow_right (by decide) (by decide))

end Hunk

end UnifiedPatch
