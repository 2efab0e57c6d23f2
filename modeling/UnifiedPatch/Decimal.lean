import UnifiedPatch.Bytes

/-!
# Decimal numbers

A number is written in the ten ASCII digits, most significant first. Reading a
run of digits is total: leading zeros are allowed and the value has no bound.
Printing writes no leading zero, so `value_ofNat` says that reading undoes it.
-/

namespace UnifiedPatch

namespace Decimal

/-- The ASCII digits are the bytes 48 to 57; no other digit is one. -/
def isDigit (b : UInt8) : Bool := 48 ≤ b && b ≤ 57

/-- The digit of a number below ten. -/
def digit (n : Nat) : UInt8 := (48 + n).toUInt8

/-- The number that a run of digits continues `n` to. -/
def valueFrom (n : Nat) (run : Bytes) : Nat :=
  run.foldl (fun m b => 10 * m + (b.toNat - 48)) n

/-- The number a run of digits stands for. -/
def value (run : Bytes) : Nat := valueFrom 0 run

/-- The digits of a natural number without leading zeros. -/
def ofNat (n : Nat) : Bytes :=
  if n < 10 then [digit n] else ofNat (n / 10) ++ [digit (n % 10)]
termination_by n

/-- The digits of an integer, after a sign if it is negative. -/
def ofInt : Int → Bytes
  | .ofNat n => ofNat n
  | .negSucc n => 45 :: ofNat (n + 1)

/-- The byte of a digit is 48 more than its value. -/
theorem digit_toNat {n : Nat} (h : n < 10) : (digit n).toNat = 48 + n := by
  simp [digit]
  omega

theorem isDigit_digit {n : Nat} (h : n < 10) : isDigit (digit n) = true := by
  have hn := digit_toNat h
  simp only [isDigit, Bool.and_eq_true, decide_eq_true_eq,
    UInt8.le_iff_toNat_le, hn]
  exact ⟨by simp, by simp; omega⟩

theorem value_append_digit (run : Bytes) {n : Nat} (h : n < 10) :
    value (run ++ [digit n]) = 10 * value run + n := by
  simp [value, valueFrom, digit_toNat h]

theorem ofNat_ne_nil (n : Nat) : ofNat n ≠ [] := by
  unfold ofNat
  split <;> simp

theorem isDigit_of_mem_ofNat {n : Nat} {b : UInt8} (h : b ∈ ofNat n) :
    isDigit b = true := by
  fun_induction ofNat n with
  | case1 n hn =>
      rw [List.mem_singleton.1 h]
      exact isDigit_digit hn
  | case2 n _ ih =>
      rcases List.mem_append.1 h with h | h
      · exact ih h
      · rw [List.mem_singleton.1 h]
        exact isDigit_digit (Nat.mod_lt n (by omega))

/-- Reading a printed number gives the number. -/
theorem value_ofNat (n : Nat) : value (ofNat n) = n := by
  fun_induction ofNat n with
  | case1 n hn =>
      have := value_append_digit [] hn
      simpa [value, valueFrom] using this
  | case2 n _ ih =>
      rw [value_append_digit _ (Nat.mod_lt n (by omega)), ih]
      omega

end Decimal

end UnifiedPatch
