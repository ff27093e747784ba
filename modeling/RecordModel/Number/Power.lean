/-!
# Powers of two and ten

The powers that binary and decimal numbers are scaled by.

Results:
* `twoPow_add`, `twoPow_dvd`: powers of two multiply and divide by their exponents.
* `lt_twoPow_iff`: the binary logarithm tells below which powers a number lies.
-/
namespace RecordModel.Number

def twoPow (n : Nat) : Nat := Nat.pow 2 n

def tenPow (n : Nat) : Nat := Nat.pow 10 n

theorem twoPow_pos (n : Nat) : 0 < twoPow n := Nat.two_pow_pos n

theorem twoPow_add (m n : Nat) : twoPow (m + n) = twoPow m * twoPow n := Nat.pow_add 2 m n

theorem twoPow_dvd {m n : Nat} (h : m ≤ n) : twoPow m ∣ twoPow n := Nat.pow_dvd_pow 2 h

theorem twoPow_le {m n : Nat} (h : m ≤ n) : twoPow m ≤ twoPow n :=
  Nat.pow_le_pow_right (by decide) h

theorem log2_twoPow (n : Nat) : (twoPow n).log2 = n := Nat.log2_two_pow

theorem lt_twoPow_iff {n k : Nat} (h : n ≠ 0) : n < twoPow k ↔ n.log2 < k := (Nat.log2_lt h).symm

theorem lt_twoPow_log2 (n : Nat) : n < twoPow (n.log2 + 1) := Nat.lt_log2_self

end RecordModel.Number
