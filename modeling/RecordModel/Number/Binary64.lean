import RecordModel.Number.Power

/-!
# Binary64 numbers

The 64-bit binary floating point numbers, exactly. Every finite one is a whole
number of units of `2 ^ (-1074)`, the smallest positive one, so a magnitude is kept
as that count. A count is a number of the format when it is below `2 ^ 2098` and a
multiple of its own spacing: counts of up to 53 bits are one apart, longer ones a
power of two apart.

Results:
* `representable_nearest`: rounding to nearest, ties to even, lands on numbers of the
  format, so `ofRatio` needs no check beyond overflow.
* `representable_mul_twoPow`: the counts of the form `k * 2 ^ e` with `k` of at most
  53 bits are the ones of the format.
-/
namespace RecordModel.Number

/-- How many units make one. -/
def unitsPerOne : Nat := twoPow 1074

/-- The first count of units that overflows: `2 ^ 1024` in units. -/
def unitsLimit : Nat := twoPow 2098

/-- Distance between neighbouring numbers around a count of units. -/
def spacing (units : Nat) : Nat := twoPow (units.log2 - 52)

/-- The counts of units that the format holds. -/
def Representable (units : Nat) : Prop := spacing units ∣ units ∧ units < unitsLimit

instance (units : Nat) : Decidable (Representable units) := by
  unfold Representable; infer_instance

/-- The absolute value of a finite number, in units. -/
structure Magnitude where
  units : Nat
  representable : Representable units
  deriving DecidableEq

/-- A 64-bit floating point number; `not a number` is one value. -/
inductive Binary64 where
  | nan
  | infinity (negative : Bool)
  | finite (negative : Bool) (magnitude : Magnitude)
  deriving DecidableEq

/-! ## Rounding -/

/-- `n / d` rounded to the nearest whole number, a half to the even neighbour. -/
def roundHalfEven (n d : Nat) : Nat :=
  let q := n / d
  let r := n % d
  if 2 * r < d then q else if d < 2 * r then q + 1 else if q % 2 = 0 then q else q + 1

/-- The count of units nearest to `n / d` that has at most 53 significant bits. -/
def nearest (n d : Nat) : Nat :=
  let step := spacing (n / d)
  roundHalfEven n (d * step) * step

theorem roundHalfEven_le (n d : Nat) : roundHalfEven n d ≤ n / d + 1 := by
  unfold roundHalfEven; simp only; split <;> (try split) <;> (try split) <;> omega

theorem spacing_pos (units : Nat) : 0 < spacing units := twoPow_pos _

/-- A multiple of `2 ^ e` of at most 53 bits is a multiple of its own spacing. -/
theorem spacing_dvd {k e : Nat} (hk : k ≤ twoPow 53) :
    spacing (k * twoPow e) ∣ k * twoPow e := by
  rcases Nat.eq_zero_or_pos k with rfl | hpos
  · simp
  · have hne : k * twoPow e ≠ 0 :=
      Nat.mul_ne_zero (Nat.ne_of_gt hpos) (Nat.ne_of_gt (twoPow_pos e))
    rcases Nat.lt_or_eq_of_le hk with hlt | rfl
    · have hbound : k * twoPow e < twoPow (53 + e) := by
        rw [twoPow_add]
        exact Nat.mul_lt_mul_of_pos_right hlt (twoPow_pos e)
      have hlog : (k * twoPow e).log2 < 53 + e := (lt_twoPow_iff hne).1 hbound
      exact Nat.dvd_trans (twoPow_dvd (by omega)) (Nat.dvd_mul_left _ _)
    · rw [← twoPow_add, spacing]
      exact twoPow_dvd (by rw [log2_twoPow]; omega)

theorem representable_nearest {n d : Nat} (h : nearest n d < unitsLimit) :
    Representable (nearest n d) := by
  refine ⟨?_, h⟩
  unfold nearest spacing
  apply spacing_dvd
  have hround := roundHalfEven_le n (d * twoPow ((n / d).log2 - 52))
  have hquot : n / (d * twoPow ((n / d).log2 - 52)) < twoPow 53 := by
    rw [← Nat.div_div_eq_div_mul]
    apply (Nat.div_lt_iff_lt_mul (twoPow_pos _)).2
    rw [← twoPow_add]
    exact Nat.lt_of_lt_of_le (lt_twoPow_log2 _) (twoPow_le (by omega))
  omega

theorem representable_mul_twoPow {k e : Nat} (hk : k ≤ twoPow 53) (h : k * twoPow e < unitsLimit) :
    Representable (k * twoPow e) := ⟨spacing_dvd hk, h⟩

theorem unitsLimit_pos : 0 < unitsLimit := twoPow_pos _

theorem representable_zero : Representable 0 := ⟨Nat.dvd_zero _, unitsLimit_pos⟩

theorem roundHalfEven_one (n : Nat) : roundHalfEven n 1 = n := by
  simp [roundHalfEven, Nat.mod_one]

namespace Binary64

/-! ## Building numbers -/

/-- A number with `units` units, infinite from the limit on. -/
def ofUnits (negative : Bool) (n d : Nat) : Binary64 :=
  if h : nearest n d < unitsLimit then
    .finite negative ⟨nearest n d, representable_nearest h⟩
  else .infinity negative

/-- The number nearest to `n / d`, a tie going to the even one. -/
def ofRatio (negative : Bool) (n d : Nat) : Binary64 := ofUnits negative (n * unitsPerOne) d

def ofInt (i : Int) : Binary64 := ofRatio (i < 0) i.natAbs 1

def zero (negative : Bool) : Binary64 := .finite negative ⟨0, representable_zero⟩

/-! ## Operations -/

/-- The number with its sign turned round. -/
def neg : Binary64 → Binary64
  | nan => nan
  | infinity negative => infinity (!negative)
  | finite negative magnitude => finite (!negative) magnitude

/-- Half of a number, rounded to nearest. -/
def half : Binary64 → Binary64
  | finite negative magnitude => ofUnits negative magnitude.units 2
  | other => other

/-- The least and one more than the greatest 64-bit integer. -/
def integerLimit : Int := 9223372036854775808

/-- The 64-bit integer that a number is exactly, if it is one. -/
def toInt? : Binary64 → Option Int
  | finite negative magnitude =>
    if magnitude.units % unitsPerOne = 0 then
      let whole : Int := magnitude.units / unitsPerOne
      let i := if negative then -whole else whole
      if -integerLimit ≤ i ∧ i < integerLimit then some i else none
    else none
  | _ => none

/-- Equality of numbers: both zeros are one number, and so is `not a number`. -/
def same : Binary64 → Binary64 → Bool
  | nan, nan => true
  | infinity s, infinity t => s == t
  | finite s a, finite t b => a.units == b.units && (s == t || a.units == 0)
  | _, _ => false

end Binary64

end RecordModel.Number
