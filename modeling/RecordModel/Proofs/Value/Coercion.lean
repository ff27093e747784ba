import RecordModel.Proofs.Number.Shortest
import RecordModel.Proofs.Value.Imprint
import RecordModel.Value.Coercion

/-!
# What coercion keeps of a value

A value that a driver hands back is brought to the type of its field, by one table for the
values that the type may hold and by another for those that it converts. What comes out is
held by the type as it is, so coercing it once more changes nothing, and what is refused is a
data error. A float that an integer field takes is the integer that it denotes. An integer in
a float field is rounded to 53 significant bits, however, so that it keeps its value only if
it has no more of them.

Results:
* `Number.isShort_iff`: a number is short if it is a multiple of its own spacing.
* `Number.Binary64.toInt?_ofInt_iff`: the integers that a float denotes exactly.
* `DataType.coerce_keeps_iff`: which numbers are kept by a coercion that succeeds.
-/
namespace RecordModel

open RecordModel.Number

/-! ## Significant bits -/

namespace Number

/-- The number has at most 53 significant bits: behind them there are only zeros. -/
def IsShort (n : Nat) : Prop := ∃ k e, k < twoPow 53 ∧ n = k * twoPow e

theorem isShort_iff {n : Nat} : IsShort n ↔ spacing n ∣ n := by
  constructor
  · intro ⟨k, e, hk, hn⟩
    rw [hn]
    exact spacing_dvd (Nat.le_of_lt hk)
  · intro ⟨k, hk⟩
    refine ⟨k, n.log2 - 52, ?_, by rw [Nat.mul_comm]; exact hk⟩
    have hn : n < twoPow 53 * spacing n := by
      rw [spacing, ← twoPow_add]
      exact Nat.lt_of_lt_of_le (lt_twoPow_log2 n) (twoPow_le (by omega))
    have hn : spacing n * k < spacing n * twoPow 53 := by
      rw [← hk, Nat.mul_comm]
      exact hn
    exact Nat.lt_of_mul_lt_mul_left hn

instance (n : Nat) : Decidable (IsShort n) := decidable_of_iff (spacing n ∣ n) isShort_iff.symm

/-- Zeros behind a number change nothing of its significant bits. -/
theorem isShort_mul_twoPow {n d : Nat} : IsShort (n * twoPow d) ↔ IsShort n := by
  constructor
  · intro ⟨k, e, hk, hn⟩
    rcases Nat.le_total d e with hde | hde
    · refine ⟨k, e - d, hk, Nat.eq_of_mul_eq_mul_right (twoPow_pos d) ?_⟩
      rw [hn, Nat.mul_assoc, ← twoPow_add, Nat.sub_add_cancel hde]
    · have hkn : n * twoPow (d - e) = k := by
        apply Nat.eq_of_mul_eq_mul_right (twoPow_pos e)
        rw [← hn, Nat.mul_assoc, ← twoPow_add, Nat.sub_add_cancel hde]
      have hle : n ≤ k := hkn ▸ Nat.le_mul_of_pos_right n (twoPow_pos _)
      exact ⟨n, 0, Nat.lt_of_le_of_lt hle hk, (Nat.mul_one n).symm⟩
  · intro ⟨k, e, hk, hn⟩
    exact ⟨k, e + d, hk, by rw [hn, Nat.mul_assoc, ← twoPow_add]⟩

theorem roundHalfEven_mul {k d : Nat} (hd : 0 < d) : roundHalfEven (k * d) d = k :=
  roundHalfEven_eq hd (by omega) (by omega) fun _ => by omega

/-- A number of the format is rounded to itself. -/
theorem nearest_self {n : Nat} (h : spacing n ∣ n) : nearest n 1 = n := by
  obtain ⟨k, hk⟩ := exists_eq_mul_left_of_dvd h
  have hround : roundHalfEven n (spacing n) = k := by
    have hself := roundHalfEven_mul (k := k) (spacing_pos n)
    rwa [← hk] at hself
  rw [nearest, Nat.div_one, Nat.one_mul, hround]
  exact hk.symm

namespace Binary64

/-- The units of an integer of 64 bits are below the limit of the format. -/
theorem units_lt {n : Nat} (h : n ≤ twoPow 63) : n * unitsPerOne < unitsLimit := by
  have hle : n * unitsPerOne ≤ twoPow (63 + 1074) := by
    rw [twoPow_add, ← unitsPerOne]
    exact Nat.mul_le_mul_right _ h
  exact Nat.lt_of_le_of_lt hle (twoPow_lt (by decide))

theorem ofInt_of_isShort {i : Int} (hi : i.natAbs ≤ twoPow 63) (h : IsShort i.natAbs) :
    ∃ magnitude, ofInt i = .finite (i < 0) magnitude ∧
      magnitude.units = i.natAbs * unitsPerOne := by
  have hself : nearest (i.natAbs * unitsPerOne) 1 = i.natAbs * unitsPerOne :=
    nearest_self (isShort_iff.1 (isShort_mul_twoPow.2 h))
  have hlimit : nearest (i.natAbs * unitsPerOne) 1 < unitsLimit := by
    rw [hself]
    exact units_lt hi
  refine ⟨⟨_, representable_nearest hlimit⟩, ?_, hself⟩
  rw [ofInt, ofRatio, ofUnits, dif_pos hlimit]

/-- An integer becomes a float that denotes it exactly if it has at most 53 significant bits. -/
theorem toInt?_ofInt_iff {i : Int} (hi : -integerLimit ≤ i ∧ i < integerLimit) :
    (ofInt i).toInt? = some i ↔ IsShort i.natAbs := by
  constructor
  · intro h
    obtain ⟨-, negative, magnitude, -, hunits, -⟩ := toInt?_eq_some h
    have hshort := isShort_iff.2 magnitude.representable.1
    rw [hunits] at hshort
    exact isShort_mul_twoPow.1 hshort
  · intro h
    have hle : i.natAbs ≤ twoPow 63 := by
      have hlimit : (twoPow 63 : Int) = integerLimit := by decide
      omega
    obtain ⟨magnitude, hof, hunits⟩ := ofInt_of_isShort hle h
    have hpos : 0 < unitsPerOne := twoPow_pos _
    have hwhole : magnitude.units % unitsPerOne = 0 := by rw [hunits, Nat.mul_mod_left]
    have hcount : (magnitude.units / unitsPerOne : Int) = i.natAbs := by
      rw [← Int.natCast_ediv, hunits, Nat.mul_div_cancel _ hpos]
    have hsign : (if i < 0 then -(i.natAbs : Int) else i.natAbs) = i := by
      split <;> omega
    rw [hof, toInt?, if_pos hwhole, hcount]
    simp only [decide_eq_true_eq, hsign, hi, and_self, if_true]

end Binary64

end Number

/-! ## Values -/

namespace Value

def isNumber : Value → Bool
  | integer _ => true
  | float _ => true
  | _ => false

/-- An integer of more than 53 significant bits, which no float denotes. -/
def IsLong : Value → Prop
  | integer i => ¬ IsShort i.toInt.natAbs
  | _ => False

theorem same_self (v : Value) : v.same v = true := same_iff_imprint_eq.2 rfl

/-- The float that stands for an integer equals it if it has all of its bits. -/
theorem ofInt_same_iff {i : Int64} :
    (float (.ofInt i.toInt)).same (integer i) = true ↔ ¬ (integer i).IsLong := by
  have hrange : -Binary64.integerLimit ≤ i.toInt ∧ i.toInt < Binary64.integerLimit :=
    ⟨i.le_toInt, i.toInt_lt⟩
  rw [same, decide_eq_true_eq, IsLong, Decidable.not_not, ← Binary64.toInt?_ofInt_iff hrange]
  exact toInt64?_float

end Value

namespace DataType

variable {type : DataType} {v w : Value}

/-- What a type stores is held by the type and kept by it. -/
theorem coerce_of_stored (h : type.isCompatible w = true) (hw : type.store w = w) :
    type.coerce w = .ok w := by
  rw [coerce, if_pos h, hw]

theorem store_store (type : DataType) (v : Value) : type.store (type.store v) = type.store v := by
  cases type <;> cases v <;> rfl

/-- A value is not converted to one that the type stores in another form. -/
theorem store_convert? (h : type.convert? v = some w) : type.store w = w := by
  unfold convert? at h
  split at h
  all_goals simp only [Option.map_eq_some_iff, Option.some.injEq, reduceCtorEq] at h
  all_goals grind [store]

theorem coerce_cases (h : type.coerce v = .ok w) :
    type.isCompatible v = true ∧ w = type.store v ∨
      type.isCompatible v = false ∧ type.convert? v = some w := by
  unfold coerce at h
  split at h
  · rename_i hv
    cases h
    exact .inl ⟨hv, rfl⟩
  · rename_i hv
    split at h
    · rename_i hw
      cases h
      exact .inr ⟨Bool.not_eq_true _ ▸ hv, hw⟩
    · cases h

/-- Of the numbers that a type holds, only an integer in a float field may lose something. -/
theorem store_same_iff (h : type.isCompatible v = true) (hv : v.isNumber = true) :
    (type.store v).same v = true ↔ ¬ (type = .float ∧ v.IsLong) := by
  cases v with
  | integer i =>
    cases type with
    | float =>
      show (Value.float (.ofInt i.toInt)).same (.integer i) = true ↔ _
      rw [Value.ofInt_same_iff]
      simp
    | integer => simp [store, Value.same_self]
    | _ => cases h
  | float f => cases type <;> simp_all [store, Value.same_self, Value.IsLong]
  | _ => cases hv

/-- Of the numbers that a type converts to numbers, only whole floats are, and they lose nothing. -/
theorem convert?_same (h : type.convert? v = some w) (hv : v.isNumber = true)
    (hw : w.isNumber = true) : type = .integer ∧ w.same v = true := by
  cases v with
  | integer i =>
    cases type with
    | boolean | text => cases h; cases hw
    | _ => cases h
  | float f =>
    cases type with
    | integer =>
      obtain ⟨i, hi, rfl⟩ := Option.map_eq_some_iff.1 h
      exact ⟨rfl, Value.same_of_toInt64? rfl hi⟩
    | _ => cases h
  | _ => cases hv

/-- What a coercion gives is held by the type, and coerced to itself again. -/
theorem coerce_coerced (h : type.coerce v = .ok w) :
    type.isCompatible w = true ∧ type.coerce w = .ok w := by
  have hw := coerce_compatible h
  refine ⟨hw, coerce_of_stored hw ?_⟩
  obtain ⟨-, rfl⟩ | ⟨-, hconvert⟩ := coerce_cases h
  · exact store_store type v
  · exact store_convert? hconvert

theorem coerce_error {cause : Error} (h : type.coerce v = .error cause) :
    cause = .typeMismatch (.scan v type) := by
  unfold coerce at h
  split at h
  · cases h
  · split at h <;> cases h
    rfl

/-- A coercion fails with a data error, or gives a value that its type holds and that is coerced
to itself again. A number that becomes a number is kept, but for an integer of more than 53
significant bits in a float field, which is not refused. -/
theorem coerce_keeps_iff (type : DataType) (v : Value) :
    (∀ cause, type.coerce v = .error cause → cause.category = .data) ∧
    ∀ w, type.coerce v = .ok w →
      type.isCompatible w = true ∧ type.coerce w = .ok w ∧
        (v.isNumber = true → w.isNumber = true →
          (w.same v = true ↔ ¬ (type = .float ∧ v.IsLong))) := by
  refine ⟨fun cause h => coerce_error h ▸ rfl, fun w h => ?_⟩
  obtain ⟨hcompatible, hagain⟩ := coerce_coerced h
  refine ⟨hcompatible, hagain, fun hv hw => ?_⟩
  obtain ⟨hheld, rfl⟩ | ⟨-, hconvert⟩ := coerce_cases h
  · exact store_same_iff hheld hv
  · obtain ⟨rfl, hsame⟩ := convert?_same hconvert hv hw
    simp [hsame]

/-- The integer after `2 ^ 53` that a float denotes. -/
theorem evenInteger_kept :
    DataType.float.coerce (.integer 9007199254740994) =
        .ok (.float (.ofInt 9007199254740994)) ∧
      (Value.float (.ofInt 9007199254740994)).same (.integer 9007199254740994) = true := by
  have hok : DataType.float.coerce (.integer 9007199254740994) =
      .ok (.float (.ofInt 9007199254740994)) := rfl
  obtain ⟨-, hkept⟩ := coerce_keeps_iff .float (.integer 9007199254740994)
  obtain ⟨-, -, hsame⟩ := hkept _ hok
  have hshort : ¬ (Value.integer 9007199254740994).IsLong :=
    Decidable.not_not.2 ⟨4503599627370497, 1, by decide, by decide⟩
  exact ⟨hok, (hsame rfl rfl).2 fun h => hshort h.2⟩

/-- An integer between two floats becomes one of them. -/
theorem oddInteger_rounded :
    DataType.float.coerce (.integer 9007199254740993) =
        .ok (.float (.ofInt 9007199254740992)) ∧
      (Value.float (.ofInt 9007199254740992)).same (.integer 9007199254740993) = false := by
  have hround : Value.float (.ofInt 9007199254740993) = .float (.ofInt 9007199254740992) :=
    congrArg Value.float (by decide +kernel)
  have hok : DataType.float.coerce (.integer 9007199254740993) =
      .ok (.float (.ofInt 9007199254740993)) := rfl
  have hlong : (Value.integer 9007199254740993).IsLong := by
    show ¬ IsShort 9007199254740993
    decide +kernel
  have hnot := mt (Value.ofInt_same_iff (i := 9007199254740993)).1 (not_not_intro hlong)
  rw [← hround]
  exact ⟨hok, Bool.eq_false_iff.2 hnot⟩

end DataType

end RecordModel
