import RecordModel.Number.Decimal

/-!
# Shortest decimal text

The text of a floating number has the fewest decimal digits that read back as that
number. Around the number lies the interval of all reals that round to it, with its
ends when the significand is even. Decimal grids are tried from coarse to fine; the
first one with a point in the interval wins, and of two such points the nearer. Where
positional notation ends, and which way an exact tie goes, is a `Layout`; there are two,
for plain text and for JSON documents.

Results:
* `searchGrid_fits`: the point that the search returns lies in the interval.
-/
namespace RecordModel.Number

/-- How the digits of a number are laid out. -/
structure Layout where
  /-- An exact tie between two shortest texts goes to the upper one, else to the even one. -/
  tieUp : Bool
  /-- Write `.0` after a whole number. -/
  keepPoint : Bool
  /-- Exponents are written outside `least < position ≤ greatest` of the decimal point;
  `none` means that all numbers are positional. -/
  positional : Option (Int × Int)

/-- Always positional, whole numbers without a point. -/
def Layout.plain : Layout := ⟨true, false, none⟩

/-- As numbers stand in a JSON document: a point or an exponent marks a fraction. -/
def Layout.document : Layout := ⟨false, true, some (-5, 16)⟩

/-! ## The interval -/

/-- The reals that round to a number, between `low / 4` and `high / 4` units. -/
structure Interval where
  low : Nat
  value : Nat
  high : Nat
  closed : Bool

/-- The interval of a positive count of units. The gap below a power of two is half as
wide as the gap above, unless the spacing is already the least. -/
def Interval.around (units : Nat) : Interval :=
  let step := spacing units
  let below := if 1 < step ∧ units = twoPow 52 * step then step else 2 * step
  ⟨4 * units - below, 4 * units, 4 * units + 2 * step, units / step % 2 == 0⟩

/-- Is `n / d` (in quarter units) in the interval? -/
def Interval.holds (i : Interval) (n d : Nat) : Bool :=
  if i.closed then i.low * d ≤ n && n ≤ i.high * d else i.low * d < n && n < i.high * d

/-! ## The grids -/

/-- `10 ^ exponent` as a fraction, in quarter units: numerator and denominator. -/
def gridStep (exponent : Int) : Nat × Nat :=
  if 0 ≤ exponent then (4 * unitsPerOne * tenPow exponent.toNat, 1)
  else (4 * unitsPerOne, tenPow (-exponent).toNat)

/-- The point of the grid `10 ^ exponent` that stands for the interval's value. -/
def gridPoint (tieUp : Bool) (i : Interval) (exponent : Int) : Option Nat :=
  let (n, d) := gridStep exponent
  let lower := i.value * d / n
  let upper := lower + 1
  let lowerFits := i.holds (lower * n) d
  let upperFits := i.holds (upper * n) d
  if lowerFits && upperFits then
    let toLower := i.value * d - lower * n
    let toUpper := upper * n - i.value * d
    if toLower < toUpper then some lower
    else if toUpper < toLower then some upper
    else if tieUp then some upper
    else some (if lower % 2 = 0 then lower else upper)
  else if lowerFits then some lower
  else if upperFits then some upper
  else none

/-- The first grid with a point, from `exponent` down. -/
def searchGrid (tieUp : Bool) (i : Interval) : Nat → Int → Nat × Int
  | 0, exponent => (0, exponent)
  | fuel + 1, exponent =>
    match gridPoint tieUp i exponent with
    | some digits => (digits, exponent)
    | none => searchGrid tieUp i fuel (exponent - 1)

/-- An exponent of ten above every point of the interval. -/
def topExponent (units : Nat) : Int :=
  let l : Int := (units.log2 : Int) + 1 - 1074
  if 0 ≤ l then l / 3 + 1 else l * 3 / 10 + 1

/-- Significant digits and the power of ten of the last one. -/
def shortest (tieUp : Bool) (units : Nat) : Nat × Int :=
  searchGrid tieUp (.around units) 400 (topExponent units)

/-! ## The text -/

def zeros (n : Nat) : String := String.ofList (List.replicate n '0')

/-- Digits with the point after `position` of them. -/
def positionalText (digits : String) (position : Int) (keepPoint : Bool) : String :=
  let length : Int := digits.length
  if length ≤ position then
    digits ++ zeros (position - length).toNat ++ (if keepPoint then ".0" else "")
  else if 0 < position then
    let cs := digits.toList
    String.ofList (cs.take position.toNat) ++ "." ++ String.ofList (cs.drop position.toNat)
  else "0." ++ zeros (-position).toNat ++ digits

/-- One digit, a point, the other digits and the exponent. -/
def exponentText (digits : String) (position : Int) : String :=
  let cs := digits.toList
  let fraction := cs.drop 1
  String.ofList (cs.take 1) ++ (if fraction.isEmpty then "" else "." ++ String.ofList fraction)
    ++ "e" ++ intText (position - 1)

/-- Digits without the zeros at their end, and the power of ten of the last one left. -/
def dropZeros : Nat → Nat → Int → Nat × Int
  | 0, digits, exponent => (digits, exponent)
  | fuel + 1, digits, exponent =>
    if digits % 10 = 0 ∧ digits ≠ 0 then dropZeros fuel (digits / 10) (exponent + 1)
    else (digits, exponent)

/-- The text of a magnitude. -/
def magnitudeText (layout : Layout) (units : Nat) : String :=
  if units = 0 then (if layout.keepPoint then "0.0" else "0")
  else
    let (point, exponent) := shortest layout.tieUp units
    let (point, exponent) := dropZeros 20 point exponent
    let digits := natText point
    let position : Int := digits.length + exponent
    match layout.positional with
    | some (least, greatest) =>
      if least < position ∧ position ≤ greatest then
        positionalText digits position layout.keepPoint
      else exponentText digits position
    | none => positionalText digits position layout.keepPoint

def signText (negative : Bool) : String := if negative then "-" else ""

/-- The text of a number; the special values are words. -/
def Binary64.text (layout : Layout) : Binary64 → String
  | nan => "NaN"
  | infinity negative => signText negative ++ "inf"
  | finite negative magnitude => signText negative ++ magnitudeText layout magnitude.units

/-! ## The search -/

theorem gridPoint_fits {tieUp : Bool} {i : Interval} {exponent : Int} {point : Nat}
    (h : gridPoint tieUp i exponent = some point) :
    i.holds (point * (gridStep exponent).1) (gridStep exponent).2 = true := by
  unfold gridPoint at h
  simp only at h
  split at h
  · rename_i both
    simp only [Bool.and_eq_true] at both
    split at h
    · cases h; exact both.1
    · split at h
      · cases h; exact both.2
      · split at h
        · cases h; exact both.2
        · split at h <;> cases h
          · exact both.1
          · exact both.2
  · split at h
    · cases h; assumption
    · split at h
      · cases h; assumption
      · exact absurd h (by simp)

/-- The point that the search ends on lies in the interval, if it ends before its fuel. -/
theorem searchGrid_fits {tieUp : Bool} {i : Interval} {fuel : Nat} {start : Int} {point : Nat}
    {exponent : Int} (h : searchGrid tieUp i fuel start = (point, exponent)) :
    (point = 0 ∧ exponent = start - fuel) ∨
      i.holds (point * (gridStep exponent).1) (gridStep exponent).2 = true := by
  induction fuel generalizing start with
  | zero => rw [searchGrid] at h; cases h; exact .inl ⟨rfl, by simp⟩
  | succ fuel ih =>
    rw [searchGrid] at h
    split at h
    · cases h; exact .inr (gridPoint_fits ‹_›)
    · rcases ih h with ⟨hp, he⟩ | hf
      · exact .inl ⟨hp, by rw [he]; omega⟩
      · exact .inr hf

end RecordModel.Number
