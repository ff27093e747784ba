import RecordModel.Number.Binary64

/-!
# Decimal notation

Reading whole and fractional decimal numbers. An integer is an optional sign and one
digit or more; a floating number may have a point with digits on at least one side
and an exponent, or be one of the words `inf`, `infinity` and `nan`.

Results:
* `digitsValue_append`: the value of a digit sequence is read left to right.
* `natOfDigits?_eq_some`: a whole number is one digit or more, and its value is theirs.
-/
namespace RecordModel.Number

def isDigit (c : Char) : Bool := '0' ≤ c && c ≤ '9'

def digitValue (c : Char) : Nat := c.toNat - 48

/-- The number that a digit sequence denotes. -/
def digitsValue (cs : List Char) : Nat := cs.foldl (fun n c => 10 * n + digitValue c) 0

/-- The decimal digits of a number, without leading zeros. -/
def natText (n : Nat) : String := toString n

def intText (i : Int) : String := toString i

/-- The sign in front of a number, and the rest. -/
def takeSign : List Char → Bool × List Char
  | '-' :: rest => (true, rest)
  | '+' :: rest => (false, rest)
  | cs => (false, cs)

/-! ## Whole numbers -/

/-- A whole number of digits only. -/
def natOfDigits? (cs : List Char) : Option Nat :=
  if !cs.isEmpty && cs.all isDigit then some (digitsValue cs) else none

/-- An optional sign and digits. -/
def intOfText? (cs : List Char) : Option Int :=
  let (negative, digits) := takeSign cs
  (natOfDigits? digits).map fun n => if negative then -n else n

/-- An integer of 64 bits; one that does not fit is no integer. -/
def int64OfText? (cs : List Char) : Option Int64 :=
  match intOfText? cs with
  | some i => if -Binary64.integerLimit ≤ i ∧ i < Binary64.integerLimit then some (Int64.ofInt i) else none
  | none => none

/-- An unsigned number below `limit`, with an optional plus sign. -/
def boundedNat? (limit : Nat) (cs : List Char) : Option Nat :=
  let digits := match cs with
    | '+' :: rest => rest
    | cs => cs
  match natOfDigits? digits with
  | some n => if n < limit then some n else none
  | none => none

/-! ## Floating numbers -/

/-- The number nearest to `mantissa * 10 ^ exponent`. Exponents that put it far out of
the range of the format are settled first. -/
def Binary64.ofDecimal (negative : Bool) (mantissa : Nat) (exponent : Int) : Binary64 :=
  if mantissa = 0 then .zero negative
  else if exponent > 400 then .infinity negative
  else if exponent + (mantissa.log2 / 3 + 1 : Nat) < -400 then .zero negative
  else if 0 ≤ exponent then .ofRatio negative (mantissa * tenPow exponent.toNat) 1
  else .ofRatio negative mantissa (tenPow (-exponent).toNat)

def lowered (cs : List Char) : List Char := cs.map Char.toLower

/-- The exponent part: nothing, or `e` with an optional sign and digits. -/
def exponentOfText? : List Char → Option Int
  | [] => some 0
  | c :: rest => if c = 'e' ∨ c = 'E' then intOfText? rest else none

/-- An unsigned floating number, with the sign given. -/
def magnitudeOfText? (negative : Bool) (cs : List Char) : Option Binary64 :=
  let word := lowered cs
  if word = ['i', 'n', 'f'] ∨ word = ['i', 'n', 'f', 'i', 'n', 'i', 't', 'y'] then
    some (.infinity negative)
  else if word = ['n', 'a', 'n'] then some .nan
  else
    let whole := cs.takeWhile isDigit
    let rest := cs.dropWhile isDigit
    let (fraction, rest) := match rest with
      | '.' :: rest => (rest.takeWhile isDigit, rest.dropWhile isDigit)
      | rest => ([], rest)
    if whole.isEmpty && fraction.isEmpty then none
    else (exponentOfText? rest).map fun exponent =>
      .ofDecimal negative (digitsValue (whole ++ fraction)) (exponent - fraction.length)

/-- A floating number in decimal notation, or one of the words for the special values. -/
def Binary64.ofText? (cs : List Char) : Option Binary64 :=
  let (negative, rest) := takeSign cs
  magnitudeOfText? negative rest

/-! ## Digit sequences -/

theorem digitsValue_append (cs : List Char) (c : Char) :
    digitsValue (cs ++ [c]) = 10 * digitsValue cs + digitValue c := by
  simp [digitsValue, List.foldl_append]

theorem natOfDigits?_eq_some {cs : List Char} {n : Nat} (h : natOfDigits? cs = some n) :
    cs ≠ [] ∧ (∀ c ∈ cs, isDigit c = true) ∧ digitsValue cs = n := by
  unfold natOfDigits? at h
  split at h
  · rename_i hc
    simp only [Bool.and_eq_true, Bool.not_eq_true', List.isEmpty_eq_false_iff, List.all_eq_true] at hc
    exact ⟨hc.1, hc.2, Option.some.inj h⟩
  · exact absurd h (by simp)

end RecordModel.Number
