import RecordModel.Number.Shortest

/-!
# Decimal digits

The text of a whole number reads back as that number. Zeros in front of digits change nothing,
zeros behind them multiply by ten, and digits that are cut in two are put together by a power of
ten.

Results:
* `digitsValue_natText`: the digits of a number have its value.
* `digitsValue_append_digits`: the value of digits that are put together.
* `int64OfText?_intText`: the text of an integer reads back.
-/
namespace RecordModel.Number

/-! ## Digits -/

def Digits (cs : List Char) : Prop := ∀ c ∈ cs, isDigit c = true

theorem Digits.append {as bs : List Char} (ha : Digits as) (hb : Digits bs) : Digits (as ++ bs) :=
  List.forall_mem_append.2 ⟨ha, hb⟩

theorem Digits.head {cs : List Char} (h : Digits cs) : ∀ c ∈ cs.head?, isDigit c = true :=
  fun c hc => h c (List.mem_of_mem_head? hc)

theorem digits_zeros (n : Nat) : Digits (List.replicate n '0') := by
  intro c hc
  rw [(List.mem_replicate.1 hc).2]
  rfl

theorem takeWhile_digits {cs rest : List Char} (h : Digits cs)
    (hrest : ∀ c ∈ rest.head?, isDigit c = false) :
    (cs ++ rest).takeWhile isDigit = cs ∧ (cs ++ rest).dropWhile isDigit = rest := by
  rw [List.takeWhile_append_of_pos h, List.dropWhile_append_of_pos h]
  cases rest with
  | nil => simp
  | cons c rest =>
    have hc : isDigit c = false := hrest c rfl
    simp [hc]

theorem toList_natText (n : Nat) : (natText n).toList = Nat.toDigits 10 n := by
  rw [natText, Nat.toString_eq_repr, Nat.toList_repr]

theorem natText_ne_nil (n : Nat) : (natText n).toList ≠ [] := by
  rw [toList_natText]
  exact Nat.toDigits_ne_nil

theorem isDigit_of_mem_natText {n : Nat} {c : Char} (h : c ∈ (natText n).toList) :
    c.isDigit = true := by
  rw [toList_natText] at h
  exact Nat.isDigit_of_mem_toDigits (by decide) (by decide) h

theorem digits_natText (n : Nat) : Digits (natText n).toList := fun _ => isDigit_of_mem_natText

/-! ## Their value -/

theorem digitsValue_eq (cs : List Char) : digitsValue cs = Nat.ofDigitChars 10 cs 0 := rfl

theorem digitsValue_natText (n : Nat) : digitsValue (natText n).toList = n := by
  rw [toList_natText, digitsValue_eq, Nat.ofDigitChars_ten_toDigits]

theorem digitsValue_append_digits (as bs : List Char) :
    digitsValue (as ++ bs) = digitsValue as * tenPow bs.length + digitsValue bs := by
  simp only [digitsValue_eq]
  rw [Nat.ofDigitChars_append, Nat.ofDigitChars_eq_ofDigitChars_zero, Nat.mul_comm]
  rfl

theorem digitsValue_zeros (n : Nat) : digitsValue (List.replicate n '0') = 0 := by
  rw [digitsValue_eq, Nat.ofDigitChars_replicate_zero, Nat.mul_zero]

theorem digitsValue_zeros_append (n : Nat) (cs : List Char) :
    digitsValue (List.replicate n '0' ++ cs) = digitsValue cs := by
  rw [digitsValue_append_digits, digitsValue_zeros, Nat.zero_mul, Nat.zero_add]

theorem digitsValue_append_zeros (cs : List Char) (n : Nat) :
    digitsValue (cs ++ List.replicate n '0') = digitsValue cs * tenPow n := by
  rw [digitsValue_append_digits, digitsValue_zeros, List.length_replicate, Nat.add_zero]

/-! ## Whole numbers -/

theorem natOfDigits?_of_digits {cs : List Char} (hne : cs ≠ []) (h : Digits cs) :
    natOfDigits? cs = some (digitsValue cs) := by
  have hall : cs.all isDigit = true := List.all_eq_true.2 h
  simp [natOfDigits?, hne, hall]

/-- A sign is found in front of a digit. -/
theorem takeSign_signText (negative : Bool) {cs : List Char}
    (h : ∀ c ∈ cs.head?, isDigit c = true) :
    takeSign ((signText negative).toList ++ cs) = (negative, cs) := by
  cases negative with
  | true => rfl
  | false =>
    cases cs with
    | nil => rfl
    | cons c cs =>
      have hc : isDigit c = true := h c rfl
      show takeSign (c :: cs) = (false, c :: cs)
      unfold takeSign
      split
      · rename_i heq
        cases heq
        exact absurd hc (by decide)
      · rename_i heq
        cases heq
        exact absurd hc (by decide)
      · rfl

/-- A sign for a negative integer, and the digits of its absolute value. -/
theorem toList_intText (i : Int) :
    (intText i).toList = (signText (i < 0)).toList ++ (natText i.natAbs).toList := by
  rw [← String.toList_append]
  cases i with
  | ofNat n => simp [intText, natText, signText, Int.toString_eq_repr, Int.repr_eq_if]
  | negSucc n => simp [intText, natText, signText, Int.toString_eq_repr, Int.repr_eq_if]

theorem intOfText?_intText (i : Int) : intOfText? (intText i).toList = some i := by
  have hdigits := natOfDigits?_of_digits (natText_ne_nil i.natAbs) (digits_natText i.natAbs)
  rw [digitsValue_natText] at hdigits
  unfold intOfText?
  rw [toList_intText, takeSign_signText _ (digits_natText _).head]
  dsimp only
  rw [hdigits]
  by_cases h : i < 0
  · have hneg : -(i.natAbs : Int) = i := by omega
    rw [decide_eq_true h]
    exact congrArg some hneg
  · have hpos : (i.natAbs : Int) = i := by omega
    rw [decide_eq_false h]
    exact congrArg some hpos

theorem int64OfText?_intText (i : Int64) : int64OfText? (intText i.toInt).toList = some i := by
  have hlow : -Binary64.integerLimit ≤ i.toInt := i.le_toInt
  have hhigh : i.toInt < Binary64.integerLimit := i.toInt_lt
  rw [int64OfText?, intOfText?_intText]
  dsimp only
  rw [if_pos ⟨hlow, hhigh⟩, Int64.ofInt_toInt]

end RecordModel.Number
