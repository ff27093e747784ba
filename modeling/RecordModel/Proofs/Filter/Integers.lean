import RecordModel.Filter.Reading
import RecordModel.Proofs.Filter.Lexing
import RecordModel.Proofs.Filter.Parsing
import RecordModel.Proofs.Number.Shortest

/-!
# Integers in filter expressions

The numbers of a text have no sign. A minus sign is an operator, which turns round the value of
its operand. The digits of the least integer of 64 bits do not fit without their sign, so that they
are read as a float, and its negation is one too; every other integer is read as it is written. As
no number is read as the least integer, none is ever negated.

Results:
* `IsNumeral.ofText?`: what is spelled as a number reads as a float.
* `valueOf_signed`: the value of a number between minus signs and parentheses.
* `Condition.read_integer_iff`: exactly which integers are read as they are written.
-/
namespace RecordModel.Filter

open RecordModel.Number

/-! ## Numerals -/

theorem takeSign_of_head {cs : List Char} (h : ∀ c ∈ cs.head?, c ≠ '-' ∧ c ≠ '+') :
    takeSign cs = (false, cs) := by
  unfold takeSign
  split
  · exact absurd rfl (h _ rfl).1
  · exact absurd rfl (h _ rfl).2
  · rfl

theorem IsPower.head {power : List Char} (h : IsPower power) :
    ∀ c ∈ power.head?, isDigit c = false ∧ c ≠ '.' := by
  intro c hc
  cases h with
  | none => cases hc
  | digits he hsign hne hds =>
    cases hc
    rcases he with rfl | rfl <;> decide

theorem IsPower.exponent {power : List Char} (h : IsPower power) :
    ∃ exponent, exponentOfText? power = some exponent := by
  cases h with
  | none => exact ⟨0, rfl⟩
  | digits he hsign hne hds =>
    rename_i e sign ds
    have htake : ∃ negative, takeSign (sign ++ ds) = (negative, ds) := by
      simp only [List.mem_cons, List.not_mem_nil, or_false] at hsign
      rcases hsign with rfl | rfl | rfl
      · exact ⟨false, takeSign_signText false hds.head⟩
      · exact ⟨false, rfl⟩
      · exact ⟨true, rfl⟩
    obtain ⟨negative, htake⟩ := htake
    rw [exponentOfText?, if_pos he, intOfText?, htake]
    dsimp only
    rw [natOfDigits?_of_digits hne hds]
    exact ⟨_, rfl⟩

theorem IsNumeral.head {cs : List Char} (h : IsNumeral cs) :
    ∃ c rest, cs = c :: rest ∧ (isDigit c = true ∨ c = '.') := by
  obtain ⟨hwhole, hpoint, hfraction, hsome, hpower⟩ := h
  rename_i whole point fraction power
  cases whole with
  | cons c cs => exact ⟨c, _, rfl, .inl (hwhole c List.mem_cons_self)⟩
  | nil =>
    rcases hpoint with rfl | ⟨-, rfl⟩
    · exact ⟨'.', _, rfl, .inr rfl⟩
    · simp at hsome

theorem IsNumeral.takeSign {cs : List Char} (h : IsNumeral cs) :
    Number.takeSign cs = (false, cs) := by
  obtain ⟨c, rest, rfl, hc⟩ := h.head
  refine takeSign_of_head fun d hd => ?_
  cases hd
  rcases hc with hdigit | rfl
  · refine ⟨?_, ?_⟩ <;> rintro rfl <;> cases hdigit
  · decide

theorem IsNumeral.lowered_ne {cs : List Char} (h : IsNumeral cs) {d : Char}
    (hd : isDigit d = false ∧ d ≠ '.') (word : List Char) : lowered cs ≠ d :: word := by
  obtain ⟨c, rest, rfl, hc⟩ := h.head
  rcases hc with hdigit | rfl
  · exact Number.lowered_ne hdigit hd.1
  · exact fun heq => hd.2 (List.cons.inj heq).1.symm

/-- What is spelled as a number reads as a float. -/
theorem IsNumeral.ofText? {cs : List Char} (h : IsNumeral cs) :
    ∃ x, Binary64.ofText? cs = some x := by
  have hword {d : Char} (hd : isDigit d = false ∧ d ≠ '.') (word : List Char) :
      lowered cs ≠ d :: word := h.lowered_ne hd word
  rw [Binary64.ofText?, h.takeSign]
  dsimp only
  unfold magnitudeOfText?
  dsimp only
  rw [if_neg (not_or.2 ⟨hword (by decide) _, hword (by decide) _⟩), if_neg (hword (by decide) _)]
  obtain ⟨hwhole, hpoint, hfraction, hsome, hpower⟩ := h
  rename_i whole point fraction power
  obtain ⟨exponent, hexponent⟩ := hpower.exponent
  have hnotBoth : (whole.isEmpty && fraction.isEmpty) = false := by
    rw [Bool.and_eq_false_iff]
    simpa using hsome
  rcases hpoint with rfl | ⟨rfl, rfl⟩
  · obtain ⟨htake, hdrop⟩ := @takeWhile_digits whole ('.' :: (fraction ++ power)) hwhole
      fun c hc => by cases hc; rfl
    obtain ⟨htake', hdrop'⟩ := takeWhile_digits hfraction fun c hc => (hpower.head c hc).1
    have hcs : whole ++ ['.'] ++ fraction ++ power = whole ++ '.' :: (fraction ++ power) := by simp
    rw [hcs, htake, hdrop]
    simp [htake', hdrop', hnotBoth, hexponent]
  · obtain ⟨htake, hdrop⟩ := takeWhile_digits hwhole fun c hc => (hpower.head c hc).1
    rw [List.append_nil, List.append_nil, htake, hdrop]
    split
    · exact absurd rfl (hpower.head _ rfl).2
    · simp at hnotBoth
      simp [hnotBoth, hexponent]

/-! ## Values -/

/-- What a number is with a sign: the integer that its digits are, if it has nothing but digits and
they fit, and else a float. -/
inductive NumberReads (spelling : String) (sign : Int) : Value → Prop where
  | integer {m : Nat} {i : Int64} (hm : natOfDigits? spelling.toList = some m)
    (hfits : m < Binary64.integerLimit) (hi : i.toInt = sign * m) :
    NumberReads spelling sign (.integer i)
  | float (x : Binary64)
    (hnone : ∀ m : Nat, natOfDigits? spelling.toList = some m → Binary64.integerLimit ≤ m) :
    NumberReads spelling sign (.float x)

theorem ofNumber_reads {spelling : String} (h : IsNumeral spelling.toList) :
    ∃ v, ofNumber spelling = .ok v ∧ NumberReads spelling 1 v := by
  have hint : intOfText? spelling.toList =
      (natOfDigits? spelling.toList).map fun m => (m : Int) := by
    rw [intOfText?, h.takeSign]
    rfl
  have hfloat (hnone : ∀ m : Nat, natOfDigits? spelling.toList = some m →
      Binary64.integerLimit ≤ m) (hinteger : int64OfText? spelling.toList = none) :
      ∃ v, ofNumber spelling = .ok v ∧ NumberReads spelling 1 v := by
    obtain ⟨x, hx⟩ := h.ofText?
    rw [ofNumber, hinteger, hx]
    exact ⟨_, rfl, .float x hnone⟩
  cases hnat : natOfDigits? spelling.toList with
  | none =>
    refine hfloat (by simp [hnat]) ?_
    rw [int64OfText?, hint, hnat]
    rfl
  | some m =>
    by_cases hfits : (m : Int) < Binary64.integerLimit
    · have hlow : -Binary64.integerLimit ≤ (m : Int) := by
        unfold Binary64.integerLimit
        omega
      have hread : int64OfText? spelling.toList = some (Int64.ofInt m) := by
        rw [int64OfText?, hint, hnat]
        exact if_pos ⟨hlow, hfits⟩
      refine ⟨.integer (Int64.ofInt m), by rw [ofNumber, hread], .integer hnat hfits ?_⟩
      rw [one_mul]
      exact Int64.toInt_ofInt_of_le hlow hfits
    · refine hfloat (fun k hk => ?_) ?_
      · cases hnat.symm.trans hk
        exact not_lt.1 hfits
      · rw [int64OfText?, hint, hnat]
        exact if_neg fun hboth => hfits hboth.2

/-- The sign of an integer of 64 bits, other than the least one, is turned round exactly. -/
theorem toInt_neg_of_ne {i : Int64} (h : i ≠ Int64.minValue) : (-i).toInt = -i.toInt := by
  have hne : i.toInt ≠ -2 ^ 63 := fun heq =>
    h (Int64.toInt_inj.1 (heq.trans Int64.toInt_minValue.symm))
  have hlow := i.le_toInt
  have hhigh := i.toInt_lt
  rw [Int64.toInt_neg, Int.bmod_eq_of_le] <;> omega

namespace NumberReads

variable {spelling : String} {sign : Int} {v : Value}

/-- A number is never the least integer, as its digits alone would not fit. -/
theorem ne_least (h : NumberReads spelling sign v) (hsign : sign = 1 ∨ sign = -1) :
    v ≠ .integer Int64.minValue := by
  rintro rfl
  cases h with
  | integer hm hfits hi =>
    rw [Int64.toInt_minValue] at hi
    unfold Binary64.integerLimit at hfits
    rcases hsign with rfl | rfl <;> omega

theorem negate (h : NumberReads spelling sign v) (hsign : sign = 1 ∨ sign = -1) :
    ∃ w, Filter.negate v = .ok w ∧ NumberReads spelling (-sign) w := by
  have hne := h.ne_least hsign
  cases h with
  | float x hnone => exact ⟨_, rfl, .float _ hnone⟩
  | integer hm hfits hi =>
    refine ⟨_, rfl, .integer hm hfits ?_⟩
    rw [toInt_neg_of_ne fun heq => hne (by rw [heq]), hi, neg_mul]

end NumberReads

/-- A literal between minus signs and parentheses; the number counts the minus signs. -/
inductive Expression.Signed (l : Literal) : Nat → Expression → Prop where
  | literal : Signed l 0 (.literal l)
  | minus {k : Nat} {e : Expression} : Signed l k e → Signed l (k + 1) (.unary .minus e)
  | nested {k : Nat} {e : Expression} : Signed l k e → Signed l k (.nested e)

/-- Somewhere the least integer is negated, which leaves the integers of 64 bits. -/
def Expression.Overflows : Expression → Prop
  | .unary .minus e => e.Overflows ∨ valueOf e = .ok (.integer Int64.minValue)
  | .nested e => e.Overflows
  | _ => False

/-- A number between minus signs and parentheses has a value with their sign, and the least
integer is negated nowhere. -/
theorem valueOf_signed {spelling : String} (h : IsNumeral spelling.toList) {long : Bool} {k : Nat}
    {e : Expression} (he : e.Signed (.number spelling long) k) :
    ¬ e.Overflows ∧ ∃ v, valueOf e = .ok v ∧ NumberReads spelling ((-1) ^ k) v := by
  induction he with
  | literal => exact ⟨id, ofNumber_reads h⟩
  | nested he ih => exact ih
  | minus he ih =>
    rename_i n e
    obtain ⟨hfits, v, hv, hreads⟩ := ih
    have hsign := neg_one_pow_eq_or Int n
    refine ⟨?_, ?_⟩
    · rintro (hover | hleast)
      · exact hfits hover
      · cases hv.symm.trans hleast
        exact hreads.ne_least hsign rfl
    · obtain ⟨w, hw, hreads'⟩ := hreads.negate hsign
      rw [valueOf, hv, pow_succ, mul_neg_one]
      exact ⟨w, hw, hreads'⟩

/-! ## Integers -/

/-- What the text of an integer is parsed to. -/
def integerExpression (i : Int) : Expression :=
  if i < 0 then .unary .minus (.literal (.number (natText i.natAbs) false))
  else .literal (.number (natText i.natAbs) false)

theorem isNumeral_natText (n : Nat) : IsNumeral (natText n).toList := by
  have h := IsNumeral.mk (digits_natText n) (.inr ⟨rfl, rfl⟩) (fun c hc => by cases hc)
    (.inl (natText_ne_nil n)) .none
  simpa using h

theorem natOfDigits?_natText (n : Nat) : natOfDigits? (natText n).toList = some n := by
  rw [natOfDigits?_of_digits (natText_ne_nil n) (digits_natText n), digitsValue_natText]

theorem signed_integerExpression (i : Int) :
    ∃ k, (-1 : Int) ^ k * i.natAbs = i ∧
      (integerExpression i).Signed (.number (natText i.natAbs) false) k := by
  unfold integerExpression
  split
  · exact ⟨1, by omega, .minus .literal⟩
  · exact ⟨0, by omega, .literal⟩

/-- An integer that is compared with a field. -/
theorem read_comparison {f : String} (hf : isIdentifier f = true)
    (hkeyword : Token.upper f ∉ operandKeywords) (i : Int) {v : Value}
    (hv : valueOf (integerExpression i) = .ok v) :
    Condition.read (f ++ " = " ++ intText i) = .ok ⟨[.leaf .and ⟨[f]⟩ .equals v]⟩ := by
  have hlex := lex_comparison hf fun fuel hfuel => lexFrom_integer i hfuel
  have hoperand : ∃ t ts, integerTokens i = t :: ts ∧ t.token.keyword? = none ∧
      expression 49 Rank.comparison (t :: ts) = .ok (integerExpression i, []) := by
    unfold integerTokens integerExpression
    split
    · exact ⟨_, _, rfl, rfl, expression_negated (expression_number 47 _ _ _ _) _⟩
    · exact ⟨_, _, rfl, rfl, expression_number 48 _ _ _ _⟩
  obtain ⟨t, ts, htokens, ht, hexpression⟩ := hoperand
  rw [htokens] at hlex
  rw [Condition.read_eq hlex (parse_comparison hkeyword ht hexpression _ _)]
  simp only [Condition.ofExpression, nodesOf, leafOf, comparisonOf, comparison, fieldOf, hv]
  rfl

end RecordModel.Filter

namespace RecordModel

open RecordModel.Filter RecordModel.Number

/-- An integer of 64 bits that is compared with a field is read exactly, unless it is the least
one: its digits do not fit without their sign, and it is read as a float. The field is called by
an identifier that is no keyword of an operand. Whatever number a text holds, no conversion of it
between minus signs and parentheses negates the least integer, and its value has the sign that they
make up. -/
theorem Condition.read_integer_iff {f : String} (hf : isIdentifier f = true)
    (hkeyword : Token.upper f ∉ operandKeywords) :
    (∀ n : Int64, ∃ v,
      Condition.read (f ++ " = " ++ intText n.toInt) = .ok ⟨[.leaf .and ⟨[f]⟩ .equals v]⟩ ∧
        (v = .integer n ↔ n ≠ Int64.minValue) ∧ (n = Int64.minValue → ∃ x, v = .float x)) ∧
    ∀ (text : String) (tokens : List Lexeme), lex text.toList = some tokens →
      ∀ (spelling : String) (long spaced : Bool), ⟨.number spelling long, spaced⟩ ∈ tokens →
        ∀ (k : Nat) (e : Expression), e.Signed (.number spelling long) k →
          ¬ e.Overflows ∧ ∃ v, valueOf e = .ok v ∧ NumberReads spelling ((-1) ^ k) v := by
  refine ⟨fun n => ?_, fun text tokens hlex spelling long spaced hmem k e he => ?_⟩
  · obtain ⟨k, hsign, hsigned⟩ := signed_integerExpression n.toInt
    obtain ⟨-, v, hv, hreads⟩ := valueOf_signed (isNumeral_natText _) hsigned
    refine ⟨v, read_comparison hf hkeyword n.toInt hv, ?_⟩
    have hlow := n.le_toInt
    have hhigh := n.toInt_lt
    have hleast : n = Int64.minValue ↔ n.toInt = -2 ^ 63 := by
      rw [← Int64.toInt_inj, Int64.toInt_minValue]
    cases hreads with
    | integer hm hfits hi =>
      cases (natOfDigits?_natText _).symm.trans hm
      cases Int64.toInt_inj.1 (hi.trans hsign)
      unfold Binary64.integerLimit at hfits
      have hne : n ≠ Int64.minValue := by
        rw [Ne, hleast]
        omega
      exact ⟨iff_of_true rfl hne, fun h => absurd h hne⟩
    | float x hnone =>
      have hlarge := hnone _ (natOfDigits?_natText _)
      unfold Binary64.integerLimit at hlarge
      have heq : n = Int64.minValue := hleast.2 (by omega)
      exact ⟨iff_of_false nofun (not_not.2 heq), fun _ => ⟨x, rfl⟩⟩
  · exact valueOf_signed (lex_spelled hlex _ hmem) he

/-- `-(-(- 5))` -/
def thriceNegated : Expression :=
  .unary .minus (.nested (.unary .minus (.nested (.unary .minus (.literal (.number "5" false))))))

/-- The integer next to the least one is read, and three signs are one. -/
theorem age_read : isIdentifier "age" = true ∧ Token.upper "age" ∉ operandKeywords ∧
    Condition.read "age = -9223372036854775807" =
      .ok ⟨[.leaf .and ⟨["age"]⟩ .equals (.integer (-9223372036854775807))]⟩ ∧
    lex "-(-(- 5))".toList = some [⟨.symbol "-", false⟩, ⟨.symbol "(", false⟩, ⟨.symbol "-", false⟩,
      ⟨.symbol "(", false⟩, ⟨.symbol "-", false⟩, ⟨.number "5" false, true⟩, ⟨.symbol ")", false⟩,
      ⟨.symbol ")", false⟩] ∧
    ¬ thriceNegated.Overflows ∧ valueOf thriceNegated = .ok (.integer (-5)) := by
  obtain ⟨hread, hsigned⟩ :=
    Condition.read_integer_iff (by decide : isIdentifier "age" = true) (by decide +kernel)
  have htext : "age" ++ " = " ++ intText (Int64.toInt (-9223372036854775807)) =
      "age = -9223372036854775807" := by decide +kernel
  have hne : (-9223372036854775807 : Int64) ≠ Int64.minValue := by decide +kernel
  have hlex : lex "-(-(- 5))".toList = some [⟨.symbol "-", false⟩, ⟨.symbol "(", false⟩,
      ⟨.symbol "-", false⟩, ⟨.symbol "(", false⟩, ⟨.symbol "-", false⟩, ⟨.number "5" false, true⟩,
      ⟨.symbol ")", false⟩, ⟨.symbol ")", false⟩] := by decide +kernel
  obtain ⟨v, hv, hexact, -⟩ := hread (-9223372036854775807)
  obtain ⟨hfits, -⟩ := hsigned _ _ hlex "5" false true (by decide) 3 thriceNegated
    (.minus (.nested (.minus (.nested (.minus .literal)))))
  rw [htext, hexact.2 hne] at hv
  exact ⟨by decide, by decide +kernel, hv, hlex, hfits, rfl⟩

/-- The least integer is not read as an integer. -/
theorem leastAge_float :
    Condition.read "age = -9223372036854775808" = .ok ⟨[.leaf .and ⟨["age"]⟩ .equals
      (.float (Binary64.ofInt (-9223372036854775808)))]⟩ ∧
    Condition.read "age = -9223372036854775808" ≠ .ok ⟨[.leaf .and ⟨["age"]⟩ .equals
      (.integer Int64.minValue)]⟩ := by
  have htext : "age" ++ " = " ++ intText (-9223372036854775808) =
      "age = -9223372036854775808" := by decide +kernel
  have hexpression : integerExpression (-9223372036854775808) =
      .unary .minus (.literal (.number "9223372036854775808" false)) := by
    have hdigits : natText (Int.natAbs (-9223372036854775808)) = "9223372036854775808" := by
      decide +kernel
    rw [integerExpression, if_pos (by decide), hdigits]
  have hfloat : Binary64.ofText? "9223372036854775808".toList =
      some (Binary64.ofInt 9223372036854775808) := by decide +kernel
  have hinteger : int64OfText? "9223372036854775808".toList = none := by decide +kernel
  have hneg : (Binary64.ofInt 9223372036854775808).neg = Binary64.ofInt (-9223372036854775808) := by
    decide +kernel
  have hvalue : valueOf (integerExpression (-9223372036854775808)) =
      .ok (.float (Binary64.ofInt (-9223372036854775808))) := by
    rw [hexpression, valueOf, valueOf, Literal.value, ofNumber, hinteger]
    dsimp only
    rw [hfloat, ← hneg]
    rfl
  have hread := read_comparison (f := "age") (by decide) (by decide +kernel)
    (-9223372036854775808) hvalue
  rw [htext] at hread
  refine ⟨hread, fun hexact => ?_⟩
  cases hread.symm.trans hexact

end RecordModel
