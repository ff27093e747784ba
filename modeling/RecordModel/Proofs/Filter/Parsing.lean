import RecordModel.Filter.Expression.Parser

/-!
# Parsing comparisons

A reader that succeeds goes on with the tokens that are left. In front of an equals sign a word is
a name unless it is a keyword that an operand may start with, also if it is a type that could stand
in front of a literal. Numbers and minus signs in front of them are operands.

Results:
* `primary_word`: a word in front of an equals sign is a name.
* `expression_number`, `expression_negated`: the last operand of a text.
* `parse_comparison`: a field, an equals sign and an operand are a comparison.
-/
namespace RecordModel.Filter

open Reader

/-! ## Steps -/

theorem Reader.bind_ok {α β : Type} {p : Reader α} {ts rest : List Lexeme} {a : α}
    (h : p ts = .ok (a, rest)) (f : α → Reader β) : (p >>= f) ts = f a rest := by
  simp only [bind, StateT.bind, Except.bind]
  rw [h]

/-! ## Words -/

theorem typeAt_word (value : String) (quote : Option Char) (b b' : Bool) (ts : List Lexeme) :
    ∃ found, typeAt (⟨.word value quote, b⟩ :: ⟨.symbol "=", b'⟩ :: ts) =
      .ok (found, ⟨.symbol "=", b'⟩ :: ts) := by
  unfold typeAt
  rw [Reader.bind_ok (rfl : take (⟨.word value quote, b⟩ :: ⟨.symbol "=", b'⟩ :: ts) = _)]
  dsimp only
  generalize ((Token.word value quote).keyword?).getD "" = keyword
  cases plainTypes.lookup keyword with
  | some name => exact ⟨_, rfl⟩
  | none =>
    dsimp only
    split <;> exact ⟨_, rfl⟩

theorem typedLiteral_word (value : String) (quote : Option Char) (b b' : Bool) (ts : List Lexeme) :
    typedLiteral (⟨.word value quote, b⟩ :: ⟨.symbol "=", b'⟩ :: ts) = .error .malformed := by
  obtain ⟨⟨known, type⟩, h⟩ := typeAt_word value quote b b' ts
  rw [typedLiteral, Reader.bind_ok h]
  cases known <;> rfl

/-- The keywords that forms start with. -/
def formKeywords : List String :=
  ["CASE", "CAST", "TRY_CAST", "SAFE_CAST", "EXISTS", "EXTRACT", "CEIL", "FLOOR", "POSITION",
    "SUBSTR", "SUBSTRING", "TRIM", "INTERVAL", "STRUCT", "ARRAY", "NOT"]

/-- The keywords that an operand may start with and that are not read as names there. -/
def operandKeywords : List String :=
  ["TRUE", "FALSE", "NULL"] ++ constantFunctions ++ timeFunctions ++ formKeywords

theorem keywordForm_none (operand : Operand) {keyword : String} (h : keyword ∉ operandKeywords)
    (spelling : String) (ts : List Lexeme) :
    keywordForm operand keyword spelling ts = .ok (none, ts) := by
  simp only [operandKeywords, List.mem_append, List.mem_cons, List.not_mem_nil, or_false,
    not_or] at h
  obtain ⟨⟨⟨⟨htrue, hfalse, hnull⟩, hconstant⟩, htime⟩, hform⟩ := h
  unfold keywordForm
  rw [if_neg htrue, if_neg hfalse, if_neg hnull, if_neg hconstant, if_neg htime]
  split
  case h_17 => rfl
  all_goals exact absurd (by decide) hform

/-- A word in front of an equals sign is a name. -/
theorem primary_word {operand : Operand} {value : String}
    (h : Token.upper value ∉ operandKeywords) (b b' : Bool) (ts : List Lexeme) :
    primary operand (⟨.word value none, b⟩ :: ⟨.symbol "=", b'⟩ :: ts) =
      .ok (.name ⟨value, none⟩, ⟨.symbol "=", b'⟩ :: ts) := by
  have hform := keywordForm_none operand h value (⟨.symbol "=", b'⟩ :: ts)
  have hword : wordForm operand value none (⟨.symbol "=", b'⟩ :: ts) =
      .ok (.name ⟨value, none⟩, ⟨.symbol "=", b'⟩ :: ts) := by
    unfold wordForm
    simp only [Token.keyword?, Option.getD_some, hform]
    rfl
  rw [primary, Reader.bind_ok (attempt_malformed (typedLiteral_word value none b b' ts))]
  exact hword

/-! ## Operands and comparisons -/

/-- An operand with nothing behind it that belongs to it. -/
theorem expression_of_primary {depth rank : Nat} {ts rest : List Lexeme} {e : Expression}
    (h : primary (expression depth) ts = .ok (e, rest))
    (haccesses : accesses (expression depth) rest.length rest = .ok ([], rest))
    (hcollation : takeKeyword "COLLATE" rest = .ok (false, rest)) :
    expression (depth + 1) rank ts = operators (expression depth) rank rest.length e rest := by
  have hcollate : collation (withAccesses e []) rest = .ok (e, rest) := by
    rw [collation, Reader.bind_ok hcollation]
    rfl
  rw [expression, Reader.bind_ok h]
  rw [Reader.bind_ok (rfl : Reader.rest rest = .ok (rest, rest)), Reader.bind_ok haccesses,
    Reader.bind_ok hcollate]
  rfl

/-- The last operand. -/
theorem expression_last {depth rank : Nat} {ts : List Lexeme} {e : Expression}
    (h : primary (expression depth) ts = .ok (e, [])) :
    expression (depth + 1) rank ts = .ok (e, []) :=
  expression_of_primary h rfl rfl

theorem expression_number (depth rank : Nat) (spelling : String) (long b : Bool) :
    expression (depth + 1) rank [⟨.number spelling long, b⟩] =
      .ok (.literal (.number spelling long), []) :=
  expression_last rfl

theorem expression_negated {depth rank : Nat} {ts : List Lexeme} {e : Expression}
    (h : expression depth Rank.product ts = .ok (e, [])) (b : Bool) :
    expression (depth + 1) rank (⟨.symbol "-", b⟩ :: ts) = .ok (.unary .minus e, []) := by
  refine expression_last ?_
  have hprimary : primary (expression depth) (⟨.symbol "-", b⟩ :: ts) =
      (expression depth Rank.product >>= fun e => pure (.unary .minus e)) ts := rfl
  rw [hprimary, Reader.bind_ok h]
  rfl

theorem operators_nil (operand : Operand) (rank fuel : Nat) (e : Expression) :
    operators operand rank fuel e [] = .ok (e, []) := by
  cases fuel with
  | zero => rfl
  | succ fuel =>
    rw [operators, Reader.bind_ok (rfl : Reader.rest [] = .ok ([], []))]
    rw [rankOf_nil, if_pos (.inl (Nat.zero_le rank))]
    rfl

/-- A comparison of a field and what is the rest of the text. -/
theorem parse_comparison {value : String} (hvalue : Token.upper value ∉ operandKeywords)
    {t : Lexeme} {ts : List Lexeme} {e : Expression} (ht : t.token.keyword? = none)
    (h : expression 49 Rank.comparison (t :: ts) = .ok (e, [])) (b b' : Bool) :
    parse (⟨.word value none, b⟩ :: ⟨.symbol "=", b'⟩ :: t :: ts) =
      .ok (.binary (.name ⟨value, none⟩) .eq e, []) := by
  have hnot (name : String) : takeKeyword name (t :: ts) = .ok (false, t :: ts) := by
    have hkeyword : Token.isKeyword name t.token = false := by
      rw [Token.isKeyword, ht]
      rfl
    simp only [takeKeyword, takeIf, hkeyword]
    rfl
  have hform : operatorForm (expression 49) Rank.comparison (.name ⟨value, none⟩)
      (⟨.symbol "=", b'⟩ :: t :: ts) = .ok (.binary (.name ⟨value, none⟩) .eq e, []) := by
    have hbinary : operatorForm (expression 49) Rank.comparison (.name ⟨value, none⟩)
        (⟨.symbol "=", b'⟩ :: t :: ts) =
          binaryForm (expression 49) Rank.comparison (.name ⟨value, none⟩) .eq (t :: ts) := rfl
    rw [hbinary, binaryForm, Reader.bind_ok (hnot "ANY")]
    simp only [Bool.false_eq_true, if_false]
    rw [Reader.bind_ok (hnot "ALL")]
    simp only [Bool.false_eq_true, if_false]
    rw [Reader.bind_ok (hnot "SOME")]
    simp only [Bool.false_eq_true, if_false, pure_bind, if_true]
    rw [Reader.bind_ok h]
    rfl
  have hoperators : operators (expression 49) Rank.none (ts.length + 2) (.name ⟨value, none⟩)
      (⟨.symbol "=", b'⟩ :: t :: ts) = .ok (.binary (.name ⟨value, none⟩) .eq e, []) := by
    have hstep : operators (expression 49) Rank.none (ts.length + 2) (.name ⟨value, none⟩)
        (⟨.symbol "=", b'⟩ :: t :: ts) =
          (operatorForm (expression 49) Rank.comparison (.name ⟨value, none⟩) >>= fun e =>
            operators (expression 49) Rank.none (ts.length + 1) e)
              (⟨.symbol "=", b'⟩ :: t :: ts) := rfl
    rw [hstep, Reader.bind_ok hform, operators_nil]
  rw [parse, nestingLimit, expression_of_primary (primary_word hvalue b b' (t :: ts)) rfl rfl]
  exact hoperators

end RecordModel.Filter
