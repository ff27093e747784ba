import RecordModel.Proofs.Sql.Expansion

/-!
# Operands

What an operator compares a column with: nothing for a null check, each of its items for a
set membership, a text between percent signs for a substring match, and otherwise its
argument. `Dialect.written` is the SQL of an operator with every operand in its place, in a
form of one's choice; with a question mark for each operand it is the SQL that the operator is
compiled to, its list argument spread.

Results:
* `fills_written`: filling the placeholders puts each operand in its place.
* `operatorSql_spread`: what an operator that takes its argument is compiled to.
-/
namespace RecordModel

open RecordModel.Text RecordModel.Sql

/-! ## The SQL of an operator -/

namespace Operator

/-- What a column is compared with. -/
def operands (op : Operator) (arg : Value) : List Value :=
  match op with
  | isNull | isNotNull => []
  | like | notLike | ilike | notIlike => [Dialect.substringPattern arg]
  | isIn | notIn => itemsOf arg
  | equals | notEquals | lower | lowerOrEqual | greater | greaterOrEqual | likePattern
  | ilikePattern => [arg]

/-- What stands in front of the operands, and behind them. -/
def brackets (op : Operator) : String × String :=
  if op.isNullCheck then ("", "") else if op.isSetMembership then (" (", ")") else (" ", "")

end Operator

namespace Sql.Dialect

def keyword (d : Dialect) : Operator → String
  | .equals => "="
  | .notEquals => "!="
  | .lower => "<"
  | .lowerOrEqual => "<="
  | .greater => ">"
  | .greaterOrEqual => ">="
  | .like | .likePattern => "LIKE"
  | .notLike => "NOT LIKE"
  | .ilike | .ilikePattern => d.caselessKeyword
  | .notIlike => "NOT " ++ d.caselessKeyword
  | .isIn => "IN"
  | .notIn => "NOT IN"
  | .isNull => "IS NULL"
  | .isNotNull => "IS NOT NULL"

/-- The SQL of an operator around a list of operands that are already written. -/
def around (d : Dialect) (op : Operator) (operands : List String) : String :=
  d.keyword op ++ op.brackets.1 ++ join ", " operands ++ op.brackets.2

/-- The SQL of an operator with its operands in place. -/
def written (d : Dialect) (mark : Value → String) (op : Operator) (arg : Value) : String :=
  d.around op ((op.operands arg).map mark)

end Sql.Dialect

variable {d : Dialect} {op : Operator} {arg : Value} {mark : Value → String}

/-! ## Filling its placeholders -/

theorem inert_keyword (d : Dialect) (op : Operator) : Inert (d.keyword op ++ op.brackets.1) := by
  cases d <;> cases op <;> decide

theorem fills_around {ss ss' : List String} {vs : List Value} (h : FillsAll mark ss vs ss') :
    Fills mark (d.around op ss) vs (d.around op ss') := by
  have hbehind : Inert op.brackets.2 := by cases op <;> decide
  exact ((h.join (by decide : Inert ", ")).behind (inert_keyword d op)).before hbehind

theorem fillsAll_placeholders (vs : List Value) :
    FillsAll mark (vs.map fun _ => "?") vs (vs.map mark) := by
  have hall : FillsAll mark (vs.map fun _ => "?") (vs.flatMap fun v => [v]) (vs.map mark) :=
    .map fun v _ => Fills.placeholder v
  rwa [List.flatMap_singleton'] at hall

theorem fills_written (mark : Value → String) (d : Dialect) (op : Operator) (arg : Value) :
    Fills mark (d.written (fun _ => "?") op arg) (op.operands arg) (d.written mark op arg) :=
  fills_around (fillsAll_placeholders (op.operands arg))

/-! ## What is compiled -/

theorem operatorSql_ok {f : Fragment} (h : d.operatorSql op arg = .ok f) :
    f.sql = d.around op (f.args.map fun _ => "?") ∧ (f.args = [] ∨ ∃ v, f.args = [v]) ∧
      (∀ v ∈ f.args, itemsOf v ≠ []) ∧ f.args.flatMap itemsOf = op.operands arg := by
  unfold Dialect.operatorSql at h
  split at h
  · cases h
  rename_i hlist
  have hscalar (h1 : op.isSetMembership = false) (h2 : op.isNullCheck = false) :
      arg.isList = false := by simpa [h1, h2] using hlist
  have hone {v : Value} (hv : itemsOf v ≠ []) : ∀ w ∈ [v], itemsOf w ≠ [] :=
    List.forall_mem_singleton.2 hv
  cases op with
  | isIn | notIn =>
    dsimp only at h
    split at h
    · cases h
    rename_i hitems
    cases h
    refine ⟨?_, .inr ⟨_, rfl⟩, hone (by simpa [itemsOf] using hitems), List.append_nil _⟩
    dsimp only [List.map]
    cases d <;> decide
  | isNull | isNotNull =>
    cases h
    refine ⟨?_, .inl rfl, fun v hv => absurd hv List.not_mem_nil, rfl⟩
    dsimp only [List.map]
    cases d <;> decide
  | like | notLike | ilike | notIlike =>
    cases h
    refine ⟨?_, .inr ⟨_, rfl⟩, hone (List.cons_ne_nil _ _), rfl⟩
    dsimp only [List.map]
    cases d <;> decide
  | equals | notEquals | lower | lowerOrEqual | greater | greaterOrEqual | likePattern
  | ilikePattern =>
    cases h
    have harg := itemsOf_eq (hscalar rfl rfl)
    refine ⟨?_, .inr ⟨_, rfl⟩, hone (by simp [harg]), by rw [List.flatMap_singleton, harg]; rfl⟩
    dsimp only [List.map]
    cases d <;> decide

theorem operatorSql_spreads {f : Fragment} (h : d.operatorSql op arg = .ok f) :
    Spreads f.sql f.args (d.around op (f.args.map argumentMarks)) := by
  rw [(operatorSql_ok h).1]
  exact fills_around (fillsAll_placeholders f.args)

/-- What an operator gives has a placeholder for each of its arguments, which have items. -/
theorem operatorSql_composable {f : Fragment} (h : d.operatorSql op arg = .ok f) :
    f.Composable :=
  ⟨⟨_, operatorSql_spreads h⟩, (operatorSql_ok h).2.2.1⟩

theorem toList_join (sep : String) (ss : List String) :
    (join sep ss).toList = sep.toList.intercalate (ss.map String.toList) := by
  induction ss with
  | nil => rfl
  | cons s ss ih =>
    cases ss with
    | nil => simp [join]
    | cons t ss =>
      simp only [join, String.toList_append, ih, List.map_cons]
      simp [List.intercalate]

theorem argumentMarks_eq (v : Value) :
    argumentMarks v = join ", " ((itemsOf v).map fun _ => "?") := by
  have hmark : "?".toList = ['?'] := by decide
  have hcomma : ", ".toList = [',', ' '] := by decide
  rw [← String.toList_inj, argumentMarks, String.toList_ofList, toList_join, hcomma, List.map_map]
  simp only [Function.comp_def, hmark]
  rfl

/-- An operator that takes its argument is compiled to a placeholder for each operand. -/
theorem operatorSql_spread {f : Fragment} (h : d.operatorSql op arg = .ok f) :
    f.spread = ⟨d.written (fun _ => "?") op arg, op.operands arg⟩ := by
  obtain ⟨-, hargs, -, hitems⟩ := operatorSql_ok h
  have hmarks : join ", " (f.args.map argumentMarks) =
      join ", " ((f.args.flatMap itemsOf).map fun _ => "?") := by
    rcases hargs with hargs | ⟨v, hargs⟩
    · rw [hargs]; rfl
    · rw [hargs, List.flatMap_singleton]
      exact argumentMarks_eq v
  rw [Fragment.spread, (operatorSql_spreads h).woven, String.ofList_toList, hitems,
    Dialect.written, ← hitems, Dialect.around, Dialect.around, hmarks]

end RecordModel
