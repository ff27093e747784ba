import RecordModel.Error

/-!
# Placeholders

A question mark outside quoted text is a placeholder. A text is cut at its placeholders
into pieces; expanding gives a list argument one placeholder per item, and numbering
writes `$1`, `$2`, … in their place. Quotes of both kinds count, and a quote that is never
closed reaches to the end.

Results:
* `pieces_ne_nil`: a text has one piece more than placeholders.
* `weave_pieces`: putting the placeholders back gives the text.
-/
namespace RecordModel.Sql

open RecordModel.Text

/-- The quote that a text is in after a character. -/
def quoteAfter (quote : Option Char) (c : Char) : Option Char :=
  match quote with
  | some q => if c = q then none else some q
  | none => if c = '\x27' ∨ c = '\x22' then some c else none

/-- The pieces between placeholders, starting inside the given quote (`for_each_placeholder`). -/
def pieces (quote : Option Char) : List Char → List (List Char)
  | [] => [[]]
  | c :: rest =>
    if quote = none ∧ c = '?' then [] :: pieces none rest
    else
      match pieces (quoteAfter quote c) rest with
      | [] => [[c]]
      | piece :: more => (c :: piece) :: more

/-- How many placeholders a text holds. -/
def countPlaceholders (sql : List Char) : Nat := (pieces none sql).length - 1

/-- Pieces with the given texts between them. -/
def weave : List (List Char) → List (List Char) → List Char
  | [], _ => []
  | [piece], _ => piece
  | piece :: more, [] => piece ++ weave more []
  | piece :: more, mark :: marks => piece ++ mark ++ weave more marks

/-! ## Expanding lists -/

/-- The items that an argument binds. -/
def itemsOf : Value → List Value
  | .list items => items
  | v => [v]

/-- One placeholder per item, separated by commas. -/
def marksOf (items : List Value) : List Char := [',', ' '].intercalate (items.map fun _ => ['?'])

/-- The marks and items of each argument; an empty list has none. -/
def expandArguments : List Value → Result (List (List Char × List Value))
  | [] => .ok []
  | v :: rest =>
    if (itemsOf v).isEmpty then .error (.invalidExpression .emptyList)
    else do return (marksOf (itemsOf v), itemsOf v) :: (← expandArguments rest)

/-- A statement whose list arguments are spread over placeholders of their own
(`expand_list_placeholders`). -/
def expand (sql : String) (args : List Value) : Result (String × List Value) :=
  let cut := pieces none sql.toList
  if cut.length - 1 ≠ args.length then
    .error (.invalidExpression (.placeholderCount (cut.length - 1) args.length))
  else if !args.any Value.isList then .ok (sql, args)
  else do
    let spread ← expandArguments args
    return (String.ofList (weave cut (spread.map Prod.fst)), spread.flatMap Prod.snd)

/-! ## Numbering -/

/-- `$first`, `$first+1`, …, one for each of `count` placeholders. -/
def numbers (count first : Nat) : List (List Char) :=
  (List.range' first count).map fun n => '$' :: (toString n).toList

/-- A text with its placeholders numbered from one (`rebind_dollar`). -/
def number (sql : String) : String :=
  let cut := pieces none sql.toList
  String.ofList (weave cut (numbers (cut.length - 1) 1))

/-! ## What cutting keeps -/

theorem pieces_ne_nil (quote : Option Char) (sql : List Char) : pieces quote sql ≠ [] := by
  cases sql with
  | nil => simp [pieces]
  | cons c rest =>
    rw [pieces]
    split
    · simp
    · split <;> simp

theorem weave_cons_cons (c : Char) (piece : List Char) (more marks : List (List Char)) :
    weave ((c :: piece) :: more) marks = c :: weave (piece :: more) marks := by
  cases more <;> cases marks <;> simp [weave]

/-- Putting a question mark back for each placeholder gives the text. -/
theorem weave_pieces (quote : Option Char) (sql : List Char) :
    weave (pieces quote sql) (List.replicate ((pieces quote sql).length - 1) ['?']) = sql := by
  induction sql generalizing quote with
  | nil => rfl
  | cons c rest ih =>
    rw [pieces]
    split
    · rename_i h
      cases hp : pieces none rest with
      | nil => exact absurd hp (pieces_ne_nil none rest)
      | cons p ps =>
        have := ih none
        rw [hp] at this
        simp only [List.length_cons, Nat.add_sub_cancel, List.replicate_succ, weave] at this ⊢
        rw [this, h.2]; rfl
    · cases hp : pieces (quoteAfter quote c) rest with
      | nil => exact absurd hp (pieces_ne_nil _ rest)
      | cons p ps =>
        have := ih (quoteAfter quote c)
        rw [hp] at this
        simp only [List.length_cons, Nat.add_sub_cancel] at this ⊢
        rw [weave_cons_cons, this]

end RecordModel.Sql
