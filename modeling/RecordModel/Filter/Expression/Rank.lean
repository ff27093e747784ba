import RecordModel.Filter.Expression.Token

/-!
# Ranks of operators

How tightly each operator binds. A word that is an operator in one place can be a name in
another: NOT is one only in front of another test, AT only in front of TIME ZONE.

Results:
* `rankOf_nil`, `rankOf_quoted`: the end and words in quotes have no rank.
-/
namespace RecordModel.Filter

namespace Rank

def none : Nat := 0
def or : Nat := 5
def and : Nat := 10
def not : Nat := 15
def arrow : Nat := 16
def is : Nat := 17
def like : Nat := 19
def comparison : Nat := 20
def pipe : Nat := 21
def caret : Nat := 22
def ampersand : Nat := 23
def xor : Nat := 24
def sum : Nat := 30
def product : Nat := 40
def timeZone : Nat := 41
def cast : Nat := 50
def point : Nat := 100

end Rank

/-- Symbols that stand between two operands, and their ranks. -/
def symbolRanks : List (String × Nat) :=
  [("=", Rank.comparison), ("==", Rank.comparison), ("<>", Rank.comparison),
    ("<", Rank.comparison), ("<=", Rank.comparison), (">", Rank.comparison),
    (">=", Rank.comparison), ("<=>", Rank.comparison), (":=", Rank.comparison),
    ("~", Rank.comparison), ("~*", Rank.comparison), ("!~", Rank.comparison),
    ("!~*", Rank.comparison), ("~~", Rank.comparison), ("~~*", Rank.comparison),
    ("!~~", Rank.comparison), ("!~~*", Rank.comparison), ("|", Rank.pipe), ("^", Rank.caret),
    ("#", Rank.caret), ("<<", Rank.caret), (">>", Rank.caret), ("&", Rank.ampersand),
    ("+", Rank.sum), ("-", Rank.sum), ("*", Rank.product), ("/", Rank.product),
    ("//", Rank.product), ("%", Rank.product), ("||", Rank.product), ("::", Rank.cast),
    ("!", Rank.cast), ("[", Rank.cast), ("&&", Rank.cast), ("^@", Rank.cast),
    ("->", Rank.arrow), ("->>", Rank.arrow), ("#>", Rank.arrow), ("#>>", Rank.arrow),
    ("@>", Rank.arrow), ("<@", Rank.arrow), ("#-", Rank.arrow), ("@?", Rank.arrow),
    ("@@", Rank.arrow), (".", Rank.point)]

/-- Keywords that stand between two operands, and their ranks. -/
def keywordRanks : List (String × Nat) :=
  [("OR", Rank.or), ("AND", Rank.and), ("XOR", Rank.xor), ("IS", Rank.is),
    ("IN", Rank.comparison), ("BETWEEN", Rank.comparison), ("OVERLAPS", Rank.comparison),
    ("OPERATOR", Rank.comparison), ("LIKE", Rank.like), ("ILIKE", Rank.like),
    ("RLIKE", Rank.like), ("REGEXP", Rank.like), ("MATCH", Rank.like), ("SIMILAR", Rank.like),
    ("MEMBER", Rank.like), ("DIV", Rank.product)]

/-- Keywords that may follow an infix NOT, and the ranks of the two together. -/
def notRanks : List (String × Nat) :=
  [("IN", Rank.comparison), ("BETWEEN", Rank.comparison), ("LIKE", Rank.like),
    ("ILIKE", Rank.like), ("RLIKE", Rank.like), ("REGEXP", Rank.like), ("MATCH", Rank.like),
    ("SIMILAR", Rank.like), ("MEMBER", Rank.like), ("NULL", Rank.is)]

/-- The rank of the operator that the tokens start with, zero when there is none. -/
def rankOf : List Lexeme → Nat
  | [] => Rank.none
  | t :: rest =>
    match t.token with
    | .symbol s => (symbolRanks.lookup s).getD Rank.none
    | token =>
      match token.keyword? with
      | some "NOT" =>
        match rest with
        | next :: _ => ((next.token.keyword?.bind (notRanks.lookup ·))).getD Rank.none
        | [] => Rank.none
      | some "AT" =>
        match rest with
        | a :: b :: _ =>
          if a.token.isKeyword "TIME" && b.token.isKeyword "ZONE" then Rank.timeZone
          else Rank.none
        | _ => Rank.none
      | some name => (keywordRanks.lookup name).getD Rank.none
      | none => Rank.none

theorem rankOf_nil : rankOf [] = Rank.none := rfl

theorem rankOf_quoted (value : String) (quote : Char) (spaced : Bool) (rest : List Lexeme) :
    rankOf (⟨.word value (some quote), spaced⟩ :: rest) = Rank.none := rfl

end RecordModel.Filter
