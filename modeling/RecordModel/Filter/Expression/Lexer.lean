import RecordModel.Filter.Expression.Escape
import RecordModel.Filter.Expression.Token
import RecordModel.Number.Decimal
import RecordModel.Text.Blank
import RecordModel.Text.Letter

/-!
# Cutting filter expressions into tokens

Names start with a letter, `_`, `#` or `@`; names in double quotes or backquotes may hold
anything, a doubled quote standing for one. Texts stand in single quotes. Comments run
from `--` to the end of the line, or between `/*` and `*/`, where they nest.

Results:
* `spanWord_append`: a word and what follows it make up the text.
-/
namespace RecordModel.Filter

open RecordModel.Text RecordModel.Number

/-- A step of the lexer: a token, or nothing for a blank or comment, and the rest. -/
abbrev Step := Option (Option Token × List Char)

def isWordChar (c : Char) : Bool :=
  isLetter c || isDigit c || c == '@' || c == '$' || c == '#' || c == '_'

/-- The characters of a word and the rest. -/
def spanWord (cs : List Char) : List Char × List Char :=
  (cs.takeWhile isWordChar, cs.dropWhile isWordChar)

/-- A word that starts with `start`. -/
def wordFrom (start : List Char) (rest : List Char) : Step :=
  let (more, rest) := spanWord rest
  some (some (.word (String.ofList (start ++ more)) none), rest)

/-! ## Quotes -/

/-- What stands before the closing quote, a doubled quote read as one, and the rest. -/
def spanQuoted (quote : Char) : List Char → Option (List Char × List Char)
  | [] => none
  | [c] => if c = quote then some ([], []) else none
  | c :: d :: rest =>
    if c = quote then
      if d = quote then (spanQuoted quote rest).map fun (s, rest) => (quote :: s, rest)
      else some ([], d :: rest)
    else (spanQuoted quote (d :: rest)).map fun (s, rest) => (c :: s, rest)

/-- What stands before the closing quote, as it is written, and the rest; a quote that is
doubled or behind a backslash does not close. -/
def spanEscaped (quote : Char) : List Char → Option (List Char × List Char)
  | [] => none
  | [c] => if c = quote then some ([], []) else none
  | c :: d :: rest =>
    if c = '\\' then (spanEscaped quote rest).map fun (s, rest) => (c :: d :: s, rest)
    else if c = quote then
      if d = quote then (spanEscaped quote rest).map fun (s, rest) => (quote :: quote :: s, rest)
      else some ([], d :: rest)
    else (spanEscaped quote (d :: rest)).map fun (s, rest) => (c :: s, rest)

def textToken (rest : List Char) : Step :=
  (spanQuoted '\x27' rest).map fun (s, rest) => (some (.text (String.ofList s)), rest)

def nameToken (quote : Char) (rest : List Char) : Step :=
  (spanQuoted quote rest).map fun (s, rest) =>
    (some (.word (String.ofList s) (some quote)), rest)

def markedToken (mark : String) (quote : Char) (rest : List Char) : Step :=
  (spanQuoted quote rest).map fun (s, rest) =>
    (some (.marked mark quote (String.ofList s)), rest)

/-- A marked text whose body stands for other characters. -/
def decodedToken (mark : String) (decode : List Char → Option (List Char))
    (found : Option (List Char × List Char)) : Step := do
  let (body, rest) ← found
  let s ← decode body
  return (some (.marked mark '\x27' (String.ofList s)), rest)

/-- A word, or a marked text when the letter stands right before a quote. -/
def letterToken (c : Char) (rest : List Char) : Step :=
  match c.toUpper, rest with
  | 'N', '\x27' :: rest => markedToken "N" '\x27' rest
  | 'X', '\x27' :: rest => markedToken "X" '\x27' rest
  | 'B', '\x27' :: rest => markedToken "B" '\x27' rest
  | 'B', '\x22' :: rest => markedToken "B" '\x22' rest
  | 'R', '\x27' :: rest => markedToken "R" '\x27' rest
  | 'R', '\x22' :: rest => markedToken "R" '\x22' rest
  | 'U', '&' :: '\x27' :: rest => decodedToken "U&" unescapeNumbers (spanQuoted '\x27' rest)
  | 'E', '\x27' :: rest => decodedToken "E" unescape (spanEscaped '\x27' rest)
  | _, rest => wordFrom [c] rest

/-! ## Numbers -/

/-- An exponent with digits, or nothing. -/
def spanPower (cs : List Char) : List Char × List Char :=
  match cs with
  | e :: rest =>
    if e = 'e' ∨ e = 'E' then
      let (sign, digits) := match rest with
        | '+' :: rest => (['+'], rest)
        | '-' :: rest => (['-'], rest)
        | rest => ([], rest)
      if digits.head?.any isDigit then
        (e :: sign ++ digits.takeWhile isDigit, digits.dropWhile isDigit)
      else ([], cs)
    else ([], cs)
  | [] => ([], [])

def isHexDigit (c : Char) : Bool :=
  isDigit c || ('a' ≤ c && c ≤ 'f') || ('A' ≤ c && c ≤ 'F')

/-- Digits with at most one point, an exponent, and an `L`; a lone point is a symbol. -/
def numberToken (cs : List Char) : Step :=
  let whole := cs.takeWhile isDigit
  let rest := cs.dropWhile isDigit
  match whole, rest with
  | ['0'], 'x' :: rest =>
    some (some (.marked "X" '\x27' (String.ofList (rest.takeWhile isHexDigit))),
      rest.dropWhile isHexDigit)
  | _, _ =>
    let (point, rest) := match rest with
      | '.' :: rest => (['.'], rest)
      | rest => ([], rest)
    let fraction := rest.takeWhile isDigit
    let rest := rest.dropWhile isDigit
    if whole.isEmpty && fraction.isEmpty then some (some (.symbol "."), rest)
    else
      let (power, rest) := spanPower rest
      let spelling := String.ofList (whole ++ point ++ fraction ++ power)
      match rest with
      | 'L' :: rest => some (some (.number spelling true), rest)
      | rest => some (some (.number spelling false), rest)

/-! ## Dollars, comments and symbols -/

/-- What stands before the mark, and what stands behind it. -/
def spanUntil (mark : List Char) : List Char → Option (List Char × List Char)
  | [] => none
  | c :: rest =>
    if mark.isPrefixOf (c :: rest) then some ([], (c :: rest).drop mark.length)
    else (spanUntil mark rest).map fun (s, rest) => (c :: s, rest)

/-- A placeholder after a dollar, or a text between two equal marks of dollars. -/
def dollarToken (rest : List Char) : Step :=
  let isTagChar := fun c => isLetter c || isDigit c || c == '_'
  let tag := rest.takeWhile isTagChar
  match rest.dropWhile isTagChar with
  | '$' :: rest =>
    (spanUntil ('$' :: tag ++ ['$']) rest).map fun (s, rest) =>
      (some (.dollarText (String.ofList tag) (String.ofList s)), rest)
  | rest => some (some (.placeholder (String.ofList ('$' :: tag))), rest)

/-- The text behind a comment that is `depth + 1` levels deep. -/
def skipComment : Nat → List Char → Option (List Char)
  | _, [] => none
  | depth, '/' :: '*' :: rest => skipComment (depth + 1) rest
  | 0, '*' :: '/' :: rest => some rest
  | depth + 1, '*' :: '/' :: rest => skipComment depth rest
  | depth, _ :: rest => skipComment depth rest

/-- The text behind the end of the line. -/
def skipLine (cs : List Char) : List Char := (cs.dropWhile (· ≠ '\n')).drop 1

/-- Symbols of several characters, the longer ones first, and how they are written. -/
def longSymbols : List (String × String) :=
  [("->>", "->>"), ("->", "->"), ("//", "//"), ("=>", "=>"), ("==", "=="), ("!=", "<>"),
    ("!!", "!!"), ("!~~*", "!~~*"), ("!~~", "!~~"), ("!~*", "!~*"), ("!~", "!~"),
    ("<=>", "<=>"), ("<=", "<="), ("<>", "<>"), ("<<", "<<"), ("<@", "<@"), (">=", ">="),
    (">>", ">>"), ("::", "::"), (":=", ":="), ("||/", "||/"), ("||", "||"), ("|/", "|/"), ("|>", "|>"),
    ("&&", "&&"), ("^@", "^@"), ("~~*", "~~*"), ("~~", "~~"), ("~*", "~*"), ("#-", "#-"),
    ("#>>", "#>>"), ("#>", "#>"), ("@>", "@>"), ("@?", "@?"), ("@@", "@@")]

/-- The longest symbol at the start of a text: its own text, and the rest. -/
def symbolToken (c : Char) (rest : List Char) : Step :=
  match longSymbols.find? fun (spelling, _) => spelling.toList.isPrefixOf (c :: rest) with
  | some (spelling, text) => some (some (.symbol text), (c :: rest).drop spelling.length)
  | none => some (some (.symbol c.toString), rest)

/-- A name that starts with the signs `sign` and any one character, or the signs alone. -/
def signedWord (sign : List Char) (isAlone : Char → Bool) : List Char → Step
  | [] => some (some (.symbol (String.ofList sign)), [])
  | d :: rest =>
    if isAlone d then some (some (.symbol (String.ofList sign)), d :: rest)
    else wordFrom (sign ++ [d]) rest

/-- A name after `#`, `@` or `@@`, or a symbol. -/
def signToken (c : Char) (rest : List Char) : Step :=
  match symbolToken c rest with
  | some (some (.symbol s), after) =>
    if s = "#" then signedWord ['#'] (· == ' ') after
    else if s = "@@" then signedWord ['@', '@'] (· == ' ') after
    else if s = "@" then
      signedWord ['@'] (fun d => d == ' ' || d == '\x27' || d == '\x22' || d == '\x60') after
    else some (some (.symbol s), after)
  | other => other

/-! ## The lexer -/

/-- The first token of a text. `afterWord` tells whether the token before was a word: a
point before an underscore is only allowed there. -/
def firstToken (afterWord : Bool) : List Char → Step
  | [] => none
  | '\x27' :: rest => textToken rest
  | '\x22' :: rest => nameToken '\x22' rest
  | '\x60' :: rest => nameToken '\x60' rest
  | '.' :: '_' :: rest => if afterWord then some (some (.symbol "."), '_' :: rest) else none
  | '-' :: '-' :: rest => some (none, skipLine rest)
  | '/' :: '*' :: rest => (skipComment 0 rest).map fun rest => (none, rest)
  | '$' :: rest => dollarToken rest
  | '?' :: rest =>
    some (some (.placeholder (String.ofList ('?' :: rest.takeWhile isDigit))),
      rest.dropWhile isDigit)
  | c :: rest =>
    if isBlank c then some (none, rest)
    else if isDigit c || c == '.' then numberToken (c :: rest)
    else if c == '#' || c == '@' then signToken c rest
    else if isLetter c || c == '_' then letterToken c rest
    else symbolToken c rest

def Token.isWord : Token → Bool
  | .word _ _ => true
  | _ => false

/-- The tokens of a text; each step takes a character, so the length bounds the steps. -/
def lexFrom : Nat → Bool → Bool → List Char → Option (List Lexeme)
  | _, _, _, [] => some []
  | 0, _, _, _ => none
  | fuel + 1, afterWord, spaced, cs =>
    match firstToken afterWord cs with
    | none => none
    | some (none, rest) => lexFrom fuel false true rest
    | some (some token, rest) =>
      (lexFrom fuel token.isWord false rest).map (⟨token, spaced⟩ :: ·)

/-- The tokens of a text; none when a quote or comment is left open. -/
def lex (cs : List Char) : Option (List Lexeme) := lexFrom cs.length false false cs

theorem spanWord_append (cs : List Char) : (spanWord cs).1 ++ (spanWord cs).2 = cs :=
  List.takeWhile_append_dropWhile

end RecordModel.Filter
