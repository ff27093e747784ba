/-!
# Tokens of filter expressions

A token keeps what its text says: words with the quote they stood in, numbers as they
were spelled. `Token.text` writes a token back.

Results:
* `Token.isKeyword_quoted`: a word in quotes is no keyword.
-/
namespace RecordModel.Filter

inductive Token where
  /-- A name or keyword; `quote` is the mark that it stood between. -/
  | word (value : String) (quote : Option Char)
  /-- A number as it was spelled; `long` when an `L` follows it. -/
  | number (spelling : String) (long : Bool)
  | text (s : String)
  /-- A text with a letter in front of its opening quote. -/
  | marked (mark : String) (quote : Char) (s : String)
  | dollarText (tag : String) (s : String)
  | placeholder (s : String)
  | symbol (s : String)
  deriving DecidableEq

/-- A token and whether a blank or a comment stands before it. -/
structure Lexeme where
  token : Token
  spaced : Bool
  deriving DecidableEq

namespace Token

/-- A token as it was written, but with single quotes around texts and without escapes. -/
def written : Token → String
  | word value none => value
  | word value (some quote) => quote.toString ++ value ++ quote.toString
  | number spelling long => spelling ++ (if long then "L" else "")
  | text s => "'" ++ s ++ "'"
  | marked mark quote s => mark ++ quote.toString ++ s ++ quote.toString
  | dollarText tag s => "$" ++ tag ++ "$" ++ s ++ "$" ++ tag ++ "$"
  | placeholder s => s
  | symbol s => s

def upper (s : String) : String := String.ofList (s.toList.map Char.toUpper)

/-- The keyword that a word may be, in upper case; quoted words and other tokens are none. -/
def keyword? : Token → Option String
  | word value none => some (upper value)
  | _ => none

def isKeyword (name : String) (t : Token) : Bool := t.keyword? == some name

def isSymbol (s : String) (t : Token) : Bool := t == symbol s

theorem isKeyword_quoted (name value : String) (quote : Char) :
    isKeyword name (word value (some quote)) = false := rfl

end Token

end RecordModel.Filter
