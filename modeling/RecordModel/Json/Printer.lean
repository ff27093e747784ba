import RecordModel.Json.Basic
import RecordModel.Text.Pieces
import RecordModel.Value.Text

/-!
# Writing JSON

Documents without blanks. Strings escape quotes, backslashes and control characters and
leave all else as it is. A value becomes a document: floats keep a point or an exponent,
the special floats are null, and dates are texts.
-/
namespace RecordModel.Json

open RecordModel.Text RecordModel.Number

def hexDigit (n : Nat) : Char := Char.ofNat (if n < 10 then 48 + n else 87 + n)

def escapeChar (c : Char) : List Char :=
  match c with
  | '\x22' => ['\\', '\x22']
  | '\\' => ['\\', '\\']
  | '\x08' => ['\\', 'b']
  | '\x0c' => ['\\', 'f']
  | '\n' => ['\\', 'n']
  | '\r' => ['\\', 'r']
  | '\t' => ['\\', 't']
  | c =>
    if c.toNat < 32 then ['\\', 'u', '0', '0', hexDigit (c.toNat / 16), hexDigit (c.toNat % 16)]
    else [c]

def quoted (s : String) : String :=
  "\"" ++ String.ofList (s.toList.flatMap escapeChar) ++ "\""

mutual
/-- The text of a document. -/
def print : Json → String
  | null => "null"
  | boolean b => if b then "true" else "false"
  | number spelling => spelling
  | string s => quoted s
  | unpaired => "\"\\ud800\""
  | array items => "[" ++ join "," (printAll items) ++ "]"
  | object members => "\x7b" ++ join "," (printMembers members) ++ "\x7d"

def printAll : List Json → List String
  | [] => []
  | item :: items => print item :: printAll items

def printMembers : List (Json × Json) → List String
  | [] => []
  | (key, value) :: rest => (print key ++ ":" ++ print value) :: printMembers rest
end

mutual
/-- The document of a value. -/
def ofValue : Value → Json
  | .null => .null
  | .integer i => .ofInt i.toInt
  | .float f =>
    match f with
    | .finite _ _ => .number (f.text .document)
    | _ => .null
  | .text s => .string s
  | .boolean b => .boolean b
  | .date d => .string d.text
  | .dateTime t => .string t.exactText
  | .list items => .array (ofValues items)

def ofValues : List Value → List Json
  | [] => []
  | item :: items => ofValue item :: ofValues items
end

end RecordModel.Json
