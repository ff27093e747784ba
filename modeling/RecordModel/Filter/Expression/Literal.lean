import RecordModel.Filter.Expression.Escape
import RecordModel.Filter.Expression.Grammar

/-!
# Literals and types

Numbers, texts, truth values, placeholders and NULL, and the types that may stand in front
of a literal or behind a cast.
-/
namespace RecordModel.Filter

open RecordModel.Text Reader

/-! ## Literals -/

/-- A marked text as a literal, with the escapes that its mark calls for. -/
def markedText (mark : String) (quote : Char) (s : String) : String :=
  let body :=
    if mark = "E" then String.ofList (escape s.toList)
    else if mark = "U&" then String.ofList (escapeNumbers s.toList)
    else s
  mark ++ quote.toString ++ body ++ quote.toString

/-- A literal, where one must stand. -/
def literalAt : Reader Literal := do
  match ← take with
  | .number spelling long => return .number spelling long
  | .text s => return .text s
  | .word value none =>
    match Token.upper value with
    | "TRUE" => return .boolean true
    | "FALSE" => return .boolean false
    | "NULL" => return .null
    | _ => reject
  | .word value (some '\x22') => return .other (quotedText '\x22' value)
  | .word _ (some _) => reject
  | .symbol s =>
    if s = ":" ∨ s = "@" then
      match ← rest with
      | ⟨.word value _, false⟩ :: _ => let _ ← take; return .other (s ++ value)
      | ⟨.number spelling false, false⟩ :: _ => let _ ← take; return .other (s ++ spelling)
      | _ => reject
    else reject
  | .marked mark quote s => return .other (markedText mark quote s)
  | token => return .other token.written

/-! ## Types -/

/-- Types that are written with one word, and their canonical names. -/
def plainTypes : List (String × String) :=
  ["BOOLEAN", "BOOL", "FLOAT", "REAL", "FLOAT4", "FLOAT8", "TINYINT", "SMALLINT", "MEDIUMINT",
    "INT", "INT2", "INT4", "INT8", "INTEGER", "BIGINT", "VARCHAR", "NVARCHAR", "CLOB", "BINARY",
    "VARBINARY", "BLOB", "TINYBLOB", "MEDIUMBLOB", "LONGBLOB", "BYTES", "VARBIT", "UUID", "DATE",
    "DATETIME", "TIMESTAMPTZ", "TIMETZ", "JSON", "JSONB", "REGCLASS", "STRING", "TINYTEXT",
    "TEXT", "MEDIUMTEXT", "LONGTEXT", "BYTEA", "NUMERIC", "DECIMAL", "DEC", "BIGNUMERIC",
    "BIGDECIMAL", "HUGEINT", "TSVECTOR", "TSQUERY"].map (fun s => (s, s))
    ++ [("DATE32", "Date32"), ("INT16", "Int16"), ("INT32", "Int32"), ("INT64", "INT64"),
      ("FLOAT32", "Float32"), ("FLOAT64", "FLOAT64")]

/-- A number or several in parentheses, as a type takes them. -/
def typeArguments : Reader String := do
  let given ← attempt do
    expectSymbol "("
    let numbers ← commaSeparated do
      match ← take with
      | .number spelling _ => return spelling
      | _ => reject
    expectSymbol ")"
    return "(" ++ join "," numbers ++ ")"
  return given.getD ""

/-- The second part of the name of a type of times. -/
def zoneSuffix : Reader String := do
  if ← takeKeywords ["WITH", "TIME", "ZONE"] then return " WITH TIME ZONE"
  else if ← takeKeywords ["WITHOUT", "TIME", "ZONE"] then return " WITHOUT TIME ZONE"
  else return ""

/-- The brackets of a type of arrays. -/
def arraySuffix : Nat → Reader String
  | 0 => return ""
  | fuel + 1 => do
    if ← takeSymbol "[" then
      let size ← takeIf fun t => match t with
        | .number _ _ => true
        | _ => false
      if size then reject
      expectSymbol "]"
      return "[]" ++ (← arraySuffix fuel)
    else return ""

/-- A type: whether its name is one of the library's own, and its text. -/
def typeAt : Reader (Bool × String) := do
  match ← take with
  | .word value quote =>
    let keyword := ((Token.word value quote).keyword?).getD ""
    let found ← match plainTypes.lookup keyword with
      | some name =>
        let arguments ← typeArguments
        let unsigned ← takeKeyword "UNSIGNED"
        pure (true, name ++ arguments ++ (if unsigned then " UNSIGNED" else ""))
      | none =>
        match keyword with
        | "DOUBLE" =>
          if ← takeKeyword "PRECISION" then pure (true, "DOUBLE PRECISION")
          else pure (true, "DOUBLE" ++ (← typeArguments))
        | "CHARACTER" | "CHAR" =>
          let varying ← takeKeyword "VARYING"
          pure (true, keyword ++ (if varying then " VARYING" else "") ++ (← typeArguments))
        | "TIMESTAMP" | "TIME" =>
          let arguments ← typeArguments
          pure (true, keyword ++ arguments ++ (← zoneSuffix))
        | _ =>
          let more ← attempt do
            expectSymbol "."
            match ← take with
            | .word value _ => return "." ++ value
            | _ => reject
          pure (false, Name.text ⟨value, quote⟩ ++ more.getD "" ++ (← typeArguments))
    return (found.1, found.2 ++ (← arraySuffix 8))
  | _ => reject

/-- A type in front of a literal makes one typed literal. -/
def typedLiteral : Reader Expression := do
  match ← typeAt with
  | (true, type) => return .other (type ++ " " ++ (← literalAt).written)
  | (false, _) => reject

end RecordModel.Filter
