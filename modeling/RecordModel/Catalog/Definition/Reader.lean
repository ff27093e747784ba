import RecordModel.Catalog.Definition
import RecordModel.Text.Pieces

/-!
# Reading model definitions

The written form of a definition, line by line:

    model HrEmployee table hr_employee {
      name: text required index
      department: HrDepartment required
      active: bool default=true
    }

`//` and `#` start a comment, blank lines are skipped, and each line holds one header,
one field or one closing brace. A type that is no scalar type names the target of a
relation.

Results:
* `Definition.read_eq`: a text is read through its numbered lines.
-/
namespace RecordModel

open RecordModel.Text

/-! ## Lines -/

/-- A line without its comment (`strip_comment`). -/
def stripComment (line : List Char) : List Char :=
  let line := match splitMark ['/', '/'] line with
    | some (head, _) => head
    | none => line
  match splitFirst '#' line with
  | some (head, _) => head
  | none => line

def lowerText (s : String) : String := String.ofList (s.toList.map Char.toLower)

/-- The scalar type that a word names (`parse_scalar_type`). -/
def scalarType? (word : String) : Option DataType :=
  let word := lowerText word
  if word = "int" ∨ word = "integer" ∨ word = "i64" then some .integer
  else if word = "float" ∨ word = "double" ∨ word = "f64" then some .float
  else if word = "text" ∨ word = "string" ∨ word = "char" then some .text
  else if word = "bool" ∨ word = "boolean" then some .boolean
  else if word = "date" then some .date
  else if word = "datetime" ∨ word = "timestamp" then some .dateTime
  else none

/-! ## Headers -/

/-- The text without a brace at its end. -/
def dropBrace (cs : List Char) : Option (List Char) :=
  match cs.reverse with
  | '{' :: rest => some rest.reverse
  | _ => none

/-- The name and table of a header's words. -/
def readNames (header : List String) : Except LineFault (String × Option String) :=
  match header with
  | [name] => .ok (name, none)
  | [name, keyword, table] => if keyword = "table" then .ok (name, some table) else .error .badHeader
  | _ => .error .badHeader

/-- A header line, without blanks at its ends (`parse_model_header`). -/
def readHeader (line : List Char) : Except LineFault ModelDefinition := do
  match after ['m', 'o', 'd', 'e', 'l'] line with
  | none => .error .noModel
  | some rest =>
    if !rest.head?.any isAsciiBlank then .error .noBlankAfterModel
    match dropBrace (trimChars rest) with
    | none => .error .noOpeningBrace
    | some header =>
      let (name, table) ← readNames (words (String.ofList header))
      if !isIdentifier name then .error (.badModelName name)
      match table with
      | some table => if !isIdentifier table then .error (.badTableName table)
      | none => .ok ()
      return ⟨name, table, []⟩

/-! ## Fields -/

/-- A text between single quotes without them; any other text as it is. -/
def unquote (cs : List Char) : List Char :=
  match cs with
  | '\x27' :: rest =>
    match rest.reverse with
    | '\x27' :: inner => inner.reverse
    | _ => cs
  | _ => cs

/-- The default that a field's modifier gives, read by the field's type (`parse_default`). -/
def readDefault (d : FieldDefinition) (raw : List Char) : Except LineFault Value :=
  match d.type with
  | .relation _ => .error (.relationDefault d.name)
  | .scalar type =>
    let value := Value.text (String.ofList (unquote raw))
    match type.coerce value with
    | .ok v => .ok v
    | .error _ => .error (.badDefault value type)

/-- One modifier of a field. -/
def applyModifier (d : FieldDefinition) (token : String) : Except LineFault FieldDefinition :=
  match after "column=".toList token.toList with
  | some column =>
    let column := String.ofList column
    if isIdentifier column then .ok { d with column := some column }
    else .error (.badColumnName column)
  | none =>
    match after "default=".toList token.toList with
    | some raw => (readDefault d raw).map fun v => { d with default := some v }
    | none =>
      let word := lowerText token
      if word = "required" ∨ word = "not_null" then .ok { d with required := true }
      else if word = "optional" ∨ word = "nullable" then .ok { d with required := false }
      else if word = "unique" then .ok { d with unique := true }
      else if word = "index" then .ok { d with index := true }
      else .error (.unknownModifier word)

/-- The type that a word names: a scalar, or the target of a relation. -/
def readType (word : String) : Except LineFault FieldType :=
  match scalarType? word with
  | some type => .ok (.scalar type)
  | none => if isIdentifier word then .ok (.relation word) else .error (.unknownType word)

/-- A text without the commas at its end. -/
def dropCommas (cs : List Char) : List Char := (cs.reverse.dropWhile (· == ',')).reverse

/-- A field line, without blanks at its ends (`parse_field`). -/
def readField (line : List Char) : Except LineFault FieldDefinition := do
  match splitFirst ':' (trimChars (dropCommas line)) with
  | none => .error .noColon
  | some (left, right) =>
    let name := String.ofList (trimChars left)
    if !isIdentifier name then .error (.badFieldName name)
    match words (String.ofList right) with
    | [] => .error (.noType name)
    | type :: modifiers =>
      let type ← readType type
      modifiers.foldlM applyModifier ⟨name, type, false, false, false, none, none⟩

/-! ## Definitions -/

/-- What has been read: the finished models, the last one first, and the open one. -/
structure Draft where
  finished : List ModelDefinition
  current : Option ModelDefinition

def Draft.start : Draft := ⟨[], none⟩

/-- Read one line. -/
def Draft.readLine (d : Draft) (raw : List Char) : Except LineFault Draft :=
  let line := trimChars (stripComment raw)
  if line.isEmpty then .ok d
  else
    match d.current with
    | some m =>
      if line = ['}'] then .ok ⟨m :: d.finished, none⟩
      else (readField line).map fun f => { d with current := some { m with fields := m.fields ++ [f] } }
    | none => (readHeader line).map fun m => { d with current := some m }

/-- Read lines, the first of which has the number `number`. -/
def Draft.readLines (d : Draft) (number : Nat) : List (List Char) → Except DefinitionFault Draft
  | [] => .ok d
  | line :: rest =>
    match d.readLine line with
    | .ok d => d.readLines (number + 1) rest
    | .error fault => .error (.line number fault)

/-- The definition of a draft after its last line. -/
def Draft.finish (d : Draft) : Except DefinitionFault Definition :=
  match d.current with
  | some m => .error (.unclosed m.name)
  | none => if d.finished.isEmpty then .error .empty else .ok ⟨d.finished.reverse⟩

def Definition.readText (text : List Char) : Except DefinitionFault Definition :=
  match Draft.start.readLines 1 (lines text) with
  | .ok d => d.finish
  | .error fault => .error fault

/-- Read a definition (`parse`). -/
def Definition.read (text : String) : Result Definition :=
  match Definition.readText text.toList with
  | .ok d => .ok d
  | .error fault => .error (.definition fault)

theorem Definition.read_eq {text : String} {d : Definition} :
    Definition.read text = .ok d ↔ Definition.readText text.toList = .ok d := by
  unfold Definition.read
  cases Definition.readText text.toList <;> simp

end RecordModel
