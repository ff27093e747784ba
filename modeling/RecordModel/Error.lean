import RecordModel.Filter.Operator
import RecordModel.Method.Kind
import RecordModel.Value.Text

/-!
# Errors

Every cause of failure as a constructor, and its wording in one place. Causes fall into
three classes: faults of a declaration, found while a program is set up; faults of the
data of a single call; and failures of the database. `Error.category` gives the class of a
cause and `Error.message` its wording.
-/
namespace RecordModel

open RecordModel.Text

/-! ## Causes -/

/-- Faults of a model as a whole. -/
inductive ModelFault where
  | badTable (model table : String)
  | badField (model field column : String)
  | duplicateField (model field : String)
  | duplicateColumn (model column : String)
  | noIdColumn (model : String)
  | tableTaken (model table owner : String)
  | unknownTarget (model field target : String)
  | declaredTwice (model : String)
  | implicitField (model field : String)
  | relationTarget (model field target : String)
  deriving DecidableEq

/-- Faults of one line of a model definition. -/
inductive LineFault where
  | noModel
  | noBlankAfterModel
  | noOpeningBrace
  | badHeader
  | badModelName (name : String)
  | badTableName (name : String)
  | noColon
  | badFieldName (name : String)
  | noType (field : String)
  | unknownType (type : String)
  | badColumnName (name : String)
  | relationDefault (field : String)
  | badDefault (value : Value) (type : DataType)
  | unknownModifier (modifier : String)

/-- Faults of the text of a model definition. -/
inductive DefinitionFault where
  | line (number : Nat) (fault : LineFault)
  | unclosed (model : String)
  | empty

/-- Faults of a method's signature. -/
inductive SignatureFault where
  | noReceiver (found : Option Kind)
  | innerReceiver
  | unitArgument
  | recordSetResult
  deriving DecidableEq

/-- Faults of a connection or of its document. -/
inductive ConnectionFault where
  | notUrl (url : String)
  | noSqlitePath
  | scheme (scheme : String)
  | noDatabasePart
  | noDatabaseName
  | badPort (port : String)
  | unknownDriver (driver : String)
  | emptyDatabase
  | emptyHost
  | zeroPort
  | document
  deriving DecidableEq

/-- Faults of view records. -/
inductive ViewFault where
  | records
  | noView (type model : String)
  deriving DecidableEq

/-- Values of a type that does not fit. -/
inductive TypeFault where
  | scan (value : Value) (type : DataType)
  | argumentCount (method : String) (expected given : Nat)
  | argument (method : String) (position : Nat) (expected : Kind) (given : Value)
  | result (method : String) (expected : Kind) (given : Value)
  | conversion (expected : Kind) (given : Value)
  | missingArgument
  | notAnId (value : Value)
  | emptyRow
  | rowWidth (columns fields : Nat)
  | rowCount (count : Int)
  | number (spelling : String)
  /-- Raised by a method body in its own words. -/
  | custom (text : String)

/-- Expressions that have no meaning. -/
inductive ExpressionFault where
  | emptyPath
  | malformedPath (path : String)
  | notFollowed (segment path model field : String)
  | notRelation (field : String)
  | emptyOrder
  | orderDirection (direction entry : String)
  | orderEntry (entry : String)
  | emptyProjection (model : String)
  | listArgument (operator : Operator)
  | noValues (operator : Operator)
  | placeholderCount (placeholders arguments : Nat)
  | emptyList
  | unknownOperator (text : String)
  | notSingle (model : String) (count : Nat)
  /-- The text of a filter is no expression. -/
  | unreadable
  | trailing (token : String)
  | fieldExpected (found : String)
  | literalExpected (found : String)
  | unsupportedValue (value : String)
  | unsupportedOperator (operator : String)
  | unsupportedFilter (expression : String)
  | cannotNegate (value : Value)
  | escapeClause (keyword : String)
  | noDatabase
  /-- Raised by a method body in its own words. -/
  | custom (text : String)

/-- The two ways of writing to a table. -/
inductive WriteKind where
  | insert
  | update
  deriving DecidableEq

/-- Causes of failure (`ModelError`). -/
inductive Error where
  | unknownModel (model : String)
  | unknownField (model field : String)
  | unknownMethod (model method : String)
  | invalidSignature (model method : String) (fault : SignatureFault)
  | signatureMismatch (model method expected received : String)
  | alreadyBootstrapped (name : String)
  | emptyPayload (kind : WriteKind)
  | unknownAdapter (driver : String)
  | duplicateModel (model : String)
  | invalidModel (fault : ModelFault)
  | definition (fault : DefinitionFault)
  | connection (fault : ConnectionFault)
  | view (fault : ViewFault)
  | typeMismatch (fault : TypeFault)
  | invalidExpression (fault : ExpressionFault)
  | noNextLayer (model method : String)
  /-- The database refused a statement. -/
  | execution (query : String) (args : List Value) (cause : String)
  | unexpectedRowCount (query : String) (rows : Nat)
  | missingFile
  /-- Calls are nested deeper than the bound of a run. -/
  | tooDeep

inductive Category where
  | configuration
  | data
  | execution
  | none
  deriving DecidableEq

/-- The class of a cause (`is_configuration`, `is_data`, `is_execution`). -/
def Error.category : Error → Category
  | typeMismatch _ | invalidExpression _ | noNextLayer _ _ => .data
  | execution _ _ _ | unexpectedRowCount _ _ => .execution
  | missingFile | tooDeep => .none
  | _ => .configuration

/-! ## Wording -/

/-- The name of the field that every model has. -/
def idField : String := "id"

def ModelFault.message : ModelFault → String
  | badTable model table => s!"Model '{model}': invalid table name '{table}'"
  | badField model field column => s!"Model '{model}': invalid field '{field}' (column '{column}')"
  | duplicateField model field => s!"Model '{model}': duplicate field '{field}'"
  | duplicateColumn model column => s!"Model '{model}': duplicate column '{column}'"
  | noIdColumn model => s!"Model '{model}' must keep an integer '{idField}' column"
  | tableTaken model table owner =>
    s!"Model '{model}' uses table '{table}' already owned by '{owner}'"
  | unknownTarget model field target =>
    s!"Field '{model}.{field}' references unknown model '{target}'"
  | declaredTwice model => s!"Model '{model}' is declared more than once"
  | implicitField model field =>
    s!"Model '{model}': '{field}' is implicit and cannot be redeclared"
  | relationTarget model field target =>
    s!"Model '{model}': relation '{field}' references unknown model '{target}'"

def TypeFault.message : TypeFault → String
  | scan value type =>
    "Cannot scan " ++ value.typeName ++ " value '" ++ value.plain ++ "' into " ++ type.name
  | argumentCount method expected given => s!"{method} takes {expected} arguments, {given} given"
  | argument method position expected given =>
    s!"{method}: argument {position} should be " ++ expected.name ++ ", got " ++ given.typeName
  | result method expected given =>
    s!"{method} should return " ++ expected.name ++ ", returned " ++ given.typeName
  | conversion expected given => "expected " ++ expected.name ++ ", got " ++ given.typeName
  | missingArgument => "missing method argument"
  | notAnId value => "Cannot scan '" ++ value.plain ++ "' as an id"
  | emptyRow => "Empty row"
  | rowWidth columns fields => s!"Row has {columns} columns, {fields} fields requested"
  | rowCount count => s!"Invalid row count {count}"
  | number spelling => s!"Invalid number: {spelling}"
  | custom text => text

def LineFault.message : LineFault → String
  | noModel => "expected 'model <Name> \x7b'"
  | noBlankAfterModel => "expected whitespace after 'model'"
  | noOpeningBrace => "model declaration must end with '\x7b'"
  | badHeader => "expected 'model <Name> [table <table>] \x7b'"
  | badModelName name => s!"invalid model name '{name}'"
  | badTableName name => s!"invalid table name '{name}'"
  | noColon => "expected field format '<name>: <type> [modifiers]'"
  | badFieldName name => s!"invalid field name '{name}'"
  | noType field => s!"field '{field}' is missing type"
  | unknownType type => s!"unknown type '{type}'"
  | badColumnName name => s!"invalid column name '{name}'"
  | relationDefault field => s!"relation '{field}' cannot have a default"
  | badDefault value type =>
    "bad default: Type mismatch: " ++ (TypeFault.scan value type).message
  | unknownModifier modifier => s!"unknown field modifier '{modifier}'"

def DefinitionFault.message : DefinitionFault → String
  | line number fault => s!"Line {number}: " ++ fault.message
  | unclosed model => s!"Unclosed model '{model}' (missing closing '\x7d')"
  | empty => "Model program is empty; add at least one model"

def SignatureFault.message : SignatureFault → String
  | noReceiver (some kind) => "first parameter must be RecordSet, found " ++ kind.name
  | noReceiver none => "first parameter must be RecordSet, found none"
  | innerReceiver => "RecordSet is only allowed as the first parameter"
  | unitArgument => "() is only allowed as a return kind"
  | recordSetResult => "methods cannot return a RecordSet"

def unknownAdapterMessage (driver : String) : String :=
  s!"No database adapter registered for driver '{driver}'"

def ConnectionFault.message : ConnectionFault → String
  | notUrl url => s!"'{url}' is not a database URL"
  | noSqlitePath => "sqlite URL has no path"
  | scheme name => s!"Unsupported URL scheme '{name}'"
  | noDatabasePart => "Invalid host/database format"
  | noDatabaseName => "Database name is missing"
  | badPort port => s!"Invalid port '{port}'"
  | unknownDriver driver => unknownAdapterMessage driver
  | emptyDatabase => "Database name cannot be empty"
  | emptyHost => "Host cannot be empty"
  | zeroPort => "Port must be > 0"
  | document => "JSON"

def ViewFault.message : ViewFault → String
  | records => "Invalid view records"
  | noView type model => s!"No {type} view for model '{model}'"

def ExpressionFault.message : ExpressionFault → String
  | emptyPath => "Empty field path"
  | malformedPath path => s!"Malformed field path '{path}'"
  | notFollowed segment path model field =>
    s!"Cannot follow '{segment}' in '{path}': '{model}.{field}' is not a relation"
  | notRelation field => s!"Field '{field}' is not a relation"
  | emptyOrder => "Empty ORDER BY entry"
  | orderDirection direction entry => s!"Invalid sort direction '{direction}' in '{entry}'"
  | orderEntry entry => s!"Invalid ORDER BY entry '{entry}'"
  | emptyProjection model => s!"Nothing to select from model '{model}'"
  | listArgument operator =>
    "Operator '" ++ operator.text ++ "' does not take a list of values"
  | noValues operator => "Operator '" ++ operator.text ++ "' needs at least one value"
  | placeholderCount placeholders arguments =>
    s!"Statement has {placeholders} placeholders but {arguments} arguments were given"
  | emptyList => "Cannot expand an empty list of values"
  | unknownOperator text => s!"Unknown operator '{text}'"
  | notSingle model count => s!"Expected a single {model} record, got {count}"
  | unreadable => "sql parser error"
  | trailing token => s!"Unexpected '{token}' after filter expression"
  | fieldExpected found => s!"Expected a field name, found '{found}'"
  | literalExpected found => s!"Expected a literal value, found '{found}'"
  | unsupportedValue value => s!"Unsupported value: {value}"
  | unsupportedOperator operator => s!"Unsupported operator: {operator}"
  | unsupportedFilter expression => s!"Unsupported filter expression: {expression}"
  | cannotNegate value => "Cannot negate " ++ value.plain
  | escapeClause keyword => s!"{keyword} ESCAPE is not supported"
  | noDatabase => "no database"
  | custom text => text

def WriteKind.name : WriteKind → String
  | insert => "insert"
  | update => "update"

/-- The wording of a cause. -/
def Error.message : Error → String
  | unknownModel model => s!"Unknown model '{model}'"
  | unknownField model field => s!"Unknown field '{field}' in model '{model}'"
  | unknownMethod model method => s!"Unknown method '{method}' on model '{model}'"
  | invalidSignature model method fault => s!"Method '{model}.{method}': " ++ fault.message
  | signatureMismatch model method expected received =>
    s!"Method '{model}.{method}': signature does not match, expected {expected}, received {received}"
  | alreadyBootstrapped name => s!"Cannot declare '{name}' after bootstrap"
  | emptyPayload kind => "No data given for " ++ kind.name
  | unknownAdapter driver => unknownAdapterMessage driver
  | duplicateModel model => s!"Model '{model}' is already declared"
  | invalidModel fault => "Invalid model definition: " ++ fault.message
  | definition fault => "Parse error: " ++ fault.message
  | connection fault => "Invalid configuration: " ++ fault.message
  | view fault => "View error: " ++ fault.message
  | typeMismatch fault => "Type mismatch: " ++ fault.message
  | invalidExpression fault => "Invalid expression: " ++ fault.message
  | noNextLayer model method => s!"Method '{model}.{method}' has no layer below the current one"
  | execution query args cause =>
    s!"Error while executing query '{query}' with args [" ++ argumentsText args ++ s!"]: {cause}"
  | unexpectedRowCount query rows => s!"Query '{query}' returned {rows} rows, expected exactly one"
  | missingFile => "I/O error: No such file or directory (os error 2)"
  | tooDeep => "Calls are nested too deep"

/-- Outcome of an operation that can fail. -/
abbrev Result (α : Type) := Except Error α

/-- A check that either passes or fails with a cause. -/
def check (condition : Bool) (cause : Error) : Result Unit :=
  if condition then .ok () else .error cause

end RecordModel
