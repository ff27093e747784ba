import RecordModel.Catalog.Order
import RecordModel.Sql.Dialect

/-!
# Schema statements

The statements that create a model's table, add a column to it and create an index on it.
-/
namespace RecordModel

open RecordModel.Text RecordModel.Sql

/-- A change of a schema. -/
inductive Change where
  | createTable (model : Model)
  | addColumn (model : Model) (field : Field)
  | createIndex (model : Model) (field : Field)

/-- The name of the index on a field (`index_name`). -/
def indexName (m : Model) (f : Field) : String := m.table ++ "_" ++ f.column ++ "_index"

/-- A column and its definition. -/
def columnText (d : Dialect) (f : Field) : String := f.column ++ " " ++ d.columnDefinition f

/-- The statement of a change (`create_table_sql`, `add_column_sql`, `create_index_sql`). -/
def Change.text (d : Dialect) : Change → String
  | createTable m =>
    "CREATE TABLE " ++ quoteName m.table ++ " (" ++ join ", " (m.fields.map (columnText d)) ++ ")"
  | addColumn m f => "ALTER TABLE " ++ quoteName m.table ++ " ADD COLUMN " ++ columnText d f
  | createIndex m f =>
    "CREATE INDEX " ++ indexName m f ++ " ON " ++ quoteName m.table ++ " (" ++ f.column ++ ")"

/-- The statements that create the tables of all models, relation targets first
(`create_tables_sql`). -/
def createTables (d : Dialect) (c : Catalog) : Result (List String) := do
  return (← c.dependencyOrder).map fun m => (Change.createTable m).text d

end RecordModel
