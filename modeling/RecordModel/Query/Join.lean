import RecordModel.Catalog.Basic
import RecordModel.Filter.Path
import RecordModel.Value.Text

/-!
# Joins

A path is walked from the root model through relations to its last field. Each relation
adds a join of its target's table under an alias made of the root table and the columns
walked so far; the join is an inner one exactly where the relation is required. The last
field of a path is never joined, so a relation at the end gives its id.

Results:
* `addJoins_aliases_nodup`: a set of joins holds each alias once.
-/
namespace RecordModel

open RecordModel.Text

/-- How a joined table is tied to the one before it. -/
structure JoinLink where
  /-- The relation is required, so that the join is an inner one. -/
  required : Bool
  /-- Column of the table before that holds the id. -/
  column : String
  /-- Alias of the table before. -/
  previous : String
  deriving DecidableEq

/-- One table of a FROM clause; only the root table has no link (`TableJoin`). -/
structure Join where
  table : String
  aliasName : String
  link : Option JoinLink
  deriving DecidableEq

/-- A column of a table in a FROM clause. -/
structure ColumnRef where
  aliasName : String
  column : String
  deriving DecidableEq

def ColumnRef.text (r : ColumnRef) : String := quoteName r.aliasName ++ "." ++ r.column

namespace Join

def root (m : Model) : Join := ⟨m.table, m.table, none⟩

/-- Stands between the columns of an alias (`ALIAS_SEP`). -/
def separator : String := "__"

def isJoined (j : Join) : Bool := j.link.isSome

def text (j : Join) : String :=
  match j.link with
  | none => quoteName j.table
  | some link =>
    (if link.required then "INNER JOIN " else "LEFT JOIN ") ++ quoteName j.table ++ " AS "
      ++ quoteName j.aliasName ++ " ON " ++ (ColumnRef.mk link.previous link.column).text ++ " = "
      ++ (ColumnRef.mk j.aliasName idField).text

end Join

/-! ## Paths -/

/-- A path walked to its end: the tables on the way, and the last field (`ResolvedPath`). -/
structure Resolution where
  joins : List Join
  field : Field

/-- The alias of the last table. -/
def lastAlias (joins : List Join) : String := (joins.getLast?.map Join.aliasName).getD ""

def Resolution.column (r : Resolution) : ColumnRef := ⟨lastAlias r.joins, r.field.column⟩

/-- Walk the segments of a path from a model that the last of `joins` stands for. -/
def walk (c : Catalog) (path : Path) (current : Model) (joins : List Join) :
    List String → Result Resolution
  | [] => .error (.invalidExpression .emptyPath)
  | [last] => do return ⟨joins, ← current.getField last⟩
  | segment :: rest => do
    let field ← current.getField segment
    if !field.isRelation then
      .error (.invalidExpression (.notFollowed segment path.text current.name field.name))
    let target ← c.related field
    let previous := lastAlias joins
    let join : Join :=
      ⟨target.table, previous ++ Join.separator ++ field.column,
        some ⟨field.required, field.column, previous⟩⟩
    walk c path target (joins ++ [join]) rest

/-- Walk a path from a root model (`resolve_path`). -/
def resolve (c : Catalog) (root : Model) (path : Path) : Result Resolution :=
  if path.segments.isEmpty then .error (.invalidExpression .emptyPath)
  else if path.segments.any String.isEmpty then
    .error (.invalidExpression (.malformedPath path.text))
  else walk c path root [.root root] path.segments

/-! ## Sets of joins -/

/-- Add joins whose alias is new (`extend`). -/
def addJoins (set : List Join) : List Join → List Join
  | [] => set
  | j :: rest =>
    if set.any fun k => k.aliasName = j.aliasName then addJoins set rest else addJoins (set ++ [j]) rest

/-- Does a FROM clause hold more than the root table? -/
def hasJoins (set : List Join) : Bool := set.any Join.isJoined

/-- The body of a FROM clause. -/
def joinsText (set : List Join) : String := join " " (set.map Join.text)

theorem addJoins_aliases_nodup {set js : List Join} (h : (set.map Join.aliasName).Nodup) :
    ((addJoins set js).map Join.aliasName).Nodup := by
  induction js generalizing set with
  | nil => exact h
  | cons j js ih =>
    rw [addJoins]
    split
    · exact ih h
    · rename_i hn
      apply ih
      rw [List.map_append, List.nodup_append]
      refine ⟨h, by simp, fun a ha b hb => ?_⟩
      simp only [List.map_cons, List.map_nil, List.mem_singleton] at hb
      subst hb
      intro he
      obtain ⟨k, hk, hka⟩ := List.mem_map.1 ha
      exact hn (List.any_eq_true.2 ⟨k, hk, by simp [hka, he]⟩)

end RecordModel
