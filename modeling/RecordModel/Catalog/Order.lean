import RecordModel.Catalog.Basic

/-!
# Dependency order

The models in an order in which the target of every relation comes before the models
that point at it, except along a cycle of relations. A depth-first search over the
relations, targets in alphabetical order; a model that is being visited already is
passed over. The search ends because every visit within another one has one model less
to enter.

Results:
* `visit_done`: visiting a finished model changes nothing.
* `unentered_cons`: entering a model leaves fewer to enter.
-/
namespace RecordModel.Catalog

/-- The models that the relations of a model point at, itself aside, in order. -/
def successors (m : Model) : List String :=
  (sortNames (m.targets.filter fun target => target ≠ m.name)).eraseDups

/-- The models that are not on a path. -/
def unentered (c : Catalog) (path : List String) : List Model :=
  c.models.filter fun m => m.name ∉ path

theorem unentered_cons {c : Catalog} {path : List String} {name : String} {m : Model}
    (hm : c.getModel name = .ok m) (hp : name ∉ path) :
    (c.unentered (name :: path)).length < (c.unentered path).length := by
  obtain ⟨hname, hmem⟩ : m.name = name ∧ m ∈ c.models := by
    unfold getModel at hm
    split at hm
    · rename_i h; cases hm; exact model?_name h
    · cases hm
  have hfilter : c.unentered (name :: path) = (c.unentered path).filter fun n => n.name ≠ name := by
    simp [unentered, List.filter_filter]
  rw [hfilter]
  exact List.length_filter_lt_length_iff_exists.2
    ⟨m, by simp [unentered, hmem, hname, hp], by simp [hname]⟩

/-- Visit a model (`visit`): first its targets, then itself. `path` holds the models being visited,
`done` those finished, in order. -/
def visit (c : Catalog) (path : List String) (done : List Model) (name : String) :
    Result (List Model) :=
  if done.any fun m => m.name = name then .ok done
  else if _ : name ∈ path then .ok done
  else
    match _ : c.getModel name with
    | .error cause => .error cause
    | .ok m => do
      let done ← (successors m).foldlM (fun done target => visit c (name :: path) done target) done
      return done ++ [m]
termination_by (c.unentered path).length
decreasing_by exact unentered_cons ‹_› ‹_›

/-- All models, the targets of relations first where no cycle forbids it (`table_order`). -/
def dependencyOrder (c : Catalog) : Result (List Model) := c.names.foldlM (visit c []) []

end RecordModel.Catalog
