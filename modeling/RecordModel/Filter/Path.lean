import RecordModel.Text.Blank
import RecordModel.Text.Pieces

/-!
# Field paths

A dotted sequence of field names that may cross relations.

Results:
* `Path.ofText_length_pos`: a path read from a text has a segment.
-/
namespace RecordModel

open RecordModel.Text

/-- The names on the way to a field (`FieldPath`). -/
structure Path where
  segments : List String
  deriving DecidableEq

namespace Path

/-- Cut at every point; blanks around a segment do not belong to it (`parse`). -/
def ofText (s : String) : Path :=
  ⟨(splitAll '.' s.toList).map fun segment => String.ofList (trimChars segment)⟩

def text (p : Path) : String := join "." p.segments

theorem ofText_length_pos (s : String) : 0 < (ofText s).segments.length := by
  have := splitAll_ne_nil '.' s.toList
  simp only [ofText, List.length_map]
  exact List.length_pos_iff.2 this

end Path

end RecordModel
