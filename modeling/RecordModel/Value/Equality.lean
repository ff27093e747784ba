import RecordModel.Value.Basic

/-!
# Equality of values

An integer and a float are equal when they denote the same 64-bit integer, `not a
number` equals itself, and lists are equal item by item. `imprint` is what a value feeds
to a hasher.

Results:
* `imprint_integer_float`: a whole float feeds the same data as its integer.
* `distinct_length_le`: telling values apart never adds one.
-/
namespace RecordModel

open RecordModel.Number RecordModel.Calendar

/-- One piece of the data fed to a hasher. -/
inductive Imprint where
  | tag (n : Nat)
  | integer (i : Int64)
  | float (f : Binary64)
  | text (s : String)
  | boolean (b : Bool)
  | date (d : Date)
  | dateTime (t : DateTime)
  | length (n : Nat)
  deriving DecidableEq

namespace Value

mutual
/-- Equality of values (`eq`). -/
def same : Value → Value → Bool
  | null, null => true
  | integer a, integer b => a == b
  | float a, float b => a.same b
  | text a, text b => a == b
  | boolean a, boolean b => a == b
  | date a, date b => decide (a = b)
  | dateTime a, dateTime b => decide (a = b)
  | list a, list b => sameAll a b
  | integer a, float b => decide ((integer a).toInt64? = (float b).toInt64?)
  | float a, integer b => decide ((float a).toInt64? = (integer b).toInt64?)
  | _, _ => false

def sameAll : List Value → List Value → Bool
  | [], [] => true
  | a :: as, b :: bs => same a b && sameAll as bs
  | _, _ => false
end

mutual
/-- What a value feeds to a hasher: a whole number of 64 bits as an integer, whichever
of the two number types it has (`hash`). -/
def imprint : Value → List Imprint
  | null => [.tag 0]
  | integer i => [.tag 1, .integer i]
  | float f =>
    match (float f).toInt64? with
    | some i => [.tag 1, .integer i]
    | none => [.tag 2, .float f]
  | text s => [.tag 3, .text s]
  | boolean b => [.tag 4, .boolean b]
  | date d => [.tag 5, .date d]
  | dateTime t => [.tag 6, .dateTime t]
  | list items => .tag 7 :: .length items.length :: imprintAll items

def imprintAll : List Value → List Imprint
  | [] => []
  | item :: items => imprint item ++ imprintAll items
end

/-- Is the value in the collection? Membership goes by imprint first. -/
def isIn (v : Value) (seen : List Value) : Bool :=
  seen.any fun w => decide (v.imprint = w.imprint) && v.same w

/-- The values without repetitions, first occurrences kept. -/
def distinct (vs : List Value) : List Value :=
  vs.foldl (fun seen v => if v.isIn seen then seen else seen ++ [v]) []

theorem imprint_integer_float {f : Binary64} {i : Int64} (h : (float f).toInt64? = some i) :
    (float f).imprint = (integer i).imprint := by
  simp [imprint, h]

theorem distinct_length_le (vs : List Value) : (distinct vs).length ≤ vs.length := by
  have key : ∀ (vs seen : List Value),
      (vs.foldl (fun seen v => if v.isIn seen then seen else seen ++ [v]) seen).length
        ≤ seen.length + vs.length := by
    intro vs
    induction vs with
    | nil => simp
    | cons v vs ih =>
      intro seen
      rw [List.foldl_cons]
      refine Nat.le_trans (ih _) ?_
      split
      · simp
      · simp
        omega
  simpa [distinct] using key vs []

end Value

end RecordModel
