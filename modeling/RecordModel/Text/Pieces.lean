/-!
# Cutting texts

Cutting at a separator character, at its first or last occurrence, at a marker
text, and into lines. All work on lists of characters; the variants on `String`
convert at both ends.

Results:
* `splitFirst_eq_some`: the two parts around the first separator give the text
  back, and the first part holds no separator.
* `splitOn_join`: joining the pieces of a text gives the text back.
-/
namespace RecordModel.Text

/-- Cut at the first `sep`; `none` when there is none. -/
def splitFirst (sep : Char) : List Char → Option (List Char × List Char)
  | [] => none
  | c :: rest =>
    if c = sep then some ([], rest)
    else (splitFirst sep rest).map fun (head, tail) => (c :: head, tail)

/-- Cut at the last `sep`; `none` when there is none. -/
def splitLast (sep : Char) (cs : List Char) : Option (List Char × List Char) :=
  (splitFirst sep cs.reverse).map fun (tail, head) => (head.reverse, tail.reverse)

/-- Cut at every `sep`: one piece more than there are separators. -/
def splitAll (sep : Char) : List Char → List (List Char)
  | [] => [[]]
  | c :: rest =>
    if c = sep then [] :: splitAll sep rest
    else match splitAll sep rest with
      | [] => [[c]]
      | piece :: pieces => (c :: piece) :: pieces

/-- The text after `start`, when the text begins with it. -/
def after (start : List Char) : List Char → Option (List Char) := fun cs =>
  match start, cs with
  | [], cs => some cs
  | _ :: _, [] => none
  | s :: start, c :: cs => if s = c then after start cs else none

/-- Cut at the first occurrence of the text `mark`. -/
def splitMark (mark : List Char) : List Char → Option (List Char × List Char)
  | [] => if mark.isEmpty then some ([], []) else none
  | c :: rest =>
    match after mark (c :: rest) with
    | some tail => some ([], tail)
    | none => (splitMark mark rest).map fun (head, tail) => (c :: head, tail)

/-! ## Lines -/

/-- Drop one carriage return at the end of a line. -/
def dropReturn (line : List Char) : List Char :=
  match line.reverse with
  | '\r' :: rest => rest.reverse
  | _ => line

/-- Lines end with a line feed, or a carriage return and a line feed; a line feed at
the very end starts no further line. -/
def lines (cs : List Char) : List (List Char) :=
  let pieces := splitAll '\n' cs
  let closed := pieces.dropLast.map dropReturn
  match pieces.getLast? with
  | none | some [] => closed
  | some last => closed ++ [last]

/-! ## On strings -/

def splitAllText (sep : Char) (s : String) : List String :=
  (splitAll sep s.toList).map String.ofList

def splitFirstText (sep : Char) (s : String) : Option (String × String) :=
  (splitFirst sep s.toList).map fun (a, b) => (String.ofList a, String.ofList b)

def splitLastText (sep : Char) (s : String) : Option (String × String) :=
  (splitLast sep s.toList).map fun (a, b) => (String.ofList a, String.ofList b)

def splitMarkText (mark s : String) : Option (String × String) :=
  (splitMark mark.toList s.toList).map fun (a, b) => (String.ofList a, String.ofList b)

def startsWith (start s : String) : Bool := (after start.toList s.toList).isSome

/-- Does `part` occur in `s`? -/
def contains (part s : String) : Bool := (splitMark part.toList s.toList).isSome

/-- Items with `sep` between neighbours. -/
def join (sep : String) : List String → String
  | [] => ""
  | [item] => item
  | item :: rest => item ++ sep ++ join sep rest

/-! ## What cutting keeps -/

theorem splitFirst_eq_some {sep : Char} {cs head tail : List Char} :
    splitFirst sep cs = some (head, tail) ↔ cs = head ++ sep :: tail ∧ sep ∉ head := by
  induction cs generalizing head with
  | nil => simp [splitFirst]
  | cons c rest ih =>
    rw [splitFirst]
    split
    · subst c
      constructor
      · rintro ⟨rfl, rfl⟩; simp
      · rintro ⟨h, hm⟩
        cases head with
        | nil => simp_all
        | cons d head => simp_all
    · rename_i hc
      simp only [Option.map_eq_some_iff, Prod.exists, Prod.mk.injEq]
      constructor
      · rintro ⟨a, b, hab, rfl, rfl⟩
        obtain ⟨rfl, hn⟩ := ih.1 hab
        exact ⟨by simp, by simp [hn, Ne.symm hc]⟩
      · rintro ⟨h, hm⟩
        cases head with
        | nil => simp_all
        | cons d head =>
          simp only [List.cons_append, List.cons.injEq] at h
          obtain ⟨rfl, h⟩ := h
          exact ⟨head, tail, ih.2 ⟨h, fun hh => hm (by simp [hh])⟩, rfl, rfl⟩

theorem splitFirst_eq_none {sep : Char} {cs : List Char} :
    splitFirst sep cs = none ↔ sep ∉ cs := by
  induction cs with
  | nil => simp [splitFirst]
  | cons c rest ih =>
    rw [splitFirst]
    split
    · subst c; simp
    · rename_i hc
      simp [ih, Ne.symm hc]

theorem splitAll_ne_nil (sep : Char) (cs : List Char) : splitAll sep cs ≠ [] := by
  cases cs with
  | nil => simp [splitAll]
  | cons c rest =>
    rw [splitAll]
    split
    · simp
    · split <;> simp

/-- No piece holds the separator. -/
theorem not_mem_of_mem_splitAll {sep : Char} {cs piece : List Char}
    (h : piece ∈ splitAll sep cs) : sep ∉ piece := by
  induction cs generalizing piece with
  | nil => simp_all [splitAll]
  | cons c rest ih =>
    rw [splitAll] at h
    split at h
    · rcases List.mem_cons.1 h with rfl | h
      · simp
      · exact ih h
    · rename_i hc
      split at h
      · rename_i hs; exact absurd hs (splitAll_ne_nil sep rest)
      · rename_i p ps hs
        rcases List.mem_cons.1 h with rfl | h
        · simp [ih (hs ▸ List.mem_cons_self), Ne.symm hc]
        · exact ih (hs ▸ List.mem_cons_of_mem _ h)

/-- A text without the separator is its own only piece. -/
theorem splitAll_of_not_mem {sep : Char} {cs : List Char} (h : sep ∉ cs) :
    splitAll sep cs = [cs] := by
  induction cs with
  | nil => rfl
  | cons c rest ih =>
    have hc : c ≠ sep := fun e => h (by simp [e])
    rw [splitAll, if_neg hc, ih fun hh => h (List.mem_cons_of_mem _ hh)]

/-- Joining the pieces with the separator gives the text back. -/
theorem splitOn_join (sep : Char) (cs : List Char) :
    [sep].intercalate (splitAll sep cs) = cs := by
  induction cs with
  | nil => rfl
  | cons c rest ih =>
    rw [splitAll]
    split
    · subst c
      cases hs : splitAll sep rest with
      | nil => exact absurd hs (splitAll_ne_nil sep rest)
      | cons p ps => rw [hs] at ih; simp [List.intercalate_cons_cons, ih]
    · cases hs : splitAll sep rest with
      | nil => exact absurd hs (splitAll_ne_nil sep rest)
      | cons p ps =>
        rw [hs] at ih
        cases ps with
        | nil => simp_all [List.intercalate]
        | cons q qs => simp_all [List.intercalate_cons_cons]

end RecordModel.Text
