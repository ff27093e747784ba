/-!
# Blanks

The white space that readers skip: the twenty-five characters of Unicode's
`White_Space` property. Trimming takes them off both ends of a text, and `words`
cuts a text at every run of them.

Results:
* `trimChars_append_blank`, `trimChars_of_edges`: trimming removes blanks at the
  ends and nothing else.
-/
namespace RecordModel.Text

/-- Membership in Unicode's `White_Space` property. -/
def isBlank (c : Char) : Bool :=
  let n := c.toNat
  (9 ≤ n && n ≤ 13) || n == 0x20 || n == 0x85 || n == 0xA0 || n == 0x1680 ||
    (0x2000 ≤ n && n ≤ 0x200A) || n == 0x2028 || n == 0x2029 || n == 0x202F ||
    n == 0x205F || n == 0x3000

/-- The blanks among ASCII: tab, line feed, form feed, carriage return and space. -/
def isAsciiBlank (c : Char) : Bool :=
  c == '\t' || c == '\n' || c == '\x0c' || c == '\r' || c == ' '

/-! ## Trimming -/

def trimStart (cs : List Char) : List Char := cs.dropWhile isBlank

def trimEnd (cs : List Char) : List Char := (cs.reverse.dropWhile isBlank).reverse

def trimChars (cs : List Char) : List Char := trimEnd (trimStart cs)

/-- A text without the blanks at its ends. -/
def trim (s : String) : String := String.ofList (trimChars s.toList)

/-! ## Words -/

/-- Cut at every run of blanks; `word` holds the current word, last character first. -/
def wordsFrom (word : List Char) : List Char → List (List Char)
  | [] => if word.isEmpty then [] else [word.reverse]
  | c :: rest =>
    if isBlank c then
      if word.isEmpty then wordsFrom [] rest else word.reverse :: wordsFrom [] rest
    else wordsFrom (c :: word) rest

/-- The maximal runs of characters that are not blank, in order. -/
def words (s : String) : List String := (wordsFrom [] s.toList).map String.ofList

/-! ## What trimming keeps -/

theorem trimStart_of_head {c : Char} {cs : List Char} (h : isBlank c = false) :
    trimStart (c :: cs) = c :: cs := by simp [trimStart, h]

theorem trimEnd_append_blank {cs : List Char} {c : Char} (h : isBlank c = true) :
    trimEnd (cs ++ [c]) = trimEnd cs := by simp [trimEnd, h]

theorem trimEnd_append_solid {cs : List Char} {c : Char} (h : isBlank c = false) :
    trimEnd (cs ++ [c]) = cs ++ [c] := by simp [trimEnd, h]

theorem trimChars_append_blank {cs : List Char} {c : Char} (h : isBlank c = true)
    (hs : trimStart cs ≠ []) : trimChars (cs ++ [c]) = trimChars cs := by
  have key : trimStart (cs ++ [c]) = trimStart cs ++ [c] := by
    clear h
    induction cs with
    | nil => simp [trimStart] at hs
    | cons d cs ih =>
      by_cases hd : isBlank d = true
      · simp only [trimStart, List.cons_append, List.dropWhile_cons, hd, if_true] at hs ⊢
        exact ih hs
      · simp [trimStart, hd]
  rw [trimChars, key, trimEnd_append_blank h, trimChars]

/-- A text that starts and ends with a solid character is left alone. -/
theorem trimChars_of_edges {c d : Char} {cs : List Char} (hc : isBlank c = false)
    (hd : isBlank d = false) : trimChars (c :: (cs ++ [d])) = c :: (cs ++ [d]) := by
  rw [trimChars, trimStart_of_head hc, ← List.cons_append, trimEnd_append_solid hd]

end RecordModel.Text
