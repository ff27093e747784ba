import RecordModel.Proofs.Sql.Grammar
import RecordModel.Proofs.Sql.Lexemes

/-!
# Phrases of a condition

The lexemes of a condition are cut into comparisons, connectives and parentheses. A comparison
starts where an operand may stand, and goes on up to AND, to OR, or to a parenthesis that closes
one in front of it. So NOT is a connective in front of an operand and a part of the comparison
inside of one, parentheses around a list belong to the comparison, and what stands behind a point
is a column, whatever it is called.

`Cuts ls ps` says that lexemes are cut into phrases in front of whatever may follow an operand.

Results:
* `Continues.append`, `Continues.group`: lexemes that go on with a comparison.
* `Cuts.comparison`, `Cuts.not`, `Cuts.group`, `Cuts.and`, `Cuts.or`: the phrases of a condition are
  those of its parts.
-/
namespace RecordModel.Sql

/-- A part of a condition. -/
inductive Phrase where
  | symbol (s : SqlSymbol)
  /-- What is compared, and how. -/
  | comparison (ls : List Lexeme)
  deriving DecidableEq

/-- A lexeme in front of the rest of a comparison. -/
def pushLexeme (l : Lexeme) (p : List Lexeme × List Phrase) : List Lexeme × List Phrase :=
  (l :: p.1, p.2)

/-- The phrases behind an operand; lexemes that do not belong to any make one of their own. -/
def flushLexemes : List Lexeme × List Phrase → List Phrase
  | ([], ps) => ps
  | (ls, ps) => .comparison ls :: ps

/-- Cut a condition, from a place in front of an operand, or inside a comparison or behind an
operand with the given number of open parentheses: the rest of the comparison, and the phrases
behind it. -/
def cutPhrases : Option Nat → List Lexeme → List Lexeme × List Phrase
  | _, [] => ([], [])
  | none, l :: rest =>
    if l = .mark '(' then ([], .symbol .opening :: (cutPhrases none rest).2)
    else if l = .word "NOT" then ([], .symbol .not :: (cutPhrases none rest).2)
    else ([], .comparison (l :: (cutPhrases (some 0) rest).1) :: (cutPhrases (some 0) rest).2)
  | some 0, .mark '.' :: l :: rest =>
    pushLexeme (.mark '.') (pushLexeme l (cutPhrases (some 0) rest))
  | some 0, l :: rest =>
    if l = .word "AND" then ([], .symbol .and :: (cutPhrases none rest).2)
    else if l = .word "OR" then ([], .symbol .or :: (cutPhrases none rest).2)
    else if l = .mark ')' then ([], .symbol .closing :: flushLexemes (cutPhrases (some 0) rest))
    else if l = .mark '(' then pushLexeme l (cutPhrases (some 1) rest)
    else pushLexeme l (cutPhrases (some 0) rest)
  | some (depth + 1), l :: rest =>
    if l = .mark '(' then pushLexeme l (cutPhrases (some (depth + 2)) rest)
    else if l = .mark ')' then pushLexeme l (cutPhrases (some depth) rest)
    else pushLexeme l (cutPhrases (some (depth + 1)) rest)

/-- The phrases of a condition. -/
def phrases (ls : List Lexeme) : List Phrase := (cutPhrases none ls).2

/-! ## Comparisons -/

/-- Lexemes that go on with a comparison, whatever follows. -/
def Continues (ls : List Lexeme) : Prop :=
  ∀ rest, cutPhrases (some 0) (ls ++ rest) =
    (ls ++ (cutPhrases (some 0) rest).1, (cutPhrases (some 0) rest).2)

/-- No connective, parenthesis or point. -/
def Lexeme.isInner (l : Lexeme) : Bool :=
  !List.elem l [.word "AND", .word "OR", .mark '(', .mark ')', .mark '.']

namespace Continues

variable {ls ms : List Lexeme}

theorem nil : Continues [] := fun _ => rfl

theorem append (h : Continues ls) (h' : Continues ms) : Continues (ls ++ ms) := by
  intro rest
  rw [List.append_assoc, h, h', List.append_assoc]

theorem inner (h : ∀ l ∈ ls, l.isInner = true) : Continues ls := by
  induction ls with
  | nil => exact nil
  | cons l ls ih =>
    obtain ⟨hl, hls⟩ := List.forall_mem_cons.1 h
    simp only [Lexeme.isInner, List.elem_eq_contains, List.contains_eq_mem, List.mem_cons,
      List.not_mem_nil, or_false, Bool.not_eq_true', decide_eq_false_iff_not, not_or] at hl
    intro rest
    rw [List.cons_append, cutPhrases, if_neg hl.1, if_neg hl.2.1, if_neg hl.2.2.2.1,
      if_neg hl.2.2.1, ih hls rest]
    · rfl
    · rintro l' rest' rfl
      exact absurd rfl hl.2.2.2.2

/-- Behind a point stands a column. -/
theorem column (l : Lexeme) : Continues [.mark '.', l] := fun _ => rfl

/-- Parentheses around what holds none. -/
theorem group (h : ∀ l ∈ ls, l ≠ .mark '(' ∧ l ≠ .mark ')') :
    Continues (.mark '(' :: ls ++ [.mark ')']) := by
  have hinside : ∀ ms : List Lexeme, (∀ l ∈ ms, l ≠ .mark '(' ∧ l ≠ .mark ')') → ∀ rest,
      cutPhrases (some 1) (ms ++ .mark ')' :: rest) =
        (ms ++ .mark ')' :: (cutPhrases (some 0) rest).1, (cutPhrases (some 0) rest).2) := by
    intro ms hms rest
    induction ms with
    | nil => rfl
    | cons m ms ih =>
      obtain ⟨hm, hms⟩ := List.forall_mem_cons.1 hms
      rw [List.cons_append, cutPhrases, if_neg hm.1, if_neg hm.2, ih hms]
      rfl
  intro rest
  have hopen : cutPhrases (some 0) (.mark '(' :: (ls ++ .mark ')' :: rest)) =
      pushLexeme (.mark '(') (cutPhrases (some 1) (ls ++ .mark ')' :: rest)) := rfl
  simp only [List.cons_append, List.append_assoc, List.nil_append]
  rw [hopen, hinside ls h]
  rfl

end Continues

/-- A comparison: lexemes that start where an operand may stand, and go on. -/
def IsComparison (ls : List Lexeme) : Prop :=
  ∃ l rest, ls = l :: rest ∧ l ≠ .mark '(' ∧ l ≠ .word "NOT" ∧ Continues rest

/-! ## Operands and what follows them -/

/-- What no comparison goes on with: the end, a connective or a closing parenthesis. -/
def Stops (rest : List Lexeme) : Prop := (cutPhrases (some 0) rest).1 = []

/-- Lexemes that are cut into the phrases, in front of whatever may follow an operand. -/
def Cuts (ls : List Lexeme) (ps : List Phrase) : Prop :=
  ∀ rest, Stops rest → cutPhrases none (ls ++ rest) = ([], ps ++ (cutPhrases (some 0) rest).2)

theorem flushLexemes_of_stops {rest : List Lexeme} (h : Stops rest) :
    flushLexemes (cutPhrases (some 0) rest) = (cutPhrases (some 0) rest).2 := by
  unfold Stops at h
  cases hcut : cutPhrases (some 0) rest with
  | mk ls ps =>
    rw [hcut] at h
    cases h
    rfl

namespace Cuts

variable {ls ms : List Lexeme} {ps qs : List Phrase}

theorem phrases_eq (h : Cuts ls ps) : phrases ls = ps := by
  have hcut := h [] rfl
  rw [List.append_nil] at hcut
  rw [phrases, hcut]
  exact List.append_nil ps

theorem comparison (h : IsComparison ls) : Cuts ls [.comparison ls] := by
  obtain ⟨l, ls, rfl, hopening, hnot, hrest⟩ := h
  intro rest hstops
  unfold Stops at hstops
  rw [List.cons_append, cutPhrases, if_neg hopening, if_neg hnot, hrest, hstops, List.append_nil]
  rfl

theorem not (h : Cuts ls ps) : Cuts (.word "NOT" :: ls) (.symbol .not :: ps) := by
  intro rest hstops
  rw [List.cons_append, cutPhrases, if_neg (by simp), if_pos rfl, h rest hstops]
  rfl

theorem group (h : Cuts ls ps) :
    Cuts (.mark '(' :: ls ++ [.mark ')']) (.symbol .opening :: ps ++ [.symbol .closing]) := by
  intro rest hstops
  have hclose : cutPhrases (some 0) (.mark ')' :: rest) =
      ([], .symbol .closing :: (cutPhrases (some 0) rest).2) := by
    rw [← flushLexemes_of_stops hstops]
    rfl
  have hinside := h (.mark ')' :: rest) (by rw [Stops, hclose])
  simp only [List.cons_append, List.append_assoc, List.nil_append]
  rw [cutPhrases, if_pos rfl, hinside, hclose]

theorem and (h : Cuts ls ps) (h' : Cuts ms qs) :
    Cuts (ls ++ .word "AND" :: ms) (ps ++ .symbol .and :: qs) := by
  intro rest hstops
  have hand : cutPhrases (some 0) (.word "AND" :: (ms ++ rest)) =
      ([], .symbol .and :: (cutPhrases none (ms ++ rest)).2) := rfl
  rw [List.append_assoc, List.cons_append, h _ (by rw [Stops, hand]), hand, h' rest hstops,
    List.append_assoc]
  rfl

theorem or (h : Cuts ls ps) (h' : Cuts ms qs) :
    Cuts (ls ++ .word "OR" :: ms) (ps ++ .symbol .or :: qs) := by
  intro rest hstops
  have hor : cutPhrases (some 0) (.word "OR" :: (ms ++ rest)) =
      ([], .symbol .or :: (cutPhrases none (ms ++ rest)).2) := rfl
  rw [List.append_assoc, List.cons_append, h _ (by rw [Stops, hor]), hor, h' rest hstops,
    List.append_assoc]
  rfl

end Cuts

example : phrases (lexemes "NOT a NOT IN (?, ?) OR b = ?") =
    [.symbol .not, .comparison (lexemes "a NOT IN (?, ?)"), .symbol .or,
      .comparison (lexemes "b = ?")] := by
  decide +kernel

end RecordModel.Sql
