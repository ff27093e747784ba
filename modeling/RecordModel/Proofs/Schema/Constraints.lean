import Mathlib.Data.List.TakeWhile
import RecordModel.Proofs.Catalog.Storage
import RecordModel.Proofs.Value.Literal

/-!
# Constraints of a column

SQLite takes a column into a table that exists only if its definition has no PRIMARY KEY and no
UNIQUE, and has NOT NULL only with a default that is not NULL. The constraints of a definition
are read off its lexemes. The definition of a field is the same in a new table and in an old one,
so that they depend on the field alone: a column that is unique, or required without a
default, is one that the database refuses to add.

Results:
* `readsNull_literal`: no constraint is part of a literal, and which literals are NULL.
* `constraints_columnDefinition`: the constraints in the definition of a column.
* `legal_iff_addable`: which columns the rules allow.
-/
namespace RecordModel

open RecordModel.Text RecordModel.Number RecordModel.Sql

/-! ## Constraints -/

namespace Sql

/-- A constraint in the definition of a column; the lexemes of a default are its expression. -/
inductive Constraint where
  | primaryKey
  | notNull
  | unique
  | default (expression : List Lexeme)
  deriving DecidableEq

/-- A bare word, which means the same in any case. -/
def Lexeme.keyword : Lexeme → String
  | word w => foldName w
  | name _ | text _ | mark _ => ""

/-- The words that constraints start with. -/
def constraintWords : List String := ["primary", "not", "unique", "default"]

def Lexeme.startsConstraint (l : Lexeme) : Bool := l.keyword ∈ constraintWords

/-- The constraints of a definition. What starts none is passed over: the type, the rest of a
constraint, and the expression of a default. -/
def constraints : List Lexeme → List Constraint
  | [] => []
  | l :: rest =>
    if l.keyword = "primary" then .primaryKey :: constraints rest
    else if l.keyword = "not" then .notNull :: constraints rest
    else if l.keyword = "unique" then .unique :: constraints rest
    else if l.keyword = "default" then
      .default (rest.takeWhile fun l => !l.startsConstraint) :: constraints rest
    else constraints rest

/-- The expression is NULL, between any parentheses. -/
def isNullExpression (ls : List Lexeme) : Bool :=
  (ls.filter fun l => l ∉ [.mark '(', .mark ')']).map Lexeme.keyword = ["null"]

/-- The constraints that a column may have that is added to a table. -/
structure Legal (cs : List Constraint) : Prop where
  primaryKey : .primaryKey ∉ cs
  unique : .unique ∉ cs
  notNull : .notNull ∈ cs → ∃ ls, .default ls ∈ cs ∧ isNullExpression ls = false

/-- The constraints of the column that a statement adds. -/
def addition? (sql : String) : Option (List Constraint) :=
  match readDdl sql with
  | some (.addColumn _ _) => some (constraints ((lexemes sql).drop 6))
  | _ => none

theorem exists_keyword_of_isNullExpression {ls : List Lexeme} (h : isNullExpression ls = true) :
    ∃ l ∈ ls, l.keyword = "null" := by
  have hmem : "null" ∈ (ls.filter fun l => l ∉ [.mark '(', .mark ')']).map Lexeme.keyword := by
    rw [of_decide_eq_true h]
    exact List.mem_singleton_self _
  obtain ⟨l, hl, hw⟩ := List.mem_map.1 hmem
  exact ⟨l, List.mem_of_mem_filter hl, hw⟩

/-- Nothing stands beside NULL but parentheses. -/
theorem isNullExpression_eq_false {ls : List Lexeme} {l : Lexeme} (hl : l ∈ ls)
    (hmark : l ∉ [.mark '(', .mark ')']) (hword : l.keyword ≠ "null") :
    isNullExpression ls = false := by
  rw [isNullExpression, decide_eq_false_iff_not]
  intro hnull
  have hmem : l.keyword ∈ ["null"] := by
    rw [← hnull]
    exact List.mem_map_of_mem (List.mem_filter.2 ⟨hl, decide_eq_true hmark⟩)
  exact hword (List.mem_singleton.1 hmem)

theorem isNullExpression_parentheses (ls : List Lexeme) :
    isNullExpression (.mark '(' :: (ls ++ [.mark ')'])) = isNullExpression ls := by
  simp [isNullExpression]

theorem constraints_append {ls : List Lexeme} (h : ∀ l ∈ ls, l.keyword ≠ "default")
    (ms : List Lexeme) : constraints (ls ++ ms) = constraints ls ++ constraints ms := by
  induction ls with
  | nil => rfl
  | cons l ls ih =>
    have hrest := ih fun m hm => h m (List.mem_cons_of_mem _ hm)
    have hl := h l List.mem_cons_self
    simp only [List.cons_append, constraints, hl, if_false, hrest]
    split_ifs <;> rfl

theorem constraints_of_forall {ls : List Lexeme} (h : ∀ l ∈ ls, l.startsConstraint = false) :
    constraints ls = [] := by
  induction ls with
  | nil => rfl
  | cons l ls ih =>
    have hl := h l List.mem_cons_self
    simp only [Lexeme.startsConstraint, constraintWords, List.mem_cons, List.not_mem_nil, or_false,
      decide_eq_false_iff_not, not_or] at hl
    obtain ⟨hprimary, hnot, hunique, hdefault⟩ := hl
    rw [constraints, if_neg hprimary, if_neg hnot, if_neg hunique, if_neg hdefault]
    exact ih fun m hm => h m (List.mem_cons_of_mem _ hm)

/-- A default that no constraint stands behind. -/
theorem constraints_default {ls : List Lexeme} (h : ∀ l ∈ ls, l.startsConstraint = false) :
    constraints (.word "DEFAULT" :: ls) = [.default ls] := by
  have hall : ls.takeWhile (fun l => !l.startsConstraint) = ls :=
    List.takeWhile_eq_self_iff.2 fun l hl => by simp [h l hl]
  have hword : (Lexeme.word "DEFAULT").keyword = "default" := by decide
  simp [constraints, hword, hall, constraints_of_forall h]

end Sql

/-! ## Literals -/

/-- The value is NULL, or a list of nothing else, which is written as NULL in parentheses. -/
inductive Value.DenotesNull : Value → Prop where
  | null : DenotesNull .null
  | listed {v : Value} : DenotesNull v → DenotesNull (.list [v])

theorem forall_isAlpha_eq_false_iff {s : String} :
    (∀ c ∈ s.toList, c.isAlpha = false) ↔ s.toList.any Char.isAlpha = false := by
  simp

/-- A word of a text without letters is no keyword. -/
theorem keyword_of_unlettered {s : String} (h : ∀ c ∈ s.toList, c.isAlpha = false) {l : Lexeme}
    (hl : l ∈ lexemes s) : ∀ c ∈ l.keyword.toList, c.isAlpha = false := by
  cases l with
  | word w =>
    intro c hc
    rw [Lexeme.keyword, foldName, String.toList_ofList] at hc
    obtain ⟨d, hd, rfl⟩ := List.mem_map.1 hc
    have halpha := h d (mem_of_mem_lexemes hl d hd)
    have hupper : d.isUpper = false := (Bool.or_eq_false_iff.1 halpha).1
    rwa [toLower_of_isUpper_eq_false hupper]
  | name s | text s | mark d => simp [Lexeme.keyword]

/-- A literal is read as an expression that no constraint is part of, and that is NULL exactly if
`null`. -/
structure Sql.ReadsNull (null : Prop) (ls : List Lexeme) : Prop where
  free : ∀ l ∈ ls, l.startsConstraint = false
  null_iff : isNullExpression ls = true ↔ null

theorem readsNull_unlettered {s : String} (h : ∀ c ∈ s.toList, c.isAlpha = false) :
    ReadsNull False (lexemes s) := by
  have hkeyword {l : Lexeme} (hl : l ∈ lexemes s) {w : String} (hw : l.keyword = w) :
      ∀ c ∈ w.toList, c.isAlpha = false := hw ▸ keyword_of_unlettered h hl
  refine ⟨fun l hl => ?_, ?_⟩
  · by_contra hstarts
    simp only [Lexeme.startsConstraint, constraintWords, List.mem_cons, List.not_mem_nil, or_false,
      decide_eq_false_iff_not, not_not] at hstarts
    rcases hstarts with hw | hw | hw | hw <;>
      exact absurd (forall_isAlpha_eq_false_iff.1 (hkeyword hl hw)) (by decide)
  · rw [iff_false]
    intro hnull
    obtain ⟨l, hl, hw⟩ := exists_keyword_of_isNullExpression hnull
    exact absurd (forall_isAlpha_eq_false_iff.1 (hkeyword hl hw)) (by decide)

theorem isAlpha_eq_false_of_isDigit {c : Char} (h : c.isDigit = true) : c.isAlpha = false := by
  have hdigit := isDigit_iff.1 h
  rw [← Bool.not_eq_true, isAlpha_iff]
  simp only [IsAsciiDigit, IsAsciiLetter, Char.le_def] at hdigit ⊢
  grind

theorem isAlpha_natText (n : Nat) : ∀ c ∈ (natText n).toList, c.isAlpha = false := fun _ hc =>
  isAlpha_eq_false_of_isDigit (isDigit_of_mem_natText hc)

theorem isAlpha_append {a b : String} (ha : ∀ c ∈ a.toList, c.isAlpha = false)
    (hb : ∀ c ∈ b.toList, c.isAlpha = false) : ∀ c ∈ (a ++ b).toList, c.isAlpha = false := by
  rw [String.toList_append]
  exact fun c hc => (List.mem_append.1 hc).elim (ha c) (hb c)

theorem isAlpha_signText (negative : Bool) :
    ∀ c ∈ (signText negative).toList, c.isAlpha = false := by
  cases negative <;> exact forall_isAlpha_eq_false_iff.2 (by decide)

theorem readsNull_integer (i : Int) : ReadsNull False (lexemes (intText i)) := by
  refine readsNull_unlettered ?_
  rw [toList_intText, ← String.toList_append]
  exact isAlpha_append (isAlpha_signText _) (isAlpha_natText _)

theorem readsNull_float (f : Binary64) : ReadsNull False (lexemes (f.text .plain)) := by
  cases f with
  | nan => exact ⟨by decide, by decide⟩
  | infinity negative => cases negative <;> exact ⟨by decide, by decide⟩
  | finite negative magnitude =>
    refine readsNull_unlettered (isAlpha_append (isAlpha_signText negative) ?_)
    unfold magnitudeText
    split
    · exact forall_isAlpha_eq_false_iff.2 (by decide)
    · exact forall_mem_positionalText (isAlpha_natText _) rfl rfl _ _

theorem readsNull_quoteText (s : String) : ReadsNull False (lexemes (quoteText s)) := by
  rw [(lexes_quoteText s).lexemes]
  exact ⟨by simp [Lexeme.startsConstraint, Lexeme.keyword, constraintWords],
    by simp [isNullExpression, Lexeme.keyword]⟩

theorem readsNull_quoted {s : String} (h : PlainText s.toList) :
    ReadsNull False (lexemes ("'" ++ s ++ "'")) := by
  rw [← h.quoteText_eq]
  exact readsNull_quoteText s

theorem mem_intercalate {α : Type} {sep : List α} {xss : List (List α)} {x : α}
    (h : x ∈ sep.intercalate xss) : x ∈ sep ∨ ∃ xs ∈ xss, x ∈ xs := by
  induction xss with
  | nil => simp at h
  | cons xs xss ih =>
    cases xss with
    | nil =>
      rw [List.intercalate_singleton] at h
      exact .inr ⟨xs, List.mem_cons_self, h⟩
    | cons ys xss =>
      rw [List.intercalate_cons_cons, List.mem_append, List.mem_append] at h
      rcases h with (h | h) | h
      · exact .inr ⟨xs, List.mem_cons_self, h⟩
      · exact .inl h
      · exact (ih h).imp_right fun ⟨zs, hzs, hx⟩ => ⟨zs, List.mem_cons_of_mem _ hzs, hx⟩

theorem Sql.ReadsNull.congr {p q : Prop} {ls : List Lexeme} (h : ReadsNull p ls) (hpq : p ↔ q) :
    ReadsNull q ls :=
  ⟨h.free, h.null_iff.trans hpq⟩

theorem Value.literalAll_eq_map (vs : List Value) : literalAll vs = vs.map literal := by
  induction vs with
  | nil => rfl
  | cons v vs ih => rw [literalAll, List.map_cons, ih]

/-- A list of one value is NULL if the value is, and no other list is. -/
theorem isNullExpression_items {items : List Value}
    (h : ∀ v ∈ items, (isNullExpression (lexemes v.literal) = true ↔ v.DenotesNull)) :
    isNullExpression ([.mark ','].intercalate (items.map fun v => lexemes v.literal)) = true ↔
      (Value.list items).DenotesNull := by
  cases items with
  | nil =>
    refine ⟨fun hnull => absurd hnull (by decide), fun hnull => ?_⟩
    cases hnull
  | cons v rest =>
    cases rest with
    | nil =>
      rw [List.map_singleton, List.intercalate_singleton, h v List.mem_cons_self]
      refine ⟨.listed, fun hnull => ?_⟩
      cases hnull with
      | listed hv => exact hv
    | cons w rest =>
      -- the comma between two items is no part of NULL
      rw [List.map_cons, List.map_cons, List.intercalate_cons_cons,
        isNullExpression_eq_false (l := .mark ',') (by simp) (by decide) (by decide)]
      refine ⟨fun hnull => absurd hnull (by decide), fun hnull => ?_⟩
      cases hnull

theorem readsNull_list {items : List Value}
    (h : ∀ v ∈ items, ReadsNull v.DenotesNull (lexemes v.literal)) :
    ReadsNull (Value.list items).DenotesNull (lexemes (Value.list items).literal) := by
  have hall : lexemes (Value.list items).literal = .mark '(' ::
      ([.mark ','].intercalate (items.map fun v => lexemes v.literal) ++ [.mark ')']) := by
    rw [Value.literal, (lexes_parentheses (inlined_literalAll items)).lexemes,
      Value.literalAll_eq_map, List.map_map]
    rfl
  rw [hall]
  refine ⟨fun l hl => ?_, ?_⟩
  · rcases List.mem_cons.1 hl with rfl | hl
    · rfl
    rcases List.mem_append.1 hl with hl | hl
    · rcases mem_intercalate hl with hl | ⟨ls, hls, hl⟩
      · rw [List.mem_singleton.1 hl]
        rfl
      · obtain ⟨v, hv, rfl⟩ := List.mem_map.1 hls
        exact (h v hv).free l hl
    · rw [List.mem_singleton.1 hl]
      rfl
  · rw [isNullExpression_parentheses]
    exact isNullExpression_items fun v hv => (h v hv).null_iff

mutual
/-- No constraint is part of a literal, and its value is NULL exactly if it is read so. -/
theorem readsNull_literal : ∀ v : Value, ReadsNull v.DenotesNull (lexemes v.literal)
  | .null => ⟨by decide, iff_of_true (by decide) .null⟩
  | .integer i => (readsNull_integer i.toInt).congr ⟨False.elim, nofun⟩
  | .float f => (readsNull_float f).congr ⟨False.elim, nofun⟩
  | .text s => (readsNull_quoteText s).congr ⟨False.elim, nofun⟩
  | .boolean b => by
    cases b <;> exact ⟨by decide, iff_of_false (by decide) nofun⟩
  | .date _ => (readsNull_quoted (plainText_printParts _ (by decide))).congr ⟨False.elim, nofun⟩
  | .dateTime _ =>
    (readsNull_quoted (plainText_printParts _ (by decide))).congr ⟨False.elim, nofun⟩
  | .list items => readsNull_list (readsNull_literalAll items)

theorem readsNull_literalAll : ∀ vs : List Value, ∀ v ∈ vs,
    ReadsNull v.DenotesNull (lexemes v.literal)
  | [] => fun _ hv => absurd hv List.not_mem_nil
  | v :: vs => List.forall_mem_cons.2 ⟨readsNull_literal v, readsNull_literalAll vs⟩
end

theorem Value.literal_nonempty (v : Value) : v.literal.isEmpty = false := by
  rw [← Bool.not_eq_true, String.isEmpty_iff]
  cases v with
  | null => decide
  | list items => simp [literal]
  | _ => exact literal_ne_empty rfl

/-! ## Definitions -/

theorem lexes_optional {a b : String} {as bs : List Lexeme} (ha : Lexes a as) (hb : Lexes b bs)
    (h : Front b.toList) (c : Bool) :
    Lexes (a ++ if c then b else "") (as ++ if c then bs else []) := by
  cases c with
  | true => exact ha.before hb h
  | false => simpa using ha

/-- The constraints of a field's column, apart from its default. -/
def Field.constraintLexemes (f : Field) : List Lexeme :=
  lexemes (Dialect.sqlite.typeSql f)
    ++ (if Dialect.isNotNull f && !f.primaryKey then [.word "NOT", .word "NULL"] else [])
    ++ (if f.unique && !f.primaryKey then [.word "UNIQUE"] else [])

theorem lexemes_columnDefinition (f : Field) :
    lexemes (Dialect.sqlite.columnDefinition f) = f.constraintLexemes ++
      (f.default.toList.flatMap fun v => .word "DEFAULT" :: lexemes v.literal) := by
  have htype := (inlined_typeSql .sqlite f).lexes
  have hnotNull := lexes_optional htype
    (by decide : Lexes " NOT NULL" [.word "NOT", .word "NULL"]) (by decide)
    (Dialect.isNotNull f && !f.primaryKey)
  have hunique := lexes_optional hnotNull (by decide : Lexes " UNIQUE" [.word "UNIQUE"])
    (by decide) (f.unique && !f.primaryKey)
  cases hdefault : f.default with
  | none =>
    have hnone : Dialect.defaultSql f = "" := by rw [Dialect.defaultSql, hdefault]; rfl
    have hempty : "".isEmpty = true := by simp
    rw [Dialect.columnDefinition, hnone, hempty, if_pos rfl, String.append_empty, hunique.lexemes]
    exact (List.append_nil _).symm
  | some v =>
    have hsome : Dialect.defaultSql f = v.literal := by rw [Dialect.defaultSql, hdefault]; rfl
    have hliteral := (by decide : Lexes " DEFAULT " [.word "DEFAULT"]).behind
      (inlined_literal v).lexes (by decide)
    have hall := hunique.before hliteral (front_append (by decide) (by decide) v.literal)
    rw [Dialect.columnDefinition, hsome, v.literal_nonempty, if_neg Bool.false_ne_true,
      hall.lexemes]
    simp [Field.constraintLexemes]

theorem constraints_typeSql (f : Field) :
    (∀ l ∈ lexemes (Dialect.sqlite.typeSql f), l.keyword ≠ "default") ∧
      constraints (lexemes (Dialect.sqlite.typeSql f)) =
        if f.isKey then [.primaryKey] else [] := by
  unfold Dialect.typeSql
  cases f.isKey <;> cases f.dataType <;> decide

/-- A constraint that a column may have behind others. -/
theorem constraints_optional {ls bs : List Lexeme} {cs : List Constraint} {k : Constraint}
    (h : (∀ l ∈ ls, l.keyword ≠ "default") ∧ constraints ls = cs)
    (hb : (∀ l ∈ bs, l.keyword ≠ "default") ∧ constraints bs = [k]) (c : Bool) :
    (∀ l ∈ ls ++ (if c then bs else []), l.keyword ≠ "default") ∧
      constraints (ls ++ if c then bs else []) = cs ++ if c then [k] else [] := by
  cases c with
  | false => simpa using h
  | true =>
    refine ⟨List.forall_mem_append.2 ⟨h.1, hb.1⟩, ?_⟩
    rw [if_pos rfl, if_pos rfl, constraints_append h.1, h.2, hb.2]

theorem constraints_constraintLexemes (f : Field) :
    (∀ l ∈ f.constraintLexemes, l.keyword ≠ "default") ∧
      constraints f.constraintLexemes = (if f.isKey then [.primaryKey] else [])
        ++ (if Dialect.isNotNull f && !f.primaryKey then [.notNull] else [])
        ++ (if f.unique && !f.primaryKey then [.unique] else []) :=
  constraints_optional (constraints_optional (constraints_typeSql f) (by decide) _) (by decide) _

/-- The constraints in the definition of a column: those of the key, of a required and of a unique
column, and the default. -/
theorem constraints_columnDefinition (f : Field) :
    constraints (lexemes (Dialect.sqlite.columnDefinition f)) =
      (if f.isKey then [.primaryKey] else [])
        ++ (if Dialect.isNotNull f && !f.primaryKey then [.notNull] else [])
        ++ (if f.unique && !f.primaryKey then [.unique] else [])
        ++ f.default.toList.map fun v => .default (lexemes v.literal) := by
  obtain ⟨hfree, hconstraints⟩ := constraints_constraintLexemes f
  rw [lexemes_columnDefinition, constraints_append hfree, hconstraints]
  cases f.default with
  | none => rfl
  | some v =>
    simp only [Option.toList_some, List.flatMap_singleton, List.map_singleton]
    rw [constraints_default (readsNull_literal v).free]

section

variable {f : Field}

theorem mem_constraints_columnDefinition {x : Constraint} :
    x ∈ constraints (lexemes (Dialect.sqlite.columnDefinition f)) ↔
      (x = .primaryKey ∧ f.isKey = true) ∨
      (x = .notNull ∧ f.required = true ∧ f.primaryKey = false) ∨
      (x = .unique ∧ f.unique = true ∧ f.primaryKey = false) ∨
      ∃ v, f.default = some v ∧ .default (lexemes v.literal) = x := by
  rw [constraints_columnDefinition, Dialect.isNotNull]
  cases f.isKey <;> cases f.required <;> cases f.unique <;> cases f.primaryKey <;> simp

/-- The column of a field that is not the key may be added: it is marked as a key, which alone
makes no constraint, or it is not unique and, if it is required, has a default that is not NULL. -/
def Field.Addable (f : Field) : Prop :=
  f.primaryKey = true ∨ (f.unique = false ∧
    (f.required = true → ∃ v, f.default = some v ∧ ¬ v.DenotesNull))

/-- The rules allow the columns of these fields. -/
theorem legal_iff_addable (h : f.isKey = false) :
    Legal (constraints (lexemes (Dialect.sqlite.columnDefinition f))) ↔ f.Addable := by
  have hprimary : .primaryKey ∉ constraints (lexemes (Dialect.sqlite.columnDefinition f)) := by
    simp [mem_constraints_columnDefinition, h]
  have hunique : .unique ∈ constraints (lexemes (Dialect.sqlite.columnDefinition f)) ↔
      f.unique = true ∧ f.primaryKey = false := by
    simp [mem_constraints_columnDefinition]
  have hnotNull : .notNull ∈ constraints (lexemes (Dialect.sqlite.columnDefinition f)) ↔
      f.required = true ∧ f.primaryKey = false := by
    simp [mem_constraints_columnDefinition]
  have hdefault : (∃ ls, .default ls ∈ constraints (lexemes (Dialect.sqlite.columnDefinition f)) ∧
      isNullExpression ls = false) ↔ ∃ v, f.default = some v ∧ ¬ v.DenotesNull := by
    simp [mem_constraints_columnDefinition, ← (readsNull_literal _).null_iff]
  constructor
  · rintro ⟨-, hplain, hvalue⟩
    rw [hunique] at hplain
    rw [hnotNull, hdefault] at hvalue
    cases hkey : f.primaryKey with
    | true => exact .inl hkey
    | false => exact .inr ⟨by simpa [hkey] using hplain, fun hrequired => hvalue ⟨hrequired, hkey⟩⟩
  · rintro (hkey | ⟨hplain, hvalue⟩)
    · exact ⟨hprimary, by simp [hunique, hkey], by simp [hnotNull, hkey]⟩
    · refine ⟨hprimary, by simp [hunique, hplain], ?_⟩
      rw [hnotNull, hdefault]
      exact fun hrequired => hvalue hrequired.1

end

end RecordModel
