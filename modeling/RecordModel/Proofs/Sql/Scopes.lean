import Mathlib.Data.Set.Basic
import RecordModel.Proofs.Sql.Lexemes

/-!
# Scopes of SQL

A SELECT binds tables in its FROM clause, each under its own name or under an alias, and a
subselect binds tables of its own. An UPDATE and a DELETE bind the table that they write. A
quoted name with a point behind it qualifies a column, in an ON condition or elsewhere. All this
is read off the lexemes of a statement from left to right (`blocksOf`).

`Effect start ls sc stop` says what reading `ls` adds, wherever it starts: the tables and
qualified columns `sc` of the block at hand, and the subselects inside. It is kept by putting
lexemes one behind the other, and so is `Adds` for texts.

Results:
* `Effect.append`, `Adds.append`, `Adds.join`: what texts add is added piece by piece.
* `effect_joined`: an INNER or LEFT JOIN binds one table under its alias.
* `Effect.subselect`: a subselect is a block of its own.
* `Effect.blocks_select`, `Effect.blocks_eq`: the blocks of a statement.
-/
namespace RecordModel.Sql

open RecordModel.Text RecordModel.Number

/-! ## What is read -/

/-- A table of a FROM clause, its alias, and the aliases that its ON condition refers to. -/
structure Source where
  table : String
  aliasName : String
  conditions : List String
  deriving DecidableEq

/-- The tables that a statement or a subselect binds, and the aliases that it refers to outside
of ON conditions. -/
structure Block where
  sources : List Source
  uses : List String
  deriving DecidableEq

/-- A block, and the blocks of the subselects in it. -/
structure Scopes where
  inner : List Block
  block : Block

namespace Scopes

def none : Scopes := ⟨[], ⟨[], []⟩⟩

def ofUses (aliases : List String) : Scopes := ⟨[], ⟨[], aliases⟩⟩

def ofSources (sources : List Source) : Scopes := ⟨[], ⟨sources, []⟩⟩

/-- All blocks, the inner ones first. -/
def all (sc : Scopes) : List Block := sc.inner ++ [sc.block]

instance : Append Scopes :=
  ⟨fun a b => ⟨a.inner ++ b.inner,
    ⟨a.block.sources ++ b.block.sources, a.block.uses ++ b.block.uses⟩⟩⟩

theorem append_eq (a b : Scopes) : a ++ b = ⟨a.inner ++ b.inner,
    ⟨a.block.sources ++ b.block.sources, a.block.uses ++ b.block.uses⟩⟩ := rfl

@[simp] theorem append_none (a : Scopes) : a ++ none = a := by simp [append_eq, none]

@[simp] theorem none_append (a : Scopes) : none ++ a = a := by simp [append_eq, none]

theorem append_assoc (a b c : Scopes) : a ++ b ++ c = a ++ (b ++ c) := by simp [append_eq]

theorem ofUses_append (us vs : List String) : ofUses (us ++ vs) = ofUses us ++ ofUses vs := rfl

theorem ofSources_append (ss ts : List Source) :
    ofSources (ss ++ ts) = ofSources ss ++ ofSources ts := rfl

@[simp] theorem ofUses_nil : ofUses [] = none := rfl

end Scopes

/-! ## Reading -/

/-- Where a reader stands in a block. -/
inductive Place where
  /-- A table is named next. -/
  | table
  /-- Behind the name of a table, which may be given an alias. -/
  | bound
  /-- In the ON condition of the last table. -/
  | condition
  /-- In the settings of an UPDATE. -/
  | settings
  | other
  deriving DecidableEq

/-- What a reader has just read. -/
inductive Before where
  | name (s : String)
  | opening
  /-- Something that the bare name of a column follows. -/
  | column
  | other
  deriving DecidableEq

structure Reader where
  scopes : Scopes
  place : Place
  before : Before
  /-- The open parentheses, the innermost first, each with the block around a subselect. -/
  outer : List (Option (Block × Place))

/-- The words that start a part of a statement, and where they lead. -/
def clauseWords : List (String × Place) :=
  [("SELECT", .other), ("UPDATE", .table), ("SET", .settings), ("FROM", .table),
    ("INNER", .other), ("LEFT", .other), ("JOIN", .table), ("ON", .condition),
    ("WHERE", .other), ("GROUP", .other), ("ORDER", .other)]

namespace Reader

def start : Reader := ⟨.none, .other, .other, []⟩

/-- Change the table that was bound last. -/
def changeLast (r : Reader) (f : Source → Source) : Reader :=
  let sources := r.scopes.block.sources
  { r with
    scopes.block.sources := sources.dropLast ++ (sources.getLast?.map f).toList }

/-- A quoted name: a table where one is named next, an alias behind a table, or else what may
qualify a column. -/
def name (r : Reader) (s : String) : Reader :=
  match r.place with
  | .table =>
    { r with
      scopes := r.scopes ++ .ofSources [⟨s, s, []⟩]
      place := .bound
      before := .other }
  | .bound =>
    { r.changeLast fun source => { source with aliasName := s } with
      place := .other
      before := .other }
  | .condition | .settings | .other => { r with before := .name s }

/-- A column of the table with the given alias. -/
def use (r : Reader) (s : String) : Reader :=
  if r.place = .condition then
    r.changeLast fun source => { source with conditions := source.conditions ++ [s] }
  else { r with scopes := r.scopes ++ .ofUses [s] }

def word (r : Reader) (w : String) : Reader :=
  if r.before = .column then { r with before := .other }
  else if w = "SELECT" ∧ r.before = .opening then
    { scopes := ⟨r.scopes.inner, ⟨[], []⟩⟩
      place := .other
      before := .other
      outer := some (r.scopes.block, r.place) :: r.outer.tail }
  else
    match clauseWords.lookup w with
    | some place =>
      { r with place := place, before := if place = .settings then .column else .other }
    | none => { r with before := .other }

/-- A closing parenthesis; behind a subselect the block around it goes on. -/
def close (r : Reader) : Reader :=
  match r.outer with
  | some (block, place) :: outer => ⟨⟨r.scopes.all, block⟩, place, .other, outer⟩
  | none :: outer => { r with before := .other, outer := outer }
  | [] => { r with before := .other }

def mark (r : Reader) (c : Char) : Reader :=
  if c = '.' then
    match r.before with
    | .name s => { r.use s with before := .column }
    | _ => { r with before := .other }
  else if c = '(' then { r with before := .opening, outer := none :: r.outer }
  else if c = ')' then r.close
  else { r with before := if c = ',' ∧ r.place = .settings then .column else .other }

def step (r : Reader) : Lexeme → Reader
  | .name s => r.name s
  | .text _ => { r with before := .other }
  | .word w => r.word w
  | .mark c => r.mark c

def read (r : Reader) (ls : List Lexeme) : Reader := ls.foldl step r

theorem read_append (r : Reader) (ls ms : List Lexeme) :
    r.read (ls ++ ms) = (r.read ls).read ms :=
  List.foldl_append

/-- A word that starts no part. -/
theorem step_free {r : Reader} {w : String} (h : clauseWords.lookup w = none)
    (hbefore : r.before ≠ .column) : r.step (.word w) = { r with before := .other } := by
  have hw : w ≠ "SELECT" := by
    rintro rfl
    cases h
  simp [step, word, hbefore, hw, h]

/-- A word that starts a part other than a SELECT. -/
theorem step_clauseWord {r : Reader} {w : String} {place : Place}
    (h : clauseWords.lookup w = some place) (hw : w ≠ "SELECT") (hbefore : r.before ≠ .column) :
    r.step (.word w) =
      { r with place := place, before := if place = .settings then .column else .other } := by
  simp [step, word, hbefore, hw, h]

theorem read_cons (r : Reader) (l : Lexeme) (ls : List Lexeme) :
    r.read (l :: ls) = (r.step l).read ls := rfl

variable (sc : Scopes) (before : Before) (outer : List (Option (Block × Place)))

/-- A table with an alias. -/
theorem read_table (t aliasName : String) :
    (Reader.mk sc .table before outer).read [.name t, .word "AS", .name aliasName] =
      ⟨sc ++ .ofSources [⟨t, aliasName, []⟩], .other, .other, outer⟩ := by
  have hname : (Reader.mk sc .table before outer).step (.name t) =
      ⟨sc ++ .ofSources [⟨t, t, []⟩], .bound, .other, outer⟩ := rfl
  rw [read_cons, hname, read_cons, step_free rfl (by simp)]
  simp [read, step, name, changeLast, Scopes.append_eq, Scopes.ofSources]

/-- A column in the ON condition of the last table. -/
theorem read_tied (t aliasName : String) (conditions : List String) (other name : String) :
    (Reader.mk (sc ++ .ofSources [⟨t, aliasName, conditions⟩]) .condition before outer).read
        [.name other, .mark '.', .word name] =
      ⟨sc ++ .ofSources [⟨t, aliasName, conditions ++ [other]⟩], .condition, .other, outer⟩ := by
  simp [read, step, Reader.name, mark, use, word, changeLast, Scopes.append_eq, Scopes.ofSources]

end Reader

/-- The blocks of a statement, subselects in front of what they stand in. -/
def blocksOf (sql : String) : List Block := (Reader.start.read (lexemes sql)).scopes.all

/-- Neither a name nor a point, a comma or a parenthesis, and no word that starts a part. -/
def Lexeme.isNeutral : Lexeme → Bool
  | .name _ => false
  | .text _ => true
  | .word w => (clauseWords.lookup w).isNone
  | .mark c => !List.elem c ['.', ',', '(', ')']

/-- A number is no word that starts a part. -/
theorem isNeutral_natText (n : Nat) : (Lexeme.word (natText n)).isNeutral = true := by
  have hwords : ∀ p ∈ clauseWords, p.1.toList.all Char.isDigit = false := by decide
  refine Option.isNone_iff_eq_none.2 (List.lookup_eq_none_iff.2 fun p hp => ?_)
  have hne : natText n ≠ p.1 := by
    intro hname
    have hdigits : p.1.toList.all Char.isDigit = true :=
      List.all_eq_true.2 fun c hc => isDigit_of_mem_natText (hname ▸ hc)
    rw [hwords p hp] at hdigits
    cases hdigits
  simpa using hne

/-! ## Effects of lexemes -/

/-- What reading lexemes adds at places `start`; it ends at a place of `stop`. -/
def Effect (start : Set Place) (ls : List Lexeme) (sc : Scopes) (stop : Set Place) : Prop :=
  ∀ r : Reader, r.place ∈ start → r.before ≠ .column →
    ∃ place ∈ stop, ∃ before ≠ .column,
      r.read ls = { r with scopes := r.scopes ++ sc, place := place, before := before }

namespace Effect

variable {start mid stop : Set Place} {ls ms : List Lexeme} {sc sc' : Scopes}

theorem nil (start : Set Place) : Effect start [] .none start := by
  intro r hplace hbefore
  exact ⟨r.place, hplace, r.before, hbefore, by simp [Reader.read]⟩

theorem append (h : Effect start ls sc mid) (h' : Effect mid ms sc' stop) :
    Effect start (ls ++ ms) (sc ++ sc') stop := by
  intro r hplace hbefore
  obtain ⟨place, hplace, before, hbefore, hread⟩ := h r hplace hbefore
  obtain ⟨place', hplace', before', hbefore', hread'⟩ :=
    h' { r with scopes := r.scopes ++ sc, place := place, before := before } hplace hbefore
  refine ⟨place', hplace', before', hbefore', ?_⟩
  rw [Reader.read_append, hread, hread', Scopes.append_assoc]

/-- What is added anywhere is added here. -/
theorem from_univ (h : Effect .univ ls sc stop) (start : Set Place) : Effect start ls sc stop :=
  fun r _ hbefore => h r (Set.mem_univ _) hbefore

theorem to_univ (h : Effect start ls sc stop) : Effect start ls sc .univ := by
  intro r hplace hbefore
  obtain ⟨place, -, before, hbefore, hread⟩ := h r hplace hbefore
  exact ⟨place, Set.mem_univ _, before, hbefore, hread⟩

/-- Parentheses around anything but a subselect. -/
theorem group (h : Effect start ls sc stop) :
    Effect start (.mark '(' :: ls ++ [.mark ')']) sc stop := by
  intro r hplace hbefore
  obtain ⟨place, hplace, before, hbefore, hread⟩ :=
    h { r with before := .opening, outer := none :: r.outer } hplace (by simp)
  refine ⟨place, hplace, .other, by simp, ?_⟩
  have hopen : r.step (.mark '(') = { r with before := .opening, outer := none :: r.outer } := rfl
  rw [List.cons_append, Reader.read_cons, hopen, Reader.read_append, hread]
  rfl

/-- A subselect is a block of its own. -/
theorem subselect (h : Effect {.other} ls sc stop) :
    Effect start (.mark '(' :: .word "SELECT" :: ls ++ [.mark ')']) ⟨sc.all, ⟨[], []⟩⟩ start := by
  intro r hplace hbefore
  let inside : Reader :=
    ⟨⟨r.scopes.inner, ⟨[], []⟩⟩, .other, .other, some (r.scopes.block, r.place) :: r.outer⟩
  obtain ⟨place, -, before, -, hread⟩ := h inside rfl (by simp [inside])
  have hopen : (r.step (.mark '(')).step (.word "SELECT") = inside := by
    simp [Reader.step, Reader.mark, Reader.word, inside]
  refine ⟨r.place, hplace, .other, by simp, ?_⟩
  rw [List.cons_append, List.cons_append, Reader.read_cons, Reader.read_cons, hopen,
    Reader.read_append, hread]
  simp [Reader.read, Reader.step, Reader.mark, Reader.close, inside, Scopes.append_eq, Scopes.all]

/-! ## Single lexemes -/

theorem clauseWord {w : String} {place : Place} (h : clauseWords.lookup w = some place)
    (hw : w ≠ "SELECT") (hplace : place ≠ .settings) :
    Effect .univ [.word w] .none {place} := by
  rintro r - hbefore
  refine ⟨place, rfl, .other, by simp, ?_⟩
  rw [Reader.read_cons, Reader.step_clauseWord h hw hbefore, if_neg hplace, Scopes.append_none]
  rfl

/-- Lexemes that leave a reader where it is. -/
theorem neutral (start : Set Place) (h : ∀ l ∈ ls, l.isNeutral = true) :
    Effect start ls .none start := by
  induction ls with
  | nil => exact .nil start
  | cons l ls ih =>
    have hone : Effect start [l] .none start := by
      intro r hplace hbefore
      refine ⟨r.place, hplace, .other, by simp, ?_⟩
      have hl := h l (by simp)
      cases l with
      | name s => cases hl
      | text s => simp [Reader.read, Reader.step]
      | word w =>
        rw [Reader.read_cons, Reader.step_free (Option.isNone_iff_eq_none.1 hl) hbefore,
          Scopes.append_none]
        rfl
      | mark c =>
        simp only [Lexeme.isNeutral, Bool.not_eq_true', List.elem_eq_contains,
          List.contains_eq_mem, List.mem_cons, List.not_mem_nil, or_false, decide_eq_false_iff_not,
          not_or] at hl
        simp [Reader.read, Reader.step, Reader.mark, hl]
    have hall := hone.append (ih fun m hm => h m (by simp [hm]))
    exact hall

/-- A comma between columns. -/
theorem comma : Effect {.other} [.mark ','] .none {.other} := by
  rintro r (hplace : r.place = .other) hbefore
  refine ⟨.other, rfl, .other, by simp, ?_⟩
  simp [Reader.read, Reader.step, Reader.mark, hplace]

/-- A column outside of ON conditions. -/
theorem column (aliasName name : String) :
    Effect {.other} [.name aliasName, .mark '.', .word name] (.ofUses [aliasName]) {.other} := by
  rintro r (hplace : r.place = .other) hbefore
  refine ⟨.other, rfl, .other, by simp, ?_⟩
  simp [Reader.read, Reader.step, Reader.name, Reader.mark, Reader.word, Reader.use, hplace]

/-- The label of a column. -/
theorem label (s : String) : Effect {.other} [.word "AS", .name s] .none {.other} := by
  rintro r (hplace : r.place = .other) hbefore
  refine ⟨.other, rfl, .name s, by simp, ?_⟩
  rw [Reader.read_cons, Reader.step_free rfl hbefore, Scopes.append_none]
  simp [Reader.read, Reader.step, Reader.name, hplace]

/-! ## Tables -/

theorem table (t : String) : Effect {.table} [.name t] (.ofSources [⟨t, t, []⟩]) {.bound} := by
  rintro r (hplace : r.place = .table) hbefore
  refine ⟨.bound, rfl, .other, by simp, ?_⟩
  simp [Reader.read, Reader.step, Reader.name, hplace]

/-- A table that is joined under an alias, by a column of another table. -/
theorem joined {kind : String} (hkind : kind = "INNER" ∨ kind = "LEFT")
    (t aliasName previous name key : String) :
    Effect .univ ([.word kind, .word "JOIN"] ++ [.name t, .word "AS", .name aliasName] ++
        [.word "ON"] ++ [.name previous, .mark '.', .word name] ++ [.mark '='] ++
          [.name aliasName, .mark '.', .word key])
      (.ofSources [⟨t, aliasName, [previous, aliasName]⟩]) {.condition} := by
  rintro ⟨sc, place, before, outer⟩ - hbefore
  refine ⟨.condition, rfl, .other, by simp, ?_⟩
  have hkind : clauseWords.lookup kind = some .other ∧ kind ≠ "SELECT" := by
    rcases hkind with rfl | rfl <;> exact ⟨rfl, by decide⟩
  have hjoin : (Reader.mk sc place before outer).read [.word kind, .word "JOIN"] =
      ⟨sc, .table, .other, outer⟩ := by
    have hword : clauseWords.lookup "JOIN" = some .table := rfl
    rw [Reader.read_cons, Reader.step_clauseWord hkind.1 hkind.2 hbefore, Reader.read_cons,
      Reader.step_clauseWord hword (by decide) (by simp)]
    rfl
  have hon (sc : Scopes) : (Reader.mk sc .other .other outer).read [.word "ON"] =
      ⟨sc, .condition, .other, outer⟩ := rfl
  have hequals (sc : Scopes) : (Reader.mk sc .condition .other outer).read [.mark '='] =
      ⟨sc, .condition, .other, outer⟩ := rfl
  simp only [Reader.read_append, hjoin, Reader.read_table, hon, Reader.read_tied, hequals]
  rfl

/-- The settings of an UPDATE, each a column and a placeholder: whatever the columns are called,
they are no words that start a part. -/
theorem settings {columns : List String} (h : columns ≠ []) :
    Effect .univ (.word "SET" :: [Lexeme.mark ','].intercalate
        (columns.map fun c => [.word c, .mark '=', .mark '?'])) .none {.settings} := by
  rintro ⟨sc, place, before, outer⟩ - hbefore
  refine ⟨.settings, rfl, .other, by simp, ?_⟩
  have hword : clauseWords.lookup "SET" = some .settings := rfl
  rw [Reader.read_cons, Reader.step_clauseWord hword (by decide) hbefore, Scopes.append_none]
  induction columns with
  | nil => exact absurd rfl h
  | cons c columns ih =>
    cases columns with
    | nil => rfl
    | cons d columns =>
      rw [List.map_cons, List.map_cons, List.intercalate_cons_cons, Reader.read_append]
      exact ih (List.cons_ne_nil _ _)

/-! ## Blocks of statements -/

/-- The blocks of a statement. -/
theorem blocks_eq {sql : String} (h : Effect {.other} (lexemes sql) sc stop) :
    blocksOf sql = sc.all := by
  obtain ⟨place, -, before, -, hread⟩ := h .start rfl (by simp [Reader.start])
  rw [blocksOf, hread]
  simp [Reader.start]

/-- The blocks of a SELECT statement. -/
theorem blocks_select {sql : String} (hsql : lexemes sql = .word "SELECT" :: ls)
    (h : Effect {.other} ls sc stop) : blocksOf sql = sc.all := by
  obtain ⟨place, -, before, -, hread⟩ := h .start rfl (by simp [Reader.start])
  have hfirst : Reader.start.step (.word "SELECT") = .start := by
    simp [Reader.step, Reader.word, Reader.start, clauseWords]
  rw [blocksOf, hsql, Reader.read_cons, hfirst, hread]
  simp [Reader.start]

/-- What stands around a subselect is a block by itself. -/
example : blocksOf "DELETE FROM \"a\" WHERE \"a\".x IN (SELECT \"b\".y FROM \"c\" AS \"b\")" =
    [⟨[⟨"c", "b", []⟩], ["b"]⟩, ⟨[⟨"a", "a", []⟩], ["a"]⟩] := by decide +kernel

end Effect

/-! ## Effects of texts -/

theorem lexes_column (aliasName : String) {name : String} (h : isIdentifier name = true) :
    Lexes (quoteName aliasName ++ "." ++ name) [.name aliasName, .mark '.', .word name] := by
  have hpoint := (lexes_quoteName aliasName).before (by decide : Lexes "." [.mark '.']) (by decide)
  exact hpoint.behind (lexes_identifier h) (back_append (by decide) _)

/-- A text that leaves no quote open, and what reading it adds. -/
structure Adds (start : Set Place) (s : String) (sc : Scopes) (stop : Set Place) : Prop where
  closed : s.toList.foldl quoteAfter none = none
  effect : Effect start (lexemes s) sc stop

variable {start mid stop : Set Place} {sc sc' : Scopes} {ls : List Lexeme}

theorem Lexes.adds {s : String} (h : Lexes s ls) (heffect : Effect start ls sc stop) :
    Adds start s sc stop :=
  ⟨h.closed, h.lexemes ▸ heffect⟩

namespace Adds

variable {a b : String}

theorem lexes (h : Adds start a sc stop) : Lexes a (lexemes a) := ⟨h.closed, rfl⟩

theorem append (ha : Adds start a sc mid) (hb : Adds mid b sc' stop)
    (h : Back a.toList ∨ Front b.toList) : Adds start (a ++ b) (sc ++ sc') stop :=
  (ha.lexes.append hb.lexes h).adds (ha.effect.append hb.effect)

/-- A text in front of one that starts with a blank or a mark and adds nothing. -/
theorem before (ha : Adds start a sc mid) (hb : Adds mid b .none stop) (h : Front b.toList) :
    Adds start (a ++ b) sc stop := by
  have hall := ha.append hb (.inr h)
  rwa [Scopes.append_none] at hall

/-- A text behind one that ends with a blank or a mark and adds nothing. -/
theorem behind (hb : Adds mid b sc stop) (ha : Adds start a .none mid) (h : Back a.toList) :
    Adds start (a ++ b) sc stop := by
  have hall := ha.append hb (.inl h)
  rwa [Scopes.none_append] at hall

theorem from_univ (h : Adds .univ a sc stop) (start : Set Place) : Adds start a sc stop :=
  ⟨h.closed, h.effect.from_univ start⟩

theorem to_univ (h : Adds start a sc stop) : Adds start a sc .univ := ⟨h.closed, h.effect.to_univ⟩

theorem neutral (start : Set Place) (hclosed : a.toList.foldl quoteAfter none = none)
    (h : ∀ l ∈ lexemes a, l.isNeutral = true) : Adds start a .none start :=
  ⟨hclosed, .neutral start h⟩

/-- A text that starts a part of a statement. -/
theorem keyword {w : String} {place : Place} (h : Lexes a (.word w :: ls))
    (hw : clauseWords.lookup w = some place) (hselect : w ≠ "SELECT") (hplace : place ≠ .settings)
    (hls : ∀ l ∈ ls, l.isNeutral = true) : Adds .univ a .none {place} :=
  h.adds ((Effect.clauseWord hw hselect hplace).append (.neutral {place} hls))

theorem column (aliasName : String) {name : String} (h : isIdentifier name = true) :
    Adds {.other} (quoteName aliasName ++ "." ++ name) (.ofUses [aliasName]) {.other} :=
  (lexes_column aliasName h).adds (.column aliasName name)

/-- Parentheses around anything but a subselect. -/
theorem group {opening : String} (hopening : Lexes opening [.mark '('])
    (hback : Back opening.toList) (h : Adds start a sc stop) :
    Adds start (opening ++ a ++ ")") sc stop :=
  ((hopening.behind h.lexes hback).before (by decide : Lexes ")" [.mark ')']) (by decide)).adds
    h.effect.group

/-- Items in a row, with commas between them. -/
theorem list {α : Type} {text : α → String} {uses : α → List String} {xs : List α}
    (h : ∀ x ∈ xs, Adds {.other} (text x) (.ofUses (uses x)) {.other}) :
    Adds {.other} (join ", " (xs.map text)) (.ofUses (xs.flatMap uses)) {.other} := by
  have hcomma : Adds {.other} ", " .none {.other} :=
    (by decide : Lexes ", " [.mark ',']).adds .comma
  induction xs with
  | nil => exact ⟨rfl, .nil _⟩
  | cons x xs ih =>
    have hx := h x (by simp)
    have hrest := ih fun y hy => h y (by simp [hy])
    cases xs with
    | nil => rwa [List.flatMap_singleton]
    | cons y xs =>
      rw [List.flatMap_cons, Scopes.ofUses_append]
      exact (hx.before hcomma (by decide)).append hrest (.inl (back_append (by decide) _))

/-- Columns in a row, with commas between them. -/
theorem columns {α : Type} {text uses : α → String} {xs : List α}
    (h : ∀ x ∈ xs, Adds {.other} (text x) (.ofUses [uses x]) {.other}) :
    Adds {.other} (join ", " (xs.map text)) (.ofUses (xs.map uses)) {.other} := by
  have hall := list h
  rwa [← List.map_eq_flatMap] at hall

end Adds

/-- Parts of a statement in a row, and what they add. -/
inductive AddsAll : Set Place → List String → Scopes → Set Place → Prop where
  | nil (start : Set Place) : AddsAll start [] .none start
  | cons {start mid stop : Set Place} {s : String} {ss : List String} {sc sc' : Scopes} :
    Adds start s sc mid → AddsAll mid ss sc' stop → AddsAll start (s :: ss) (sc ++ sc') stop

namespace AddsAll

theorem single {s : String} (h : Adds start s sc stop) : AddsAll start [s] sc stop := by
  have hall := AddsAll.cons h (.nil stop)
  rwa [Scopes.append_none] at hall

theorem append {ss ts : List String} (h : AddsAll start ss sc mid) (h' : AddsAll mid ts sc' stop) :
    AddsAll start (ss ++ ts) (sc ++ sc') stop := by
  induction h with
  | nil => rwa [Scopes.none_append]
  | cons hs _ ih =>
    rw [Scopes.append_assoc]
    exact .cons hs (ih h')

theorem of_forall {ss : List String} (h : ∀ s ∈ ss, Adds start s .none start) :
    AddsAll start ss .none start := by
  induction ss with
  | nil => exact .nil start
  | cons s ss ih => exact .cons (h s (by simp)) (ih fun t ht => h t (by simp [ht]))

/-- Parts with blanks between them. -/
theorem join {ss : List String} (h : AddsAll start ss sc stop) :
    Adds start (Text.join " " ss) sc stop := by
  induction h with
  | nil start => exact ⟨rfl, .nil start⟩
  | @cons start mid stop s ss sc sc' hs hrest ih =>
    cases hrest with
    | nil =>
      rw [Scopes.append_none]
      exact hs
    | cons =>
      have hblank : Adds mid " " .none mid := .neutral mid (by decide) (by decide)
      exact (hs.before hblank (by decide)).append ih (.inl (back_append (by decide) s))

end AddsAll

end RecordModel.Sql
