import RecordModel.Proofs.Query.Scoping
import RecordModel.Proofs.Sql.Conditions

/-!
# Evaluating statements

What a database does with a statement is read off the text of the statement and the arguments
that are bound to it: the values that a SELECT statement for one column gives
(`Statement.Gives`), and the rows of a table that an update or a deletion writes
(`Statement.Affects`). The FROM clause is read into joins, the clause behind it into phrases, and
each comparison takes the next arguments for its placeholders. An update and a deletion may have
no clause, a clause for the row itself, or one that looks for the row in an inner query.

A database compares what it finds in a column in a way that is left open (`Judge`); the clause
around these comparisons is read with NOT before AND before OR, in three truth values.

Results:
* `joinedTables_lexemes`: the joins in the text of a FROM clause are read back.
* `clauseHolds_clauseText`: the clause of a condition holds just if the condition does.
-/
namespace RecordModel

open RecordModel.Text RecordModel.Sql

/-- What a database says of a comparison: its SQL behind the column, the arguments of its
placeholders, and what is found in the column. -/
abbrev Judge (κ : Type) := List Lexeme → List Value → Option κ → Truth

/-! ## Reading statements -/

namespace Sql

/-- The tables that are joined to the first one, and what stands behind them. -/
def joinedTables : List Lexeme → List Join × List Lexeme
  | .word kind :: .word j :: .name table :: .word a :: .name aliasName :: .word o ::
      .name previous :: .mark '.' :: .word column :: .mark '=' :: .name own :: .mark '.' ::
      .word key :: rest =>
    if (kind = "INNER" ∨ kind = "LEFT") ∧ j = "JOIN" ∧ a = "AS" ∧ o = "ON" ∧ own = aliasName ∧
        key = idField then
      (⟨table, aliasName, some ⟨kind = "INNER", column, previous⟩⟩ :: (joinedTables rest).1,
        (joinedTables rest).2)
    else
      ([], .word kind :: .word j :: .name table :: .word a :: .name aliasName :: .word o ::
        .name previous :: .mark '.' :: .word column :: .mark '=' :: .name own :: .mark '.' ::
        .word key :: rest)
  | ls => ([], ls)

/-- A SELECT statement for one column. -/
structure ColumnQuery where
  column : ColumnRef
  joins : List Join
  /-- What stands behind the tables. -/
  clause : List Lexeme
  deriving DecidableEq

/-- Leave out the label of a column. -/
def dropLabel : List Lexeme → List Lexeme
  | .word w :: .name s :: rest => if w = "AS" then rest else .word w :: .name s :: rest
  | ls => ls

def columnQuery? : List Lexeme → Option ColumnQuery
  | .word v :: .name a :: .mark '.' :: .word column :: rest =>
    match dropLabel rest with
    | .word w :: .name table :: rest =>
      if v = "SELECT" ∧ w = "FROM" then
        some ⟨⟨a, column⟩, ⟨table, table, none⟩ :: (joinedTables rest).1, (joinedTables rest).2⟩
      else none
    | _ => none
  | _ => none

/-- The column of a clause `WHERE column IN (SELECT …)`, and its inner query. -/
def innerQuery? : List Lexeme → Option (ColumnRef × ColumnQuery)
  | .word v :: .name a :: .mark '.' :: .word column :: .word w :: .mark '(' :: rest =>
    if v = "WHERE" ∧ w = "IN" ∧ rest.getLast? = some (.mark ')') then
      (columnQuery? rest.dropLast).map fun q => (⟨a, column⟩, q)
    else none
  | _ => none

/-- An UPDATE or a DELETE statement. -/
structure RowWrite where
  table : String
  /-- How many values are set. -/
  values : Nat
  /-- What stands behind the table or the settings. -/
  clause : List Lexeme
  deriving DecidableEq

/-- The number of settings `column = ?`, and what stands behind them. -/
def settings : List Lexeme → Nat × List Lexeme
  | .word _ :: .mark '=' :: .mark '?' :: .mark ',' :: rest =>
    ((settings rest).1 + 1, (settings rest).2)
  | .word _ :: .mark '=' :: .mark '?' :: rest => (1, rest)
  | ls => (0, ls)

def rowWrite? : List Lexeme → Option RowWrite
  | .word v :: .word w :: .name table :: rest =>
    if v = "DELETE" ∧ w = "FROM" then some ⟨table, 0, rest⟩ else none
  | .word v :: .name table :: .word w :: rest =>
    if v = "UPDATE" ∧ w = "SET" then some ⟨table, (settings rest).1, (settings rest).2⟩ else none
  | _ => none

end Sql

/-! ## What they do -/

section

variable {κ : Type}

/-- The symbols of phrases for a joined row. Each comparison of a column takes the arguments of its
placeholders, and all arguments are taken. -/
def symbolsAt (judge : Judge κ) (scope : Scope κ) : List Value → List Phrase →
    Option (List SqlSymbol)
  | args, [] => if args.isEmpty then some [] else none
  | args, .symbol s :: rest => (symbolsAt judge scope args rest).map (s :: ·)
  | args, .comparison (.name a :: .mark '.' :: .word column :: sql) :: rest =>
    (symbolsAt judge scope (args.drop (sql.count (.mark '?'))) rest).map
      (.value (judge sql (args.take (sql.count (.mark '?'))) (cell scope ⟨a, column⟩)) :: ·)
  | _, .comparison _ :: _ => none

/-- What stands behind the tables of a statement holds for a joined row: it is a condition behind
WHERE that is read as true, or there is nothing. -/
def ClauseHolds (judge : Judge κ) (args : List Value) (scope : Scope κ) : List Lexeme → Prop
  | [] => args = []
  | .word w :: ls => w = "WHERE" ∧
    ∃ ss, symbolsAt judge scope args (phrases ls) = some ss ∧ Reads .disjunction ss .holds
  | _ => False

variable [DecidableEq κ]

/-- A value that the query gives: that of its column in a joined row that the clause holds for. -/
def Sql.ColumnQuery.Gives (q : ColumnQuery) (t : Tables κ) (judge : Judge κ) (args : List Value)
    (v : Option κ) : Prop :=
  ∃ scope ∈ fromRows t q.joins, ClauseHolds judge args scope q.clause ∧ cell scope q.column = v

/-- A row of the table is written: the clause holds for the row itself, or what it has in the
column of the clause is among the values of the inner query. -/
def Sql.RowWrite.Reaches (w : RowWrite) (t : Tables κ) (judge : Judge κ) (args : List Value)
    (row : TableRow κ) : Prop :=
  match innerQuery? w.clause with
  | some (column, q) =>
    ∃ v, cell [(w.table, row)] column = some v ∧ q.Gives t judge args (some v)
  | none => ClauseHolds judge args [(w.table, row)] w.clause

namespace Statement

/-- A SELECT statement for one column gives a value. -/
def Gives (st : Statement) (t : Tables κ) (judge : Judge κ) (v : Option κ) : Prop :=
  ∃ q, columnQuery? (lexemes st.sql) = some q ∧ q.Gives t judge st.args v

/-- An update or a deletion writes a row. The values that are set come first among the arguments. -/
def Affects (st : Statement) (t : Tables κ) (judge : Judge κ) (row : TableRow κ) : Prop :=
  ∃ w, rowWrite? (lexemes st.sql) = some w ∧ row ∈ t w.table ∧
    w.Reaches t judge (st.args.drop w.values) row

end Statement

end

/-! ## Tables and settings are read back -/

/-- What stands behind tables: nothing, or a clause. -/
def IsClause (ls : List Lexeme) : Prop := ls = [] ∨ ∃ rest, ls = .word "WHERE" :: rest

theorem joinedTables_clause {ls : List Lexeme} (h : IsClause ls) : joinedTables ls = ([], ls) := by
  rcases h with rfl | ⟨rest, rfl⟩
  · rfl
  · unfold joinedTables
    split
    · -- WHERE is no kind of join
      rename_i heq
      cases heq
      rw [if_neg]
      rintro ⟨hkind, -⟩
      rcases hkind with hkind | hkind <;> exact absurd hkind (by decide)
    · rfl

/-- The joins of a FROM clause are read back, in front of a clause. -/
theorem joinedTables_lexemes {joins : List Join} (hjoins : ∀ j ∈ joins, j.isJoined = true)
    {clause : List Lexeme} (hclause : IsClause clause) :
    joinedTables (joins.flatMap Join.lexemes ++ clause) = (joins, clause) := by
  induction joins with
  | nil => exact joinedTables_clause hclause
  | cons j joins ih =>
    obtain ⟨hj, hrest⟩ := List.forall_mem_cons.1 hjoins
    obtain ⟨table, aliasName, link⟩ := j
    obtain ⟨⟨required, column, previous⟩, rfl⟩ := Option.isSome_iff_exists.1 hj
    have hkind : (if required then "INNER" else "LEFT") = "INNER" ∨
        (if required then "INNER" else "LEFT") = "LEFT" := by
      split <;> simp
    have hrequired : decide ((if required then "INNER" else "LEFT") = "INNER") = required := by
      cases required <;> decide
    simp only [List.flatMap_cons, Join.lexemes, List.cons_append, List.nil_append, joinedTables,
      ih hrest, hkind, hrequired, and_self, if_true]

/-- A FROM clause: a table under its own name, and the tables that are joined to it. -/
def IsFrom (joins : List Join) : Prop :=
  ∃ table behind, joins = ⟨table, table, none⟩ :: behind ∧ ∀ j ∈ behind, j.isJoined = true

/-- A SELECT statement for one column is read back, with a label or without one. -/
theorem columnQuery?_lexemes (r : ColumnRef) (label : Option String) {joins : List Join}
    (hjoins : IsFrom joins) {clause : List Lexeme} (hclause : IsClause clause) :
    columnQuery? (.word "SELECT" :: .name r.aliasName :: .mark '.' :: .word r.column ::
      ((label.map fun s => [.word "AS", .name s]).getD [] ++
        .word "FROM" :: (joins.flatMap Join.lexemes ++ clause))) = some ⟨r, joins, clause⟩ := by
  obtain ⟨table, behind, rfl, hbehind⟩ := hjoins
  have htables := joinedTables_lexemes hbehind hclause
  have hfrom : Join.lexemes ⟨table, table, none⟩ = [.name table] := rfl
  cases label with
  | none =>
    have hword : "FROM" ≠ "AS" := by decide
    simp [columnQuery?, dropLabel, hfrom, htables, hword]
  | some s => simp [columnQuery?, dropLabel, hfrom, htables]

theorem select_of_columnQuery? {ls : List Lexeme} {q : ColumnQuery} (h : columnQuery? ls = some q) :
    ∃ rest, ls = .word "SELECT" :: rest := by
  unfold columnQuery? at h
  split at h
  · split at h
    · split at h
      · rename_i hwords
        rw [hwords.1]
        exact ⟨_, rfl⟩
      · cases h
    · cases h
  · cases h

/-- Without SELECT behind its parenthesis a clause has no inner query. -/
theorem innerQuery?_eq_none {v a column : String} {ls : List Lexeme}
    (h : ∀ rest, ls ≠ .word "IN" :: .mark '(' :: .word "SELECT" :: rest) :
    innerQuery? (.word v :: .name a :: .mark '.' :: .word column :: ls) = none := by
  unfold innerQuery?
  split
  · rename_i v a column w rest heq
    cases heq
    split
    · rename_i hwords
      rw [Option.map_eq_none_iff, Option.eq_none_iff_forall_ne_some]
      intro q hq
      obtain ⟨inside, hinside⟩ := select_of_columnQuery? hq
      obtain ⟨more, hmore⟩ := List.dropLast_prefix rest
      rw [hinside] at hmore
      exact h (inside ++ more) (by rw [hwords.2.1, ← hmore]; rfl)
    · rfl
  · rfl

theorem settings_intercalate {columns : List String} (hne : columns ≠ []) {clause : List Lexeme}
    (hclause : IsClause clause) :
    settings ([.mark ','].intercalate (columns.map fun c => [.word c, .mark '=', .mark '?']) ++
      clause) = (columns.length, clause) := by
  induction columns with
  | nil => exact absurd rfl hne
  | cons c columns ih =>
    cases columns with
    | nil =>
      rw [List.map_singleton, List.intercalate_singleton]
      rcases hclause with rfl | ⟨rest, rfl⟩ <;> rfl
    | cons d columns =>
      have hrest := ih (by simp)
      rw [List.map_cons] at hrest
      rw [List.map_cons, List.map_cons, List.intercalate_cons_cons]
      simp only [List.cons_append, List.nil_append, settings, hrest, List.length_cons]

example : rowWrite? (lexemes "UPDATE \"person\" SET name = ?, age = ? WHERE \"person\".id = ?") =
    some ⟨"person", 2,
      [.word "WHERE", .name "person", .mark '.', .word "id", .mark '=', .mark '?']⟩ := by
  decide +kernel

/-! ## Tests -/

/-- A test whose text is read as one comparison, with a placeholder for each argument, that is no
search in an inner query. -/
structure Test.Legible (test : Test) : Prop where
  column : isIdentifier test.column.column = true
  closed : test.fragment.sql.toList.foldl quoteAfter none = none
  continues : Continues (lexemes test.fragment.sql)
  count : (lexemes test.fragment.sql).count (.mark '?') = test.fragment.args.length
  direct : ∀ more rest, lexemes test.fragment.sql ++ more ≠
    .word "IN" :: .mark '(' :: .word "SELECT" :: rest

namespace Test.Legible

variable {test : Test}

theorem lexes_text (h : test.Legible) : Lexes test.text (.name test.column.aliasName :: .mark '.' ::
    .word test.column.column :: lexemes test.fragment.sql) := by
  have hcolumn := lexes_column test.column.aliasName h.column
  have hblank := hcolumn.before (by decide : Lexes " " []) (by decide)
  exact hblank.behind ⟨h.closed, rfl⟩ (back_append (by decide) _)

theorem isComparison (h : test.Legible) : IsComparison (lexemes test.text) := by
  rw [h.lexes_text.lexemes]
  have hcolumn := Continues.column (.word test.column.column)
  exact ⟨_, _, rfl, by simp, by simp, hcolumn.append h.continues⟩

end Test.Legible

/-- The lexemes of placeholders with commas between them. -/
def placeholderLexemes (vs : List Value) : List Lexeme :=
  [.mark ','].intercalate (vs.map fun _ => [.mark '?'])

theorem placeholderLexemes_cons_cons (v w : Value) (vs : List Value) :
    placeholderLexemes (v :: w :: vs) =
      .mark '?' :: .mark ',' :: placeholderLexemes (w :: vs) := by
  unfold placeholderLexemes
  rw [List.map_cons, List.map_cons, List.intercalate_cons_cons]
  rfl

theorem lexes_placeholders (vs : List Value) :
    Lexes (join ", " (vs.map fun _ => "?")) (placeholderLexemes vs) := by
  refine Lexes.join (by decide : Lexes ", " [.mark ',']) (by decide) (by decide) ?_
  rw [List.forall₂_map_left_iff, List.forall₂_map_right_iff, List.forall₂_same]
  exact fun _ _ => by decide

theorem mem_placeholderLexemes {vs : List Value} {l : Lexeme} (h : l ∈ placeholderLexemes vs) :
    l = .mark '?' ∨ l = .mark ',' := by
  induction vs with
  | nil => cases h
  | cons v vs ih =>
    cases vs with
    | nil => exact .inl (List.mem_singleton.1 h)
    | cons w vs =>
      rw [placeholderLexemes_cons_cons, List.mem_cons, List.mem_cons] at h
      rcases h with h | h | h
      · exact .inl h
      · exact .inr h
      · exact ih h

theorem count_placeholderLexemes (vs : List Value) :
    (placeholderLexemes vs).count (.mark '?') = vs.length := by
  induction vs with
  | nil => rfl
  | cons v vs ih =>
    cases vs with
    | nil => rfl
    | cons w vs =>
      have hcomma : Lexeme.mark ',' ≠ .mark '?' := by decide
      rw [placeholderLexemes_cons_cons, List.count_cons_self, List.count_cons_of_ne hcomma, ih]
      rfl

/-- The lexemes of an operator around placeholders. -/
def operatorLexemes (d : Dialect) (op : Operator) (vs : List Value) : List Lexeme :=
  lexemes (d.keyword op) ++
    if op.isSetMembership then .mark '(' :: placeholderLexemes vs ++ [.mark ')']
    else placeholderLexemes vs

theorem keyword_lexemes (d : Dialect) (op : Operator) :
    (d.keyword op).toList.foldl quoteAfter none = none ∧
      (∀ l ∈ lexemes (d.keyword op), l.isInner = true) ∧
        .mark '?' ∉ lexemes (d.keyword op) := by
  cases d <;> cases op <;> decide

theorem lexes_around (d : Dialect) (op : Operator) (vs : List Value) :
    Lexes (d.around op (vs.map fun _ => "?")) (operatorLexemes d op vs) := by
  have hkeyword : Lexes (d.keyword op) (lexemes (d.keyword op)) := ⟨(keyword_lexemes d op).1, rfl⟩
  have hmarks := lexes_placeholders vs
  unfold Dialect.around Operator.brackets operatorLexemes
  cases hnull : op.isNullCheck with
  | true =>
    have hset : op.isSetMembership = false := by cases op <;> first | rfl | cases hnull
    rw [hset, if_pos rfl, if_neg (by simp), String.append_empty, String.append_empty]
    exact hkeyword.before hmarks (front_placeholders vs)
  | false =>
    cases op.isSetMembership with
    | true =>
      have hopen := hkeyword.before (by decide : Lexes " (" [.mark '(']) (by decide)
      have hlist := hopen.behind hmarks (back_append (by decide) _)
      have hall := hlist.before (by decide : Lexes ")" [.mark ')']) (by decide)
      simpa only [Bool.false_eq_true, if_false, if_true, List.append_assoc, List.cons_append,
        List.nil_append] using hall
    | false =>
      have hblank := hkeyword.before (by decide : Lexes " " []) (by decide)
      have hall := hblank.before hmarks (front_placeholders vs)
      simpa only [Bool.false_eq_true, if_false, List.append_nil, String.append_empty] using hall

theorem continues_operator (d : Dialect) (op : Operator) (vs : List Value) :
    Continues (operatorLexemes d op vs) := by
  refine (Continues.inner (keyword_lexemes d op).2.1).append ?_
  split
  · refine Continues.group fun l hl => ?_
    rcases mem_placeholderLexemes hl with rfl | rfl <;> decide
  · refine Continues.inner fun l hl => ?_
    rcases mem_placeholderLexemes hl with rfl | rfl <;> decide

theorem count_operatorLexemes (d : Dialect) (op : Operator) (vs : List Value) :
    (operatorLexemes d op vs).count (.mark '?') = vs.length := by
  rw [operatorLexemes, List.count_append, List.count_eq_zero.2 (keyword_lexemes d op).2.2,
    Nat.zero_add]
  split
  · simp [count_placeholderLexemes]
  · exact count_placeholderLexemes vs

/-- A list of placeholders is no inner query. -/
theorem operatorLexemes_ne_select (d : Dialect) (op : Operator) (vs : List Value)
    (more rest : List Lexeme) :
    operatorLexemes d op vs ++ more ≠ .word "IN" :: .mark '(' :: .word "SELECT" :: rest := by
  intro h
  -- no other operator starts with IN, and behind its parenthesis stands a placeholder
  by_cases hop : op = .isIn
  · subst hop
    have hkeyword : lexemes (d.keyword .isIn) = [.word "IN"] := by cases d <;> decide
    have hlist : operatorLexemes d .isIn vs =
        [.word "IN"] ++ (.mark '(' :: placeholderLexemes vs ++ [.mark ')']) := by
      rw [operatorLexemes, hkeyword]
      rfl
    rw [hlist] at h
    rcases vs with _ | ⟨v, _ | ⟨w, vs⟩⟩
    · cases h
    · cases h
    · rw [placeholderLexemes_cons_cons] at h
      cases h
  · have hfirst : ∀ l ∈ (lexemes (d.keyword op)).head?, l ≠ .word "IN" := by
      cases op <;> first | exact absurd rfl hop | (cases d <;> decide)
    have hne : lexemes (d.keyword op) ≠ [] := by cases d <;> cases op <;> decide
    obtain ⟨l, ls, hls⟩ := List.exists_cons_of_ne_nil hne
    rw [operatorLexemes, hls] at h
    exact hfirst l (by rw [hls]; rfl) (List.cons.inj h).1

/-- The SQL of an operator is read as one comparison. -/
theorem legible_around {column : ColumnRef} (hcolumn : isIdentifier column.column = true)
    (d : Dialect) (op : Operator) (vs : List Value) :
    Test.Legible ⟨column, d.around op (vs.map fun _ => "?"), vs⟩ := by
  have hlexes := lexes_around d op vs
  refine ⟨hcolumn, hlexes.closed, ?_, ?_, ?_⟩ <;> dsimp only <;> rw [hlexes.lexemes]
  · exact continues_operator d op vs
  · exact count_operatorLexemes d op vs
  · exact operatorLexemes_ne_select d op vs

theorem Compiler.Accepts.legible {k : Compiler} {l : Comparison} (h : k.Accepts l)
    (hc : k.catalog.WellFormed) (hm : k.model ∈ k.catalog.models) :
    (k.test l).spread.Legible := by
  obtain ⟨r, f, hr, -, htest⟩ := h.test_eq
  have hbound := resolve_chained hc hm (.inl rfl) hr
  have hcolumn : isIdentifier (k.test l).column.column = true := by
    rw [htest]
    exact hbound.2.2
  rw [h.spread_eq]
  exact legible_around hcolumn k.dialect l.operator l.operands

/-! ## Conditions -/

/-- What a token is cut into. -/
def WhereToken.phrase : WhereToken → Phrase
  | atom sql => .comparison (lexemes sql)
  | and => .symbol .and
  | or => .symbol .or
  | not => .symbol .not
  | opening => .symbol .opening
  | closing => .symbol .closing

/-- The lexemes of tokens. -/
def tokenLexemes (ts : List WhereToken) : List Lexeme := ts.flatMap fun t => lexemes t.text

theorem tokenLexemes_append (ts us : List WhereToken) :
    tokenLexemes (ts ++ us) = tokenLexemes ts ++ tokenLexemes us := List.flatMap_append

/-- Tokens are cut into the phrases of each token by itself. -/
def CutsTokens (ts : List WhereToken) : Prop :=
  Cuts (tokenLexemes ts) (ts.map WhereToken.phrase)

theorem cutsTokens_atom {sql : String} (h : IsComparison (lexemes sql)) :
    CutsTokens [.atom sql] := by
  have hlexemes : tokenLexemes [.atom sql] = lexemes sql := List.append_nil _
  rw [CutsTokens, hlexemes]
  exact .comparison h

theorem cutsTokens_group {ts : List WhereToken} (h : CutsTokens ts) :
    CutsTokens (.opening :: ts ++ [.closing]) := by
  have hlexemes : tokenLexemes (.opening :: ts ++ [.closing]) =
      .mark '(' :: tokenLexemes ts ++ [.mark ')'] := by
    rw [tokenLexemes_append]
    rfl
  have hphrases : (WhereToken.opening :: ts ++ [WhereToken.closing]).map WhereToken.phrase =
      .symbol .opening :: ts.map WhereToken.phrase ++ [.symbol .closing] := List.map_append
  rw [CutsTokens, hlexemes, hphrases]
  exact h.group

theorem cutsTokens_link {link : Link} {ts : List WhereToken} (h : CutsTokens ts) :
    CutsTokens (linkTokens true link ++ ts) := by
  obtain ⟨isOr, isNot⟩ := link
  cases isNot with
  | false => exact h
  | true => exact Cuts.not h

section

variable {tests : Comparison → Test}

mutual
theorem cutsTokens_term : ∀ node : Node, node.Solid → (∀ l ∈ node.leaves, (tests l).Legible) →
    CutsTokens ((node.term tests).tokens true)
  | .leaf link path operator argument, _, h => by
    have hleaf := h ⟨path, operator, argument⟩ (by simp [Node.leaves])
    rw [Node.term, Term.tokens]
    exact cutsTokens_link (cutsTokens_atom hleaf.isComparison)
  | .group link nodes, hsolid, h => by
    rw [Node.term, Term.tokens, List.append_assoc]
    exact cutsTokens_link (cutsTokens_group (cutsTokens_terms nodes hsolid.2 hsolid.1 h))

/-- The terms behind a run are cut one after the other. -/
theorem cutsTokens_rest : ∀ nodes : List Node, SolidAll nodes →
    (∀ l ∈ leavesAll nodes, (tests l).Legible) → ∀ {front : List WhereToken}, CutsTokens front →
      CutsTokens (front ++ termTokens false (termsOf tests nodes))
  | [], _, _, front, hfront => by
    rwa [termsOf, termTokens, List.append_nil]
  | node :: rest, hsolid, h, front, hfront => by
    have hnode := cutsTokens_term node hsolid.1 fun l hl => h l (by simp [leavesAll, hl])
    have hnext : CutsTokens (front ++ (node.term tests).tokens false) := by
      rw [Term.tokens_false]
      unfold CutsTokens at hfront hnode ⊢
      rw [tokenLexemes_append, List.map_append]
      split
      · exact hfront.or hnode
      · exact hfront.and hnode
    have hall := cutsTokens_rest rest hsolid.2 (fun l hl => h l (by simp [leavesAll, hl])) hnext
    rwa [List.append_assoc] at hall

theorem cutsTokens_terms : ∀ nodes : List Node, SolidAll nodes → nodes ≠ [] →
    (∀ l ∈ leavesAll nodes, (tests l).Legible) → CutsTokens (termTokens true (termsOf tests nodes))
  | [], _, hne, _ => absurd rfl hne
  | node :: rest, hsolid, _, h =>
    cutsTokens_rest rest hsolid.2 (fun l hl => h l (by simp [leavesAll, hl]))
      (cutsTokens_term node hsolid.1 fun l hl => h l (by simp [leavesAll, hl]))
end

end

section

variable {κ : Type} (judge : Judge κ) (scope : Scope κ)

/-- What a database says of a test. -/
def Test.truth (test : Test) : Truth :=
  judge (lexemes test.fragment.sql) test.fragment.args (cell scope test.column)

/-- Each comparison takes the arguments of its own test. -/
theorem symbolsAt_tokens (ts : List WhereToken) {tests : List Test}
    (hatoms : atomsOf ts = tests.map Test.text) (h : ∀ test ∈ tests, test.Legible) :
    symbolsAt judge scope (tests.flatMap fun test => test.fragment.args)
        (ts.map WhereToken.phrase) =
      some (symbolsOf ts (tests.map (Test.truth judge scope))) := by
  induction ts generalizing tests with
  | nil =>
    cases tests with
    | nil => rfl
    | cons => cases hatoms
  | cons t ts ih =>
    cases t with
    | atom sql =>
      cases tests with
      | nil => cases hatoms
      | cons test tests =>
        obtain ⟨htest, htests⟩ := List.forall_mem_cons.1 h
        obtain ⟨rfl, hrest⟩ := List.cons.inj hatoms
        have hphrase : (WhereToken.atom test.text).phrase = .comparison (.name
            test.column.aliasName :: .mark '.' :: .word test.column.column ::
              lexemes test.fragment.sql) := by
          rw [WhereToken.phrase, htest.lexes_text.lexemes]
        rw [List.map_cons, hphrase, List.flatMap_cons, symbolsAt, htest.count, List.drop_left,
          List.take_left, ih hrest htests]
        rfl
    | and | or | not | opening | closing =>
      rw [List.map_cons, WhereToken.phrase, symbolsAt, ih hatoms h]
      rfl

theorem lexes_clauseText {tests : Comparison → Test} {nodes : List Node}
    (h : ∀ l ∈ leavesAll nodes, (tests l).Legible) :
    Lexes (clauseText tests nodes) (if nodes.isEmpty then []
      else .word "WHERE" :: tokenLexemes (termTokens true (termsOf tests nodes))) := by
  unfold clauseText
  split
  · exact ⟨rfl, rfl⟩
  · have hatoms : ∀ sql ∈ atomsOf (termTokens true (termsOf tests nodes)),
        sql.toList.foldl quoteAfter none = none := by
      intro sql hsql
      rw [atomsOf_terms] at hsql
      obtain ⟨l, hl, rfl⟩ := List.mem_map.1 hsql
      exact (h l hl).lexes_text.closed
    exact (by decide : Lexes "WHERE " [.word "WHERE"]).behind (lexes_tokensText hatoms) (by decide)

theorem isClause_clauseText {tests : Comparison → Test} {nodes : List Node}
    (h : ∀ l ∈ leavesAll nodes, (tests l).Legible) :
    IsClause (lexemes (clauseText tests nodes)) := by
  rw [(lexes_clauseText h).lexemes]
  split
  · exact .inl rfl
  · exact .inr ⟨_, rfl⟩

/-- The clause of a condition does not look for rows in an inner query. -/
theorem innerQuery?_clauseText {tests : Comparison → Test} {nodes : List Node}
    (h : ∀ l ∈ leavesAll nodes, (tests l).Legible) :
    innerQuery? (lexemes (clauseText tests nodes)) = none := by
  rw [(lexes_clauseText h).lexemes]
  cases nodes with
  | nil => rfl
  | cons node rest =>
    rw [List.isEmpty_cons, if_neg (by simp), termsOf, termTokens, tokenLexemes_append]
    cases node with
    | leaf link path operator argument =>
      have hleaf := h ⟨path, operator, argument⟩ (by simp [leavesAll, Node.leaves])
      obtain ⟨isOr, isNot⟩ := link
      cases isNot with
      | true => rfl
      | false =>
        have htext : tokenLexemes (((Node.leaf ⟨isOr, false⟩ path operator argument).term
            tests).tokens true) = lexemes (tests ⟨path, operator, argument⟩).text :=
          List.append_nil _
        rw [htext, hleaf.lexes_text.lexemes]
        exact innerQuery?_eq_none fun more => hleaf.direct _ more
    | group link nodes =>
      obtain ⟨isOr, isNot⟩ := link
      cases isNot <;> rfl

/-- A clause or nothing, that looks for no row in an inner query. -/
structure DirectClause (clause : String) : Prop where
  closed : clause.toList.foldl quoteAfter none = none
  isClause : IsClause (lexemes clause)
  direct : innerQuery? (lexemes clause) = none

theorem DirectClause.lexes {clause : String} (h : DirectClause clause) :
    Lexes clause (lexemes clause) :=
  ⟨h.closed, rfl⟩

theorem directClause_clauseText {tests : Comparison → Test} {nodes : List Node}
    (h : ∀ l ∈ leavesAll nodes, (tests l).Legible) : DirectClause (clauseText tests nodes) :=
  ⟨(lexes_clauseText h).closed, isClause_clauseText h, innerQuery?_clauseText h⟩

/-- The clause of a condition holds for a joined row just if the condition does. -/
theorem clauseHolds_clauseText {tests : Comparison → Test} {nodes : List Node}
    (hsolid : SolidAll nodes) (h : ∀ l ∈ leavesAll nodes, (tests l).Legible) :
    ClauseHolds judge ((leavesAll nodes).flatMap fun l => (tests l).fragment.args) scope
        (lexemes (clauseText tests nodes)) ↔
      conditionValue nodes ((leavesAll nodes).map fun l => (tests l).truth judge scope) =
        .holds := by
  rw [(lexes_clauseText h).lexemes]
  cases nodes with
  | nil => exact iff_of_true rfl rfl
  | cons node rest =>
    have hne : node :: rest ≠ [] := List.cons_ne_nil _ _
    have hphrases := (cutsTokens_terms (node :: rest) hsolid hne h).phrases_eq
    have hatoms : atomsOf (termTokens true (termsOf tests (node :: rest))) =
        ((leavesAll (node :: rest)).map tests).map Test.text := by
      rw [atomsOf_terms, List.map_map]
      rfl
    have hsymbols := symbolsAt_tokens judge scope _ hatoms (List.forall_mem_map.2 h)
    rw [List.flatMap_map, List.map_map] at hsymbols
    have hreads : Reads .disjunction
        (symbolsOf (termTokens true (termsOf tests (node :: rest))) _) _ :=
      reads_terms (node :: rest) hsolid hne
        ((leavesAll (node :: rest)).map fun l => (tests l).truth judge scope)
    simp only [List.isEmpty_cons, Bool.false_eq_true, if_false, ClauseHolds, true_and, hphrases,
      hsymbols, Option.some.injEq, exists_eq_left']
    constructor
    · exact fun hholds => hreads.unique hholds
    · intro hvalue
      rw [← hvalue]
      exact hreads

end

end RecordModel
