import RecordModel.Proofs.Query.Chained
import RecordModel.Proofs.Query.Rows
import RecordModel.Proofs.Sql.Scopes

/-!
# Scoping of statements

The joins of a statement are gathered path by path, while its columns are written apart from
them. Both come from walking the same paths, so every column of a statement is one of a table in
the FROM clause of its own SELECT, or of the table that the statement writes (`Selection.Placed`,
`Target.Placed`). Here this is shown of the finished text, read back into its blocks.

Results:
* `Compiler.plan_scoped`: what is planned is scoped.
* `Compiler.plan_blocks`: the text of a plan has the blocks of the plan.
* `run_scoped`: every compiled statement but an insertion is scoped.
-/
namespace RecordModel

open RecordModel.Text RecordModel.Number RecordModel.Sql

/-! ## Blocks of plans -/

/-- What the text of a join binds. -/
def Join.source (j : Join) : Source :=
  ⟨j.table, j.aliasName, (j.link.map fun link => [link.previous, j.aliasName]).getD []⟩

/-- The columns of a SELECT statement, outside of ON conditions. -/
def Selection.references (s : Selection) : List ColumnRef :=
  s.columns.map Projection.column ++ (termTests s.terms).map Test.column ++ s.groups ++
    s.orders.map OrderItem.column

/-- What a SELECT statement binds, and the aliases that it refers to. -/
def Selection.block (s : Selection) : Block :=
  ⟨s.joins.map Join.source, s.references.map ColumnRef.aliasName⟩

def Target.references (t : Target) : List ColumnRef := (termTests t.terms).map Test.column

/-- What an update or a deletion binds: its table, and the joins of its inner query if it has
one. -/
def Target.blocks (t : Target) : List Block :=
  if hasJoins t.joins then
    [⟨t.joins.map Join.source, t.table :: t.references.map ColumnRef.aliasName⟩,
      ⟨[⟨t.table, t.table, []⟩], [t.table]⟩]
  else [⟨[⟨t.table, t.table, []⟩], t.references.map ColumnRef.aliasName⟩]

/-- The blocks of a statement that is not an insertion. What counts the rows of a SELECT statement
refers to no column of it. -/
def Plan.blocks : Plan → List Block
  | select s => [s.block]
  | count s => [s.block, ⟨[], []⟩]
  | insert _ => []
  | update t _ | delete t => t.blocks

/-- Each column outside of ON conditions is one of a table that the block binds once, the root
table comes first, and each other table has an ON condition, which refers to it and to one table
before it. -/
structure Sql.Block.Scoped (root : String) (b : Block) : Prop where
  aliases_nodup : (b.sources.map Source.aliasName).Nodup
  bound_once : ∀ a ∈ b.uses, (b.sources.map Source.aliasName).count a = 1
  root_first : ∀ source ∈ b.sources.head?, source = ⟨root, root, []⟩
  tied : ∀ before source behind, b.sources = before ++ source :: behind → before ≠ [] →
    ∃ previous ∈ before.map Source.aliasName, source.conditions = [previous, source.aliasName]

/-- A statement on the root table alone. -/
theorem scoped_single {root : String} {uses : List String} (h : ∀ a ∈ uses, a = root) :
    Block.Scoped root ⟨[⟨root, root, []⟩], uses⟩ where
  aliases_nodup := List.nodup_singleton _
  bound_once a ha := by
    rw [h a ha]
    exact List.count_singleton_self
  root_first source hsource := (Option.mem_some.1 hsource).symm
  tied before source behind hsources hne := by
    obtain ⟨b, before, rfl⟩ := List.exists_cons_of_ne_nil hne
    cases before <;> cases hsources

theorem scoped_none (root : String) : Block.Scoped root ⟨[], []⟩ where
  aliases_nodup := .nil
  bound_once := by simp
  root_first := by simp
  tied := by simp

theorem map_source_aliasName (set : List Join) :
    (set.map Join.source).map Source.aliasName = set.map Join.aliasName := by
  rw [List.map_map]
  rfl

/-- The columns of joined tables. -/
theorem Chained.scoped {root : Model} {set : List Join} (h : Chained root set)
    {refs : List String} (hrefs : ∀ a ∈ refs, a ∈ set.map Join.aliasName) :
    Block.Scoped root.table ⟨set.map Join.source, refs⟩ where
  aliases_nodup := by
    rw [map_source_aliasName]
    exact h.aliases_nodup
  bound_once a ha := by
    rw [map_source_aliasName]
    exact List.count_eq_one_of_mem h.aliases_nodup (hrefs a ha)
  root_first source hsource := by
    obtain ⟨joins, rfl⟩ := h.root_first
    exact (Option.mem_some.1 hsource).symm
  tied before source behind hsources hne := by
    obtain ⟨before', rest, rfl, rfl, hrest⟩ := List.map_eq_append_iff.1 hsources
    obtain ⟨j, behind', rfl, rfl, -⟩ := List.map_eq_cons_iff.1 hrest
    obtain ⟨link, hlink, hprevious⟩ := h.tied rfl (by simpa using hne)
    rw [map_source_aliasName]
    exact ⟨link.previous, hprevious, by simp [Join.source, hlink]⟩

/-- The columns of a SELECT statement are columns of its tables. -/
theorem Selection.Placed.bound {s : Selection} {root : Model} (hs : s.Placed root) :
    ∀ r ∈ s.references, r.Bound s.joins := by
  simp only [Selection.references, List.forall_mem_append, List.forall_mem_map]
  exact ⟨⟨⟨hs.columns, hs.terms⟩, hs.groups⟩, hs.orders⟩

theorem Selection.Placed.scoped {s : Selection} {root : Model} (hs : s.Placed root) :
    s.block.Scoped root.table :=
  hs.joins.scoped (List.forall_mem_map.2 fun r hr => (hs.bound r hr).1)

namespace Compiler

variable {k : Compiler} (hc : k.catalog.WellFormed) (hm : k.model ∈ k.catalog.models)

include hc hm

theorem target_scoped {t : Target} (h : k.target = .ok t) :
    ∀ b ∈ t.blocks, b.Scoped k.model.table := by
  have ht := target_placed hc hm h
  have hbound : ∀ r ∈ t.references, r.Bound t.joins := List.forall_mem_map.2 ht.terms
  unfold Target.blocks
  rw [ht.table]
  split
  · rename_i hjoined
    have hchained := ht.chained hjoined
    have hrefs : ∀ a ∈ k.model.table :: t.references.map ColumnRef.aliasName,
        a ∈ t.joins.map Join.aliasName :=
      List.forall_mem_cons.2
        ⟨hchained.root_mem, List.forall_mem_map.2 fun r hr => (hbound r hr).1⟩
    have hown : ∀ a ∈ [k.model.table], a = k.model.table := by simp
    exact List.forall_mem_cons.2
      ⟨hchained.scoped hrefs, List.forall_mem_singleton.2 (scoped_single hown)⟩
  · rename_i hjoined
    refine List.forall_mem_singleton.2 (scoped_single (List.forall_mem_map.2 fun r hr => ?_))
    have hmem := (hbound r hr).1
    rcases ht.alone (by simpa using hjoined) with hnil | hroot
    · rw [hnil] at hmem
      cases hmem
    · rw [hroot] at hmem
      exact (List.mem_singleton.1 hmem).trans ht.table

/-- What is planned is scoped. -/
theorem plan_scoped {op : Operation} {p : Plan} (h : k.plan op = .ok p) :
    ∀ b ∈ p.blocks, b.Scoped k.model.table := by
  cases op with
  | select =>
    obtain ⟨s, hs, h⟩ := bind_eq_ok.1 h
    cases h
    exact List.forall_mem_singleton.2 (selection_placed hc hm hs).scoped
  | count =>
    obtain ⟨s, hs, h⟩ := bind_eq_ok.1 h
    cases h
    exact List.forall_mem_cons.2
      ⟨(selection_placed hc hm hs).scoped, List.forall_mem_singleton.2 (scoped_none _)⟩
  | insert payload =>
    obtain ⟨assignments, -, h⟩ := bind_eq_ok.1 h
    cases h
    exact fun b hb => absurd hb List.not_mem_nil
  | update payload =>
    obtain ⟨assignments, -, h⟩ := bind_eq_ok.1 h
    obtain ⟨t, ht, h⟩ := bind_eq_ok.1 h
    cases h
    exact target_scoped hc hm ht
  | delete =>
    obtain ⟨t, ht, h⟩ := bind_eq_ok.1 h
    cases h
    exact target_scoped hc hm ht

end Compiler

/-! ## Texts of joins and columns -/

/-- The lexemes of a table in a FROM clause. -/
def Join.lexemes (j : Join) : List Lexeme :=
  match j.link with
  | none => [.name j.table]
  | some link =>
    [.word (if link.required then "INNER" else "LEFT"), .word "JOIN"] ++
      [.name j.table, .word "AS", .name j.aliasName] ++ [.word "ON"] ++
        [.name link.previous, .mark '.', .word link.column] ++ [.mark '='] ++
          [.name j.aliasName, .mark '.', .word idField]

theorem Join.lexes_text {j : Join} (h : ∀ link ∈ j.link, isIdentifier link.column = true) :
    Lexes j.text j.lexemes := by
  unfold Join.text Join.lexemes
  cases hlink : j.link with
  | none => exact lexes_quoteName j.table
  | some link =>
    have hkind : Lexes (if link.required then "INNER JOIN " else "LEFT JOIN ")
        [.word (if link.required then "INNER" else "LEFT"), .word "JOIN"] ∧
          Back (if link.required then "INNER JOIN " else "LEFT JOIN ").toList := by
      split <;> decide
    have hkey : isIdentifier idField = true := by decide
    have htable := hkind.1.behind (lexes_quoteName j.table) hkind.2
    have has := htable.before (by decide : Lexes " AS " [.word "AS"]) (by decide)
    have halias := has.behind (lexes_quoteName j.aliasName) (back_append (by decide) _)
    have hon := halias.before (by decide : Lexes " ON " [.word "ON"]) (by decide)
    have hleft := hon.behind (lexes_column link.previous (h link hlink))
      (back_append (by decide) _)
    have hequals := hleft.before (by decide : Lexes " = " [.mark '=']) (by decide)
    have hall := hequals.behind (lexes_column j.aliasName hkey) (back_append (by decide) _)
    exact hall

/-- The text of a join binds one table. -/
theorem Join.adds_text {j : Join} {link : JoinLink} (hlink : j.link = some link)
    (hcolumn : isIdentifier link.column = true) :
    Adds .univ j.text (.ofSources [j.source]) {.condition} := by
  have hkind : (if link.required then "INNER" else "LEFT") = "INNER" ∨
      (if link.required then "INNER" else "LEFT") = "LEFT" := by
    split <;> simp
  have hlexes : Lexes j.text j.lexemes :=
    Join.lexes_text fun l hl => by
      cases hlink.symm.trans hl
      exact hcolumn
  have hsource : j.source = ⟨j.table, j.aliasName, [link.previous, j.aliasName]⟩ := by
    simp [Join.source, hlink]
  rw [Join.lexemes, hlink] at hlexes
  rw [hsource]
  exact hlexes.adds (Effect.joined hkind j.table j.aliasName link.previous link.column idField)

/-- A FROM clause binds its tables. -/
theorem Chained.adds_joinsText {root : Model} {set : List Join} (h : Chained root set) :
    Adds {.table} (joinsText set) (.ofSources (set.map Join.source)) .univ := by
  have hall : AddsAll {.table} (set.map Join.text) (.ofSources (set.map Join.source)) .univ := by
    induction h with
    | root =>
      have htable := (lexes_quoteName root.table).adds (.table root.table)
      exact .single htable.to_univ
    | grow _ hlink _ hcolumn _ ih =>
      rw [List.map_append, List.map_append, Scopes.ofSources_append]
      have hjoin := Join.adds_text hlink hcolumn
      exact ih.append (.single hjoin.to_univ)
  exact hall.join

theorem ColumnRef.Bound.adds_text {set : List Join} {r : ColumnRef} (h : r.Bound set) :
    Adds {.other} r.text (.ofUses [r.aliasName]) {.other} :=
  .column r.aliasName h.2

theorem Projection.adds_text {set : List Join} {p : Projection} (h : p.column.Bound set) :
    Adds {.other} p.text (.ofUses [p.column.aliasName]) {.other} := by
  have hlabel := ((by decide : Lexes " AS " [.word "AS"]).behind (lexes_quoteName p.label)
    (by decide)).adds (.label p.label)
  rw [Projection.text, String.append_assoc]
  exact h.adds_text.before hlabel (front_append (by decide) (by decide) _)

theorem OrderItem.adds_text {set : List Join} {o : OrderItem} (h : o.column.Bound set) :
    Adds {.other} o.text (.ofUses [o.column.aliasName]) {.other} := by
  unfold OrderItem.text
  split
  · exact h.adds_text
  · exact h.adds_text.before (.neutral _ (by decide) (by decide)) (by decide)
  · exact h.adds_text.before (.neutral _ (by decide) (by decide)) (by decide)

/-! ## Texts of conditions -/

theorem adds_placeholders (vs : List Value) :
    Adds {.other} (join ", " (vs.map fun _ => "?")) .none {.other} := by
  have hmark : Adds {.other} "?" (.ofUses []) {.other} := .neutral _ (by decide) (by decide)
  have hall : Adds {.other} (join ", " (vs.map fun _ => "?"))
      (.ofUses (vs.flatMap fun _ => [])) {.other} :=
    .list fun v _ => hmark
  have hnone : (vs.flatMap fun _ => ([] : List String)) = [] := List.flatMap_eq_nil_iff.2 (by simp)
  rwa [hnone] at hall

theorem front_placeholders (vs : List Value) :
    Front (join ", " (vs.map fun _ => "?")).toList := by
  rcases vs with _ | ⟨v, _ | ⟨w, vs⟩⟩
  · exact (by decide : Front "".toList)
  · exact (by decide : Front "?".toList)
  · have hfront : Front ("?" ++ ", ").toList := by decide
    exact front_append hfront (by decide) _

/-- The SQL of an operator refers to no column. -/
theorem adds_around (d : Dialect) (op : Operator) (vs : List Value) :
    Adds {.other} (d.around op (vs.map fun _ => "?")) .none {.other} := by
  have hkeyword : Adds {.other} (d.keyword op) .none {.other} := by
    cases d <;> cases op <;> exact .neutral _ (by decide) (by decide)
  have hmarks := adds_placeholders vs
  have hfront := front_placeholders vs
  unfold Dialect.around Operator.brackets
  split
  · have hall := hkeyword.before hmarks hfront
    rwa [String.append_empty, String.append_empty]
  split
  · have hgroup := hmarks.group (by decide : Lexes " (" [.mark '(']) (by decide)
    rw [String.append_assoc] at hgroup
    have hall := hkeyword.before hgroup (front_append (by decide) (by decide) _)
    rwa [← String.append_assoc, ← String.append_assoc] at hall
  · have hblank : Adds {.other} " " .none {.other} := .neutral _ (by decide) (by decide)
    rw [String.append_empty]
    exact (hkeyword.before hblank (by decide)).before hmarks hfront

namespace Compiler

/-- A leaf refers to its column. -/
theorem Accepts.adds_text {k : Compiler} {l : Comparison} (h : k.Accepts l)
    {set : List Join} (hbound : (k.test l).column.Bound set) :
    Adds {.other} (k.test l).spread.text (.ofUses [(k.test l).column.aliasName]) {.other} := by
  have hblank : Adds {.other} " " .none {.other} := .neutral _ (by decide) (by decide)
  rw [h.spread_eq]
  exact (hbound.adds_text.before hblank (by decide)).append
    (adds_around k.dialect l.operator (l.operator.operands l.argument))
    (.inl (back_append (by decide) _))

end Compiler

theorem effect_link (first : Bool) (link : Link) :
    Effect {.other} ((linkTokens first link).flatMap fun t => lexemes t.text) .none {.other} := by
  obtain ⟨isOr, isNot⟩ := link
  cases first <;> cases isOr <;> cases isNot <;> exact .neutral _ (by decide)

mutual
/-- The tokens of a term refer to the columns of its leaves. -/
theorem effect_term {tests : Comparison → Test} : ∀ (node : Node) (first : Bool),
    (∀ l ∈ node.leaves,
      Adds {.other} (tests l).text (.ofUses [(tests l).column.aliasName]) {.other}) →
        Effect {.other} (((node.term tests).tokens first).flatMap fun t => lexemes t.text)
          (.ofUses (node.leaves.map fun l => (tests l).column.aliasName)) {.other}
  | .leaf link path operator argument, first, h => by
    have hleaf := h ⟨path, operator, argument⟩ (by simp [Node.leaves])
    have hall := (effect_link first link).append hleaf.effect
    rw [Scopes.none_append] at hall
    rw [Node.term, Term.tokens, List.flatMap_append, List.flatMap_singleton]
    exact hall
  | .group link nodes, first, h => by
    have hinner := (effect_terms nodes true h).group
    have hall := (effect_link first link).append hinner
    rw [Scopes.none_append] at hall
    have hopening : lexemes WhereToken.opening.text = [.mark '('] := by decide
    have hclosing : lexemes WhereToken.closing.text = [.mark ')'] := by decide
    simp only [Node.term, Term.tokens, List.append_assoc, List.cons_append, List.flatMap_append,
      List.flatMap_cons, List.flatMap_nil, List.append_nil, hopening, hclosing, List.nil_append]
    exact hall

theorem effect_terms {tests : Comparison → Test} : ∀ (nodes : List Node) (first : Bool),
    (∀ l ∈ leavesAll nodes,
      Adds {.other} (tests l).text (.ofUses [(tests l).column.aliasName]) {.other}) →
        Effect {.other} ((termTokens first (termsOf tests nodes)).flatMap fun t => lexemes t.text)
          (.ofUses ((leavesAll nodes).map fun l => (tests l).column.aliasName)) {.other}
  | [], _, _ => .nil _
  | node :: rest, first, h => by
    have hnode := effect_term node first fun l hl => h l (by simp [leavesAll, hl])
    have hrest := effect_terms rest false fun l hl => h l (by simp [leavesAll, hl])
    rw [termsOf, termTokens, List.flatMap_append, leavesAll, List.map_append,
      Scopes.ofUses_append]
    exact hnode.append hrest
end

/-- A clause refers to the columns of its leaves. -/
theorem adds_clauseText {tests : Comparison → Test} {nodes : List Node}
    (h : ∀ l ∈ leavesAll nodes,
      Adds {.other} (tests l).text (.ofUses [(tests l).column.aliasName]) {.other}) :
    Adds .univ (clauseText tests nodes)
      (.ofUses ((leavesAll nodes).map fun l => (tests l).column.aliasName)) .univ := by
  cases nodes with
  | nil => exact ⟨rfl, .nil _⟩
  | cons node rest =>
    have hatoms : ∀ sql ∈ atomsOf (termTokens true (termsOf tests (node :: rest))),
        sql.toList.foldl quoteAfter none = none := by
      intro sql hsql
      rw [atomsOf_terms] at hsql
      obtain ⟨l, hl, rfl⟩ := List.mem_map.1 hsql
      exact (h l hl).closed
    have htokens := (lexes_tokensText hatoms).adds (effect_terms (node :: rest) true h)
    have hwhere : Adds .univ "WHERE " .none {.other} :=
      .keyword (by decide : Lexes _ [.word "WHERE"]) rfl (by decide) (by decide) (by decide)
    exact (htokens.behind hwhere (by decide)).to_univ

/-! ## Texts of statements -/

theorem adds_part {s : String} {sc : Scopes} (h : Adds .univ s sc .univ)
    (hempty : s = "" → sc = .none) : AddsAll .univ (part s) sc .univ := by
  unfold part
  split
  · rename_i hs
    rw [hempty (by simpa using hs)]
    exact .nil _
  · exact .single h

theorem adds_listPart {α : Type} {keyword : String}
    (hkeyword : Adds .univ (keyword ++ " ") .none {.other}) {text uses : α → String} {xs : List α}
    (h : ∀ x ∈ xs, Adds {.other} (text x) (.ofUses [uses x]) {.other}) :
    AddsAll .univ (listPart keyword (xs.map text)) (.ofUses (xs.map uses)) .univ := by
  unfold listPart
  cases xs with
  | nil => exact .nil _
  | cons x xs =>
    have hall := (Adds.columns h).behind hkeyword (back_append (by decide) keyword)
    exact .single hall.to_univ

theorem adds_limitOffset (d : Dialect) (limit offset : Nat) :
    Adds .univ (d.limitOffsetSql limit offset) .none .univ := by
  have hnumber {word : String} {w : String} (hword : Lexes word [.word w])
      (hneutral : (Lexeme.word w).isNeutral = true) (hback : Back word.toList) (n : Nat) :
      Adds .univ (word ++ natText n) .none .univ := by
    refine (hword.behind (lexes_natText n) hback).adds (.neutral _ ?_)
    exact List.forall_mem_cons.2 ⟨hneutral, List.forall_mem_singleton.2 (isNeutral_natText n)⟩
  obtain ⟨ss, htext, hss⟩ := limitOffsetSql_eq d limit offset
  rw [htext]
  refine (AddsAll.of_forall fun s hs => ?_).join
  rcases hss s hs with rfl | rfl | rfl
  · exact .neutral _ (by decide) (by decide)
  · exact hnumber (by decide : Lexes _ [.word "LIMIT"]) rfl (by decide) limit
  · exact hnumber (by decide : Lexes _ [.word "OFFSET"]) rfl (by decide) offset

theorem adds_withClause {start mid : Set Place} {sql clause : String} {sc sc' : Scopes}
    (hsql : Adds start sql sc mid) (h : Adds .univ clause sc' .univ)
    (hempty : clause = "" → sc' = .none) :
    Adds start (withClause sql clause) (sc ++ sc') .univ := by
  have hblank : Adds mid " " .none mid := .neutral _ (by decide) (by decide)
  unfold withClause
  split
  · rename_i hclause
    rw [hempty (by simpa using hclause), Scopes.append_none]
    exact hsql.to_univ
  · exact (hsql.before hblank (by decide)).append (h.from_univ mid)
      (.inl (back_append (by decide) sql))

/-- What is selected, and the parts behind it. -/
def Selection.parts (s : Selection) (d : Dialect) (clause : String) : List String :=
  (if s.distinct then ["DISTINCT"] else [])
    ++ [join ", " (s.columns.map Projection.text), "FROM", joinsText s.joins]
    ++ part clause
    ++ listPart "GROUP BY" (s.groups.map ColumnRef.text)
    ++ listPart "ORDER BY" (s.orders.map OrderItem.text)
    ++ part (d.limitOffsetSql s.limit s.offset)

theorem Selection.text_eq (s : Selection) (d : Dialect) (clause : String) :
    s.text d clause = "SELECT " ++ join " " (s.parts d clause) := by
  have hblank : "SELECT" ++ " " = "SELECT " := by decide
  unfold Selection.text Selection.parts
  cases s.distinct <;> rw [← hblank] <;> rfl

/-- A clause that refers to the columns of terms, and is empty only if there are none. -/
structure Mentions (terms : List Term) (clause : String) : Prop where
  adds : Adds .univ clause (.ofUses ((termTests terms).map fun t => t.column.aliasName)) .univ
  empty : clause = "" → termTests terms = []

theorem Mentions.eq_none {terms : List Term} {clause : String} (h : Mentions terms clause)
    (hempty : clause = "") :
    Scopes.ofUses ((termTests terms).map fun t => t.column.aliasName) = .none := by
  rw [h.empty hempty]
  rfl

/-- Behind its first word a SELECT statement makes one block. -/
theorem Selection.adds_parts {s : Selection} {root : Model} (hs : s.Placed root) (d : Dialect)
    {clause : String} (hclause : Mentions s.terms clause) :
    Adds {.other} (join " " (s.parts d clause)) ⟨[], s.block⟩ .univ := by
  have hdistinct : AddsAll {.other} (if s.distinct then ["DISTINCT"] else []) .none {.other} := by
    split
    · exact .single (.neutral _ (by decide) (by decide))
    · exact .nil _
  have hprojection := Adds.columns fun p hp => Projection.adds_text (hs.columns p hp)
  have hfrom : Adds .univ "FROM" .none {.table} :=
    .keyword (by decide : Lexes _ [.word "FROM"]) rfl (by decide) (by decide) (by simp)
  have hgroup : Adds .univ ("GROUP BY" ++ " ") .none {.other} :=
    .keyword (by decide : Lexes _ [.word "GROUP", .word "BY"]) rfl (by decide) (by decide)
      (by decide)
  have horder : Adds .univ ("ORDER BY" ++ " ") .none {.other} :=
    .keyword (by decide : Lexes _ [.word "ORDER", .word "BY"]) rfl (by decide) (by decide)
      (by decide)
  have hfront := hdistinct.append (.cons hprojection
    (.cons (hfrom.from_univ {.other}) (.single hs.joins.adds_joinsText)))
  have hgrouped := (hfront.append (adds_part hclause.adds hclause.eq_none)).append
    (adds_listPart hgroup fun r hr => (hs.groups r hr).adds_text)
  have hordered := hgrouped.append
    (adds_listPart horder fun o ho => OrderItem.adds_text (hs.orders o ho))
  have hall := hordered.append (adds_part (adds_limitOffset d s.limit s.offset) fun _ => rfl)
  have hjoin := hall.join
  simp only [Scopes.none_append, Scopes.append_none] at hjoin
  have hblock : (⟨[], s.block⟩ : Scopes) =
      .ofUses (s.columns.map fun p => p.column.aliasName) ++
        .ofSources (s.joins.map Join.source) ++
        .ofUses ((termTests s.terms).map fun t => t.column.aliasName) ++
        .ofUses (s.groups.map ColumnRef.aliasName) ++
        .ofUses (s.orders.map fun o => o.column.aliasName) := by
    simp [Selection.block, Selection.references, Scopes.append_eq, Scopes.ofUses,
      Scopes.ofSources, Function.comp_def]
  rw [hblock]
  exact hjoin

/-- The clause of compiled terms refers to their columns. -/
theorem Compiler.mentions_clause {k : Compiler} {nodes : List Node} {terms : List Term}
    (hterms : compileNodes k.catalog k.dialect k.model nodes = .ok terms) {set : List Join}
    (hbound : ∀ t ∈ termTests terms, t.column.Bound set) :
    Mentions terms (clauseText (fun l => (k.test l).spread) (pruneAll nodes)) := by
  obtain ⟨haccepts, rfl⟩ := leaves_of_compileNodes hterms
  rw [← leavesAll_pruneAll] at haccepts
  rw [tests_terms, List.forall_mem_map] at hbound
  refine ⟨?_, fun hempty => ?_⟩
  · rw [tests_terms, List.map_map]
    exact adds_clauseText fun l hl => (haccepts l hl).adds_text (hbound l hl)
  · rw [(clauseText_eq_empty_iff _ _).1 hempty]
    rfl

section

variable {root : Model} {clause : String}

theorem Selection.lexes_text {s : Selection} (hs : s.Placed root) (d : Dialect)
    (hclause : Mentions s.terms clause) :
    Lexes (s.text d clause) (.word "SELECT" :: lexemes (join " " (s.parts d clause))) := by
  rw [s.text_eq]
  exact (by decide : Lexes "SELECT " [.word "SELECT"]).behind
    (Selection.adds_parts hs d hclause).lexes (by decide)

theorem Selection.blocks_text {s : Selection} (hs : s.Placed root) (d : Dialect)
    (hclause : Mentions s.terms clause) : blocksOf (s.text d clause) = [s.block] :=
  Effect.blocks_select (Selection.lexes_text hs d hclause).lexemes
    (Selection.adds_parts hs d hclause).effect

/-- What counts the rows of a SELECT statement has it as a subselect. -/
theorem Selection.blocks_countText {s : Selection} (hs : s.Placed root) (d : Dialect)
    (hclause : Mentions s.terms clause) :
    blocksOf (s.countText d clause) = [s.block, ⟨[], []⟩] := by
  have hstart : Lexes "SELECT COUNT(*) FROM (" [.word "SELECT", .word "COUNT", .mark '(',
      .mark '*', .mark ')', .word "FROM", .mark '('] := by decide +kernel
  have hend : Lexes ") foo" [.mark ')', .word "foo"] := by decide
  have hlexes := (hstart.behind (Selection.lexes_text hs d hclause) (by decide)).before
    hend (by decide)
  have hstar : Effect {.other} [.mark '*'] .none {.other} := .neutral _ (by decide)
  have hcount : Effect {.other} [.word "COUNT"] .none {.other} := .neutral _ (by decide)
  have hfrom : Effect .univ [.word "FROM"] .none {.table} :=
    .clauseWord rfl (by decide) (by decide)
  have hselect : Effect {.table} _ ⟨[s.block], ⟨[], []⟩⟩ {.table} :=
    (Selection.adds_parts hs d hclause).effect.subselect
  have hfoo : Effect {.table} [.word "foo"] .none {.table} := .neutral _ (by decide)
  have hcounted := (hcount.append hstar.group).append (hfrom.from_univ {.other})
  have hall := (hcounted.append hselect).append hfoo
  have hsql := hlexes.lexemes
  simp only [List.cons_append, List.append_assoc, List.nil_append] at hsql hall
  change blocksOf ("SELECT COUNT(*) FROM (" ++ s.text d clause ++ ") foo") = _
  rw [Effect.blocks_select hsql hall]
  simp [Scopes.all, Scopes.append_eq, Scopes.none]

end

/-- What the condition of an update or a deletion adds: its columns, or an inner query. -/
def Target.scopes (t : Target) : Scopes :=
  if hasJoins t.joins then
    ⟨[⟨t.joins.map Join.source, t.table :: t.references.map ColumnRef.aliasName⟩],
      ⟨[], [t.table]⟩⟩
  else .ofUses (t.references.map ColumnRef.aliasName)

theorem Target.blocks_eq (t : Target) :
    (Scopes.ofSources [⟨t.table, t.table, []⟩] ++ t.scopes).all = t.blocks := by
  unfold Target.scopes Target.blocks
  split <;> rfl

section

variable {root : Model} {t : Target} {clause : String}

/-- What an inner query selects, and the parts behind it. -/
theorem Target.adds_keys (hjoins : Chained root t.joins) (hclause : Mentions t.terms clause) :
    Adds {.other}
      ((ColumnRef.mk t.table idField).text ++ " FROM " ++ joinsText t.joins ++ " " ++ clause)
      ⟨[], ⟨t.joins.map Join.source, t.table :: t.references.map ColumnRef.aliasName⟩⟩ .univ := by
  have hid : isIdentifier idField = true := by decide
  have hkey : Adds {.other} (ColumnRef.mk t.table idField).text (.ofUses [t.table]) {.other} :=
    .column t.table hid
  have hfrom : Adds {.other} " FROM " .none {.table} :=
    (Adds.keyword (by decide : Lexes _ [.word "FROM"]) rfl (by decide) (by decide)
      (by simp)).from_univ {.other}
  have hblank : Adds .univ " " .none .univ := .neutral _ (by decide) (by decide)
  have htables := (hkey.before hfrom (by decide)).append hjoins.adds_joinsText
    (.inl (back_append (by decide) _))
  have hall := (htables.before hblank (by decide)).append hclause.adds
    (.inl (back_append (by decide) _))
  have hscopes : (⟨[], ⟨t.joins.map Join.source,
      t.table :: t.references.map ColumnRef.aliasName⟩⟩ : Scopes) =
        .ofUses [t.table] ++ .ofSources (t.joins.map Join.source) ++
          .ofUses ((termTests t.terms).map fun test => test.column.aliasName) := by
    simp [Target.references, Scopes.append_eq, Scopes.ofUses, Scopes.ofSources, Function.comp_def]
  rw [hscopes]
  exact hall

/-- A condition that looks for a key in an inner query. -/
theorem lexes_inner (table : String) {inner : String} {ls : List Lexeme} (h : Lexes inner ls) :
    Lexes ("WHERE " ++ (quoteName table ++ "." ++ idField) ++ " IN (SELECT " ++ inner ++ ")")
      ([.word "WHERE"] ++ [.name table, .mark '.', .word idField] ++
        [.word "IN", .mark '(', .word "SELECT"] ++ ls ++ [.mark ')']) := by
  have hid : isIdentifier idField = true := by decide
  have hkey := (by decide : Lexes "WHERE " [.word "WHERE"]).behind (lexes_column table hid)
    (by decide)
  have hin := hkey.before (by decide : Lexes " IN (SELECT " [.word "IN", .mark '(',
    .word "SELECT"]) (by decide)
  exact (hin.behind h (back_append (by decide) _)).before (by decide : Lexes ")" [.mark ')'])
    (by decide)

theorem Target.adds_condition (hjoins : hasJoins t.joins = true → Chained root t.joins)
    (hclause : Mentions t.terms clause) : Adds .univ (t.condition clause) t.scopes .univ := by
  unfold Target.condition Target.scopes
  split
  · rename_i hjoined
    have hkeys := Target.adds_keys (hjoins hjoined) hclause
    have hlexes := lexes_inner t.table hkeys.lexes
    have hwhere : Effect .univ [.word "WHERE"] .none {.other} :=
      .clauseWord rfl (by decide) (by decide)
    have hneutral : Effect {.other} [.word "IN"] .none {.other} := .neutral _ (by decide)
    have hinner : Effect {.other} _ _ {.other} := hkeys.effect.subselect
    have hall := ((hwhere.append (Effect.column t.table idField)).append hneutral).append hinner
    rw [Scopes.none_append, Scopes.append_none] at hall
    have hadds := hlexes.adds (by
      simpa only [List.append_assoc, List.cons_append, List.nil_append] using hall)
    simp only [ColumnRef.text, String.append_assoc] at hadds ⊢
    exact hadds.to_univ
  · have hscopes : Scopes.ofUses (t.references.map ColumnRef.aliasName) =
        .ofUses ((termTests t.terms).map fun test => test.column.aliasName) := by
      rw [Target.references, List.map_map]
      rfl
    rw [hscopes]
    exact hclause.adds

theorem Target.scopes_eq_none (hclause : Mentions t.terms clause) (h : t.condition clause = "") :
    t.scopes = .none := by
  unfold Target.condition at h
  unfold Target.scopes Target.references
  split
  · rename_i hjoined
    rw [if_pos hjoined] at h
    simp at h
  · rename_i hjoined
    rw [if_neg hjoined] at h
    rw [List.map_map]
    exact hclause.eq_none h

theorem Target.blocks_deleteText (hjoins : hasJoins t.joins = true → Chained root t.joins)
    (hclause : Mentions t.terms clause) : blocksOf (t.deleteText clause) = t.blocks := by
  have hdelete : Effect {.other} [.word "DELETE"] .none {.other} := .neutral _ (by decide)
  have hfrom : Effect .univ [.word "FROM"] .none {.table} :=
    .clauseWord rfl (by decide) (by decide)
  have hkeyword := (by decide : Lexes "DELETE FROM " [.word "DELETE", .word "FROM"]).adds
    (hdelete.append (hfrom.from_univ {.other}))
  have htable := ((lexes_quoteName t.table).adds (.table t.table)).behind hkeyword (by decide)
  have hall := adds_withClause htable (Target.adds_condition hjoins hclause)
    (Target.scopes_eq_none hclause)
  rw [← t.blocks_eq]
  exact hall.effect.blocks_eq

/-- The settings of an UPDATE statement. -/
theorem lexes_settings {assignments : List Assignment}
    (hcolumns : ∀ a ∈ assignments, isIdentifier a.column = true) :
    Lexes (join ", " (assignments.map (Assignment.text fun _ => "?")))
      ([.mark ','].intercalate
        ((assignments.map Assignment.column).map fun c => [.word c, .mark '=', .mark '?'])) := by
  have hsettings : List.Forall₂ Lexes (assignments.map (Assignment.text fun _ => "?"))
      ((assignments.map Assignment.column).map fun c => [.word c, .mark '=', .mark '?']) := by
    rw [List.map_map, List.forall₂_map_left_iff, List.forall₂_map_right_iff, List.forall₂_same]
    intro a ha
    have hmark : Front "?".toList := by decide
    exact ((lexes_identifier (hcolumns a ha)).before (by decide : Lexes " = " [.mark '='])
      (by decide)).before (by decide : Lexes "?" [.mark '?']) hmark
  exact Lexes.join (by decide : Lexes ", " [.mark ',']) (by decide) (by decide) hsettings

/-- An UPDATE statement up to its condition. -/
theorem lexes_update {assignments : List Assignment}
    (hcolumns : ∀ a ∈ assignments, isIdentifier a.column = true) (table : String) :
    Lexes ("UPDATE " ++ quoteName table ++ " SET " ++
        join ", " (assignments.map (Assignment.text fun _ => "?")))
      ([.word "UPDATE"] ++ [.name table] ++ [.word "SET"] ++ [.mark ','].intercalate
        ((assignments.map Assignment.column).map fun c => [.word c, .mark '=', .mark '?'])) := by
  have htable := (by decide : Lexes "UPDATE " [.word "UPDATE"]).behind (lexes_quoteName table)
    (by decide)
  have hset := htable.before (by decide : Lexes " SET " [.word "SET"]) (by decide)
  exact hset.behind (lexes_settings hcolumns) (back_append (by decide) _)

theorem Target.blocks_updateText {assignments : List Assignment} (hne : assignments ≠ [])
    (hcolumns : ∀ a ∈ assignments, isIdentifier a.column = true)
    (hjoins : hasJoins t.joins = true → Chained root t.joins) (hclause : Mentions t.terms clause) :
    blocksOf (t.updateText (assignments.map (Assignment.text fun _ => "?")) clause) = t.blocks := by
  have hlexes := lexes_update hcolumns t.table
  have hupdate : Effect .univ [.word "UPDATE"] .none {.table} :=
    .clauseWord rfl (by decide) (by decide)
  have hwritten := (hupdate.append (.table t.table)).append
    ((Effect.settings (by simpa using hne : assignments.map Assignment.column ≠ [])).from_univ
      {.bound})
  rw [Scopes.none_append, Scopes.append_none] at hwritten
  have hsql := hlexes.adds (by simpa only [List.append_assoc, List.cons_append, List.nil_append]
    using hwritten)
  have hall := adds_withClause hsql (Target.adds_condition hjoins hclause)
    (Target.scopes_eq_none hclause)
  rw [← t.blocks_eq]
  exact (hall.effect.from_univ {.other}).blocks_eq

end

namespace Compiler

variable {k : Compiler}

theorem assignments_ne_nil {kind : WriteKind} {payload : FieldMap} {assignments : List Assignment}
    (h : k.assignments kind payload = .ok assignments) : assignments ≠ [] := by
  rintro rfl
  obtain ⟨hvalues, -⟩ := assignments_ok h
  have hempty : payload.isEmpty = true := by
    rw [FieldMap.isEmpty, List.isEmpty_iff]
    exact List.map_eq_nil_iff.1 hvalues.symm
  rw [assignments, if_pos hempty] at h
  cases h

variable (hc : k.catalog.WellFormed) (hm : k.model ∈ k.catalog.models)

include hc hm

theorem target_mentions {t : Target} (h : k.target = .ok t) : Mentions t.terms
    (clauseText (fun l => (k.test l).spread) (pruneAll k.query.condition.nodes)) :=
  mentions_clause (target_ok h).2.2 (target_placed hc hm h).terms

theorem selection_mentions {paths : List Path} {s : Selection} (h : k.selection paths = .ok s) :
    Mentions s.terms
      (clauseText (fun l => (k.test l).spread) (pruneAll k.query.condition.nodes)) :=
  mentions_clause (selection_terms h) (selection_placed hc hm h).terms

/-- The text of a plan has the blocks of the plan. -/
theorem plan_blocks {op : Operation} (hop : ∀ payload, op ≠ .insert payload) {p : Plan}
    (h : k.plan op = .ok p) :
    blocksOf (p.text k.dialect (fun _ => "?")
      (clauseText (fun l => (k.test l).spread) (pruneAll (op.nodes k.query.condition)))) =
        p.blocks := by
  cases op with
  | select =>
    obtain ⟨s, hs, h⟩ := bind_eq_ok.1 h
    cases h
    exact Selection.blocks_text (selection_placed hc hm hs) k.dialect (selection_mentions hc hm hs)
  | count =>
    obtain ⟨s, hs, h⟩ := bind_eq_ok.1 h
    cases h
    exact Selection.blocks_countText (selection_placed hc hm hs) k.dialect
      (selection_mentions hc hm hs)
  | insert payload => exact absurd rfl (hop payload)
  | update payload =>
    obtain ⟨assignments, ha, h⟩ := bind_eq_ok.1 h
    obtain ⟨t, ht, h⟩ := bind_eq_ok.1 h
    cases h
    refine Target.blocks_updateText (assignments_ne_nil ha) (fun a hmem => ?_)
      (target_placed hc hm ht).chained (target_mentions hc hm ht)
    obtain ⟨f, hf, hcolumn⟩ := (assignments_ok ha).2 a hmem
    rw [hcolumn]
    exact ((hc.models _ hm).identifiers f hf).2
  | delete =>
    obtain ⟨t, ht, h⟩ := bind_eq_ok.1 h
    cases h
    exact Target.blocks_deleteText (target_placed hc hm ht).chained (target_mentions hc hm ht)

end Compiler

/-- In the text of a compiled statement that is no insertion, each column is one of a table that
its own SELECT, or the statement itself, binds just once. The aliases are different, the root
table comes first, and an ON condition refers to its own table and to one before it. -/
theorem run_scoped {c : Catalog} (hc : c.Reachable) {d : Dialect} {q : Query} {k : Compiler}
    (hk : Compiler.new c d q = .ok k) {op : Operation} (hop : ∀ payload, op ≠ .insert payload)
    {st : Statement} (hst : k.run op = .ok st) :
    (∃ p, k.plan op = .ok p ∧ blocksOf st.sql = p.blocks) ∧
      ∀ b ∈ blocksOf st.sql, b.Scoped k.model.table := by
  obtain ⟨root, hm, -, rfl⟩ := Compiler.new_ok hk
  rw [Compiler.run_eq] at hst
  obtain ⟨p, hp, hst⟩ := bind_eq_ok.1 hst
  cases (Compiler.statement_eq hc.wellFormed hm hp).symm.trans hst
  have hblocks := Compiler.plan_blocks hc.wellFormed hm hop hp
  refine ⟨⟨p, hp, hblocks⟩, fun b hb => ?_⟩
  exact Compiler.plan_scoped hc.wellFormed hm hp b (hblocks ▸ hb)

/-- Tickets of the members of a team with a given name. -/
def namedTeamTickets : Query :=
  (Query.new "Ticket").filter
    ((Condition.empty.addLeaf .and (.ofText "assignee.team.name") .equals (.text "Core")).addLeaf
      .and (.ofText "title") .isNotNull .null)

/-- Deleting these tickets takes an inner query that joins both relations. -/
theorem namedTeamTickets_scoped : helpDesk.catalog.Reachable ∧ ∃ k st,
    Compiler.new helpDesk.catalog .sqlite namedTeamTickets = .ok k ∧ k.run .delete = .ok st ∧
      blocksOf st.sql =
        [⟨[⟨"ticket", "ticket", []⟩,
            ⟨"member", "ticket__assignee_id", ["ticket", "ticket__assignee_id"]⟩,
            ⟨"team", "ticket__assignee_id__team_id",
              ["ticket__assignee_id", "ticket__assignee_id__team_id"]⟩],
          ["ticket", "ticket__assignee_id__team_id", "ticket"]⟩,
        ⟨[⟨"ticket", "ticket", []⟩], ["ticket"]⟩] ∧
      ∀ b ∈ blocksOf st.sql, b.Scoped "ticket" := by
  have hnew : Compiler.new helpDesk.catalog .sqlite namedTeamTickets =
      .ok ⟨helpDesk.catalog, .sqlite, namedTeamTickets, ticket⟩ := rfl
  have hop : ∀ payload, Operation.delete ≠ .insert payload := by simp
  obtain ⟨⟨p, hp, hblocks⟩, hscoped⟩ := run_scoped helpDesk_reachable hnew hop rfl
  cases hp
  exact ⟨helpDesk_reachable, _, _, hnew, rfl, hblocks, hscoped⟩

end RecordModel
