import RecordModel.Proofs.Query.Binding
import RecordModel.Proofs.Query.Scoping

/-!
# Columns that are read

A SELECT statement names each of its columns by the alias of a table and puts a label on it. What
goes out to the database has its placeholders renamed, but there is none in front of the FROM
clause. `columnsRead` reads the columns off the lexemes of a statement; it gives none if what it
does not know stands in front of the FROM clause.

Results:
* `Dialect.rebind_append`: what holds no placeholder goes out as it is.
* `Selection.columnsRead_text`: the columns in the text of a selection are those it projects, also
  in the form in which it goes out.
* `Compiler.select_columnsRead`: so those of a query are what its paths are resolved to.
-/
namespace RecordModel

open RecordModel.Text RecordModel.Number RecordModel.Sql

/-! ## Placeholders behind a text without any -/

namespace Sql

theorem number_append {a : String} (ha : Inert a) (b : String) :
    number (a ++ b) = a ++ number b := by
  have hcount : (pieces none a.toList).length - 1 = 0 := ha.count
  have hlength : (pieces none (a.toList ++ b.toList)).length = (pieces none b.toList).length := by
    rw [length_pieces_append, hcount, ha.closed, Nat.zero_add]
  have hweave := weave_pieces none a.toList
  have hall := weave_pieces_append none a.toList b.toList []
    (numbers ((pieces none b.toList).length - 1) 1) hcount.symm
  rw [hcount, List.replicate_zero] at hweave
  rw [ha.closed, hweave, List.nil_append] at hall
  rw [← String.toList_inj, number, number, String.toList_append, String.toList_append,
    String.toList_ofList, String.toList_ofList, hlength, hall]

theorem Dialect.rebind_append (d : Dialect) {a : String} (ha : Inert a) (b : String) :
    d.rebind (a ++ b) = a ++ d.rebind b := by
  cases d with
  | postgres => exact number_append ha b
  | sqlite => rfl

/-! ## Reading columns -/

/-- Columns under labels with commas between them, in front of a FROM clause. -/
def labelledList : List Lexeme → Option (List (ColumnRef × String))
  | .name a :: .mark '.' :: .word column :: .word w :: .name label :: .mark ',' :: rest =>
    if w = "AS" then (labelledList rest).map ((⟨a, column⟩, label) :: ·) else none
  | .name a :: .mark '.' :: .word column :: .word w :: .name label :: .word w' :: _ =>
    if w = "AS" ∧ w' = "FROM" then some [(⟨a, column⟩, label)] else none
  | _ => none

/-- The columns of a SELECT statement, each with its label. -/
def columnsRead (sql : String) : Option (List (ColumnRef × String)) :=
  match lexemes sql with
  | .word v :: .word w :: rest => if v = "SELECT" ∧ w = "DISTINCT" then labelledList rest else none
  | .word v :: rest => if v = "SELECT" then labelledList rest else none
  | _ => none

end Sql

/-- The lexemes of a column under its label. -/
def Projection.lexemes (p : Projection) : List Lexeme :=
  [.name p.column.aliasName, .mark '.', .word p.column.column, .word "AS", .name p.label]

theorem labelledList_intercalate {ps : List Projection} (hne : ps ≠ []) (tail : List Lexeme) :
    labelledList ([.mark ','].intercalate (ps.map Projection.lexemes) ++ .word "FROM" :: tail) =
      some (ps.map fun p => (p.column, p.label)) := by
  induction ps with
  | nil => exact absurd rfl hne
  | cons p ps ih =>
    cases ps with
    | nil => simp [Projection.lexemes, labelledList]
    | cons q ps =>
      have hrest := ih (by simp)
      rw [List.map_cons] at hrest
      rw [List.map_cons, List.map_cons, List.intercalate_cons_cons]
      simp only [Projection.lexemes, List.cons_append, List.nil_append, labelledList] at hrest ⊢
      rw [hrest]
      simp

theorem Projection.lexes_text {p : Projection} (h : isIdentifier p.column.column = true) :
    Lexes p.text p.lexemes := by
  have hcolumn := lexes_column p.column.aliasName h
  have hname := hcolumn.before (by decide : Lexes " AS " [.word "AS"]) (by decide)
  exact hname.behind (lexes_quoteName p.label) (back_append (by decide) _)

/-- A selection up to its FROM clause. -/
def Selection.head (s : Selection) : String :=
  "SELECT " ++ (if s.distinct then "DISTINCT " else "")
    ++ join ", " (s.columns.map Projection.text) ++ " FROM "

theorem Selection.text_eq_head (s : Selection) (d : Dialect) (clause : String) :
    ∃ rest, s.text d clause = s.head ++ rest := by
  let behind := joinsText s.joins :: (part clause
    ++ listPart "GROUP BY" (s.groups.map ColumnRef.text)
    ++ listPart "ORDER BY" (s.orders.map OrderItem.text)
    ++ part (d.limitOffsetSql s.limit s.offset))
  have hparts : s.parts d clause = (if s.distinct then ["DISTINCT"] else []) ++
      join ", " (s.columns.map Projection.text) :: "FROM" :: behind := by
    simp only [Selection.parts, behind, List.append_assoc, List.cons_append, List.nil_append]
  have hfrom : " FROM " = " " ++ ("FROM" ++ " ") := by decide
  have hlist : join " " (join ", " (s.columns.map Projection.text) :: "FROM" :: behind) =
      join ", " (s.columns.map Projection.text) ++ " FROM " ++ join " " behind := by
    rw [hfrom]
    simp only [join, behind, String.append_assoc]
  refine ⟨join " " behind, ?_⟩
  rw [s.text_eq, hparts, head]
  cases s.distinct with
  | false => simp only [Bool.false_eq_true, if_false, List.nil_append, hlist, String.append_assoc,
      String.empty_append]
  | true =>
    have hdistinct : "DISTINCT " = "DISTINCT" ++ " " := by decide
    have hword (item : String) (rest : List String) :
        join " " (["DISTINCT"] ++ item :: rest) = "DISTINCT " ++ join " " (item :: rest) := by
      rw [hdistinct]
      rfl
    simp only [if_true, hword, hlist, String.append_assoc]

theorem Selection.lexes_head {s : Selection} (hcolumns : ∀ p ∈ s.columns,
    isIdentifier p.column.column = true) :
    Lexes s.head (.word "SELECT" :: (if s.distinct then [.word "DISTINCT"] else [])
      ++ [.mark ','].intercalate (s.columns.map Projection.lexemes) ++ [.word "FROM"]) := by
  have hselect : Lexes ("SELECT " ++ (if s.distinct then "DISTINCT " else ""))
      (.word "SELECT" :: (if s.distinct then [.word "DISTINCT"] else [])) ∧
      Back ("SELECT " ++ (if s.distinct then "DISTINCT " else "")).toList := by
    cases s.distinct <;> decide
  have hlist : List.Forall₂ Lexes (s.columns.map Projection.text)
      (s.columns.map Projection.lexemes) := by
    rw [List.forall₂_map_left_iff, List.forall₂_map_right_iff, List.forall₂_same]
    exact fun p hp => Projection.lexes_text (hcolumns p hp)
  have hjoin := Lexes.join (by decide : Lexes ", " [.mark ',']) (by decide) (by decide) hlist
  exact (hselect.1.behind hjoin hselect.2).before (by decide : Lexes " FROM " [.word "FROM"])
    (by decide)

theorem Selection.inert_head {s : Selection} (hcolumns : ∀ p ∈ s.columns, Inert p.column.text) :
    Inert s.head := by
  have hselect : Inert ("SELECT " ++ (if s.distinct then "DISTINCT " else "")) := by
    cases s.distinct <;> decide
  have hlabel : ∀ p ∈ s.columns, Inert p.text := fun p hp =>
    ((hcolumns p hp).append (by decide : Inert " AS ")).append (inert_quoteName p.label)
  have hlist : Inert (join ", " (s.columns.map Projection.text)) :=
    .join (by decide) (List.forall_mem_map.2 hlabel)
  exact (hselect.append hlist).append (by decide)

/-- Whatever goes out for a selection has its columns under their labels. -/
theorem Selection.columnsRead_text {s : Selection} {root : Model} (hs : s.Placed root)
    (hne : s.columns ≠ []) (d d' : Dialect) (clause : String) :
    columnsRead (d'.rebind (s.text d clause)) =
      some (s.columns.map fun p => (p.column, p.label)) := by
  have hlexes := lexes_head fun p hp => (hs.columns p hp).2
  have hinert := inert_head hs.plain.columns
  obtain ⟨rest, htext⟩ := s.text_eq_head d clause
  have hall : lexemes (d'.rebind (s.text d clause)) =
      .word "SELECT" :: (if s.distinct then [.word "DISTINCT"] else [])
        ++ [.mark ','].intercalate (s.columns.map Projection.lexemes) ++ [.word "FROM"]
        ++ lexemes (d'.rebind rest) := by
    have hback : Back s.head.toList := back_append (by decide) _
    rw [htext, Dialect.rebind_append d' hinert, Sql.lexemes, String.toList_append,
      lexemesOf_append hinert.closed (.inl hback), ← hlexes.lexemes]
    rfl
  have hlist := labelledList_intercalate hne (lexemes (d'.rebind rest))
  have hname : ∃ a more, [.mark ','].intercalate (s.columns.map Projection.lexemes) =
      .name a :: more := by
    obtain ⟨p, ps, hps⟩ := List.exists_cons_of_ne_nil hne
    rw [hps]
    cases ps <;> simp [Projection.lexemes, List.intercalate_cons_cons]
  obtain ⟨a, more, hmore⟩ := hname
  rw [columnsRead, hall]
  -- behind the first word comes another one or the name of a table
  cases s.distinct with
  | true => simpa using hlist
  | false =>
    rw [hmore] at hlist ⊢
    simpa using hlist

/-! ## Columns of queries -/

namespace Compiler

variable {k : Compiler}

theorem resolveAll_columns {resolved : List (Path × Resolution)}
    (h : ∀ p ∈ resolved, k.resolve p.1 = .ok p.2) {set set' : List Join} {columns : List ColumnRef}
    (hall : k.resolveAll set (resolved.map Prod.fst) = .ok (set', columns)) :
    columns = resolved.map fun p => p.2.column := by
  induction resolved generalizing set columns with
  | nil =>
    cases hall
    rfl
  | cons p resolved ih =>
    obtain ⟨hp, hrest⟩ := List.forall_mem_cons.1 h
    obtain ⟨r, columns', hr, hcolumns, rfl⟩ := resolveAll_cons hall
    cases hp.symm.trans hr
    rw [List.map_cons, ih hrest hcolumns]

/-- What goes out for a query has the columns that its paths are resolved to, each under the text of
its path. -/
theorem select_columnsRead (hc : k.catalog.WellFormed) (hm : k.model ∈ k.catalog.models)
    {resolved : List (Path × Resolution)} (hresolved : ∀ p ∈ resolved, k.resolve p.1 = .ok p.2)
    (hprojection : k.projection = resolved.map Prod.fst) {st : Statement} (h : k.select = .ok st)
    (d : Dialect) :
    columnsRead (d.rebind st.sql) = some (resolved.map fun p => (p.2.column, p.1.text)) := by
  have hrun : k.run .select = .ok st := h
  rw [run_eq] at hrun
  obtain ⟨p, hp, hst⟩ := bind_eq_ok.1 hrun
  cases (statement_eq hc hm hp).symm.trans hst
  obtain ⟨s, hs, hp⟩ := bind_eq_ok.1 hp
  cases hp
  obtain ⟨_, _, columns, _, _, _, _, -, hne, hall, -, -, -, -, hcolumns, -⟩ := selection_ok hs
  rw [hprojection] at hall hcolumns
  have hresolvedColumns := resolveAll_columns hresolved hall
  have hlabelled : s.columns = resolved.map fun p => ⟨p.2.column, p.1.text⟩ := by
    rw [hcolumns, hresolvedColumns, List.zip_map', List.map_map]
    rfl
  have hsome : s.columns ≠ [] := by
    rw [hresolvedColumns] at hne
    rw [hlabelled]
    simpa using hne
  rw [Plan.text, Selection.columnsRead_text (selection_placed hc hm hs) hsome k.dialect d, hlabelled,
    List.map_map]
  rfl

end Compiler

end RecordModel
