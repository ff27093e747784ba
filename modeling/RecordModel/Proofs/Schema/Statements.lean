import RecordModel.Proofs.Sql.Lexemes
import RecordModel.Schema.Definition

/-!
# Reading schema statements

What a database makes of a schema statement that it gets as a text. Names between quotes are
stored as they are written, bare names in lower case. The columns of a new table are what
stands first and behind each comma outside of inner parentheses; a literal in a default may
hold commas, quotes and parentheses of its own.

Results:
* `inlined_literal`: the literal of a value has no comma and no placeholder outside quotes and
  parentheses.
* `Change.inert_text`: the statement of a change holds no placeholder.
* `readDdl_text`: what is read from the statement of a change.
-/
namespace RecordModel

open RecordModel.Text RecordModel.Number RecordModel.Sql RecordModel.Calendar

namespace Sql

/-! ## What is read -/

/-- A bare name as it is stored: in lower case. -/
def foldName (s : String) : String := String.ofList (s.toList.map Char.toLower)

/-- The stored form of a name. -/
def storedName : Lexeme → Option String
  | .name s => some s
  | .word s => some (foldName s)
  | .text _ | .mark _ => none

/-- A schema statement with the names that it stores. -/
inductive Ddl where
  | createTable (table : String) (columns : List String)
  | addColumn (table column : String)
  | createIndex (name table column : String)
  deriving DecidableEq

/-- The names of columns up to the parenthesis that closes their list; `depth` counts inner
parentheses, and `first` says whether the next lexeme starts a column. -/
def columnNames : Nat → Bool → List Lexeme → Option (List String)
  | _, _, [] => none
  | depth, true, l :: rest =>
    (storedName l).bind fun name => (columnNames depth false rest).map (name :: ·)
  | depth, false, l :: rest =>
    if l = .mark '(' then columnNames (depth + 1) false rest
    else if l = .mark ')' then
      if depth ≠ 0 then columnNames (depth - 1) false rest
      else if rest.isEmpty then some [] else none
    else columnNames depth (depth == 0 && l == .mark ',') rest

/-- Read a schema statement. -/
def readDdl (sql : String) : Option Ddl :=
  match lexemes sql with
  | .word "CREATE" :: .word "TABLE" :: table :: .mark '(' :: rest => do
    return .createTable (← storedName table) (← columnNames 0 true rest)
  | .word "ALTER" :: .word "TABLE" :: table :: .word "ADD" :: .word "COLUMN" :: column :: _ => do
    return .addColumn (← storedName table) (← storedName column)
  | [.word "CREATE", .word "INDEX", name, .word "ON", table, .mark '(', column, .mark ')'] => do
    return .createIndex (← storedName name) (← storedName table) (← storedName column)
  | _ => none

/-! ## Definitions of columns -/

/-- Lexemes that belong to one column: they are passed over at every depth. -/
def Skipped (ls : List Lexeme) : Prop :=
  ∀ depth rest, columnNames depth false (ls ++ rest) = columnNames depth false rest

/-- A text that may stand in the definition of a column: it holds no placeholder, and neither
a comma nor a parenthesis outside parentheses of its own. -/
structure Inlined (s : String) : Prop where
  inert : Inert s
  skipped : Skipped (lexemes s)

theorem Skipped.append {ls ms : List Lexeme} (hl : Skipped ls) (hm : Skipped ms) :
    Skipped (ls ++ ms) := fun depth rest => by
  rw [List.append_assoc, hl, hm]

/-- The lexemes that a list of columns is cut by. -/
def isDelimiter (l : Lexeme) : Bool := l ∈ [.mark '(', .mark ')', .mark ',']

theorem skipped_of_forall {ls : List Lexeme} (h : ∀ l ∈ ls, isDelimiter l = false) :
    Skipped ls := by
  induction ls with
  | nil => exact fun depth rest => rfl
  | cons l ls ih =>
    intro depth rest
    have hl := h l (by simp)
    simp only [isDelimiter, List.mem_cons, List.not_mem_nil, or_false, decide_eq_false_iff_not,
      not_or] at hl
    obtain ⟨hopening, hclosing, hcomma⟩ := hl
    have hfirst : (depth == 0 && l == .mark ',') = false := by simp [hcomma]
    rw [List.cons_append, columnNames, if_neg hopening, if_neg hclosing, hfirst]
    exact ih (fun m hm => h m (by simp [hm])) depth rest

/-- What stands in parentheses belongs to one column, commas included. -/
theorem skipped_parentheses {lss : List (List Lexeme)} (h : ∀ ls ∈ lss, Skipped ls) :
    Skipped (.mark '(' :: ([.mark ','].intercalate lss ++ [.mark ')'])) := by
  have hinner (depth : Nat) (rest : List Lexeme) :
      columnNames (depth + 1) false ([.mark ','].intercalate lss ++ rest) =
        columnNames (depth + 1) false rest := by
    induction lss with
    | nil => rfl
    | cons ls lss ih =>
      cases lss with
      | nil => rw [List.intercalate_singleton, h ls (by simp)]
      | cons ms lss =>
        rw [List.intercalate_cons_cons, List.append_assoc, List.append_assoc, h ls (by simp)]
        exact ih fun m hm => h m (by simp [hm])
  intro depth rest
  have hclose : columnNames (depth + 1) false (.mark ')' :: rest) =
      columnNames depth false rest := by
    simp [columnNames]
  have hopen (ls : List Lexeme) :
      columnNames depth false (.mark '(' :: ls) = columnNames (depth + 1) false ls := by
    simp [columnNames]
  rw [List.cons_append, List.append_assoc, hopen, hinner, List.singleton_append, hclose]

namespace Inlined

variable {a b : String}

/-- A text without delimiters and placeholders. -/
theorem of_forall {s : String} (hs : Inert s) (h : ∀ l ∈ lexemes s, isDelimiter l = false) :
    Inlined s :=
  ⟨hs, skipped_of_forall h⟩

theorem append (ha : Inlined a) (hb : Inlined b) (h : Back a.toList ∨ Front b.toList) :
    Inlined (a ++ b) := by
  refine ⟨ha.inert.append hb.inert, ?_⟩
  rw [lexemes, String.toList_append, lexemesOf_append ha.inert.closed h]
  exact ha.skipped.append hb.skipped

theorem lexes (ha : Inlined a) : Lexes a (lexemes a) := ⟨ha.inert.closed, rfl⟩

end Inlined

theorem inlined_quoteText (s : String) : Inlined (quoteText s) := by
  refine ⟨inert_quoteText s, ?_⟩
  rw [(lexes_quoteText s).lexemes]
  exact skipped_of_forall (by simp [isDelimiter])

/-- Texts in parentheses, with commas between them. -/
theorem lexes_parentheses {ss : List String} (h : ∀ s ∈ ss, Inlined s) :
    Lexes ("(" ++ join ", " ss ++ ")")
      (.mark '(' :: ([.mark ','].intercalate (ss.map lexemes) ++ [.mark ')'])) := by
  have hitems : List.Forall₂ Lexes ss (ss.map lexemes) := by
    rw [List.forall₂_map_right_iff, List.forall₂_same]
    exact fun s hs => (h s hs).lexes
  have hjoin := Lexes.join (by decide : Lexes ", " [.mark ',']) (by decide) (by decide) hitems
  have hopen := (by decide : Lexes "(" [.mark '(']).behind hjoin (by decide)
  exact hopen.before (by decide : Lexes ")" [.mark ')']) (by decide)

theorem inlined_parentheses {ss : List String} (h : ∀ s ∈ ss, Inlined s) :
    Inlined ("(" ++ join ", " ss ++ ")") := by
  refine ⟨?_, ?_⟩
  · have hinert : Inert (join ", " ss) := .join (by decide) fun s hs => (h s hs).inert
    exact ((by decide : Inert "(").append hinert).append (by decide)
  · rw [(lexes_parentheses h).lexemes]
    refine skipped_parentheses fun ls hls => ?_
    obtain ⟨s, hs, rfl⟩ := List.mem_map.1 hls
    exact (h s hs).skipped

end Sql

/-! ## Literals -/

/-- A character of a number, a date or a time. -/
def isPlainChar (c : Char) : Bool := isNameChar c || c ∈ ['-', '+', '.', ':', ' ']

def PlainText (cs : List Char) : Prop := ∀ c ∈ cs, isPlainChar c = true

instance (cs : List Char) : Decidable (PlainText cs) :=
  decidable_of_iff (cs.all isPlainChar = true) List.all_eq_true

theorem PlainText.append {as bs : List Char} (ha : PlainText as) (hb : PlainText bs) :
    PlainText (as ++ bs) := fun c hc =>
  (List.mem_append.1 hc).elim (ha c) (hb c)

theorem PlainText.not_mem {cs : List Char} (h : PlainText cs) {c : Char}
    (hc : isPlainChar c = false) : c ∉ cs := fun hmem => by
  rw [h c hmem] at hc
  cases hc

theorem inlined_of_plainText {s : String} (h : PlainText s.toList) : Inlined s := by
  have hinert : Inert s := .of_forall fun c hc => by
    refine ⟨?_, ?_, ?_⟩
    all_goals
      rintro rfl
      exact h.not_mem (by decide) hc
  refine .of_forall hinert fun l hl => ?_
  simp only [isDelimiter, List.mem_cons, List.not_mem_nil, or_false, decide_eq_false_iff_not]
  rintro (rfl | rfl | rfl)
  all_goals exact h.not_mem (by decide) (mark_mem_lexemes hl)

theorem plainText_natText (n : Nat) : PlainText (natText n).toList := fun c hc => by
  rw [isPlainChar, isNameChar_of_isDigit (isDigit_of_mem_natText hc), Bool.true_or]

theorem plainText_intText (i : Int) : PlainText (intText i).toList := by
  cases i with
  | ofNat n => exact plainText_natText n
  | negSucc n =>
    have htext : intText (.negSucc n) = "-" ++ natText (n + 1) := by
      simp only [intText, natText]
      rfl
    rw [htext, String.toList_append]
    exact .append (by decide) (plainText_natText _)

/-- The characters of a positional text are those of its digits, zeros and a point. -/
theorem forall_mem_positionalText {p : Char → Prop} {digits : String}
    (hdigits : ∀ c ∈ digits.toList, p c) (hzero : p '0') (hpoint : p '.') (position : Int)
    (keepPoint : Bool) : ∀ c ∈ (positionalText digits position keepPoint).toList, p c := by
  have happend {as bs : List Char} (ha : ∀ c ∈ as, p c) (hb : ∀ c ∈ bs, p c) :
      ∀ c ∈ as ++ bs, p c := fun c hc => (List.mem_append.1 hc).elim (ha c) (hb c)
  have hzeros (n : Nat) : ∀ c ∈ (zeros n).toList, p c := by
    intro c hc
    rw [zeros, String.toList_ofList] at hc
    rwa [(List.mem_replicate.1 hc).2]
  unfold positionalText
  dsimp only
  split
  · have hwhole : ∀ c ∈ (if keepPoint then ".0" else "").toList, p c := by
      split <;> simp [hzero, hpoint]
    simp only [String.toList_append]
    exact happend (happend hdigits (hzeros _)) hwhole
  · split
    · simp only [String.toList_append, String.toList_ofList]
      refine happend (happend (fun c hc => ?_) (by simp [hpoint])) fun c hc => ?_
      · exact hdigits c (List.mem_of_mem_take hc)
      · exact hdigits c (List.mem_of_mem_drop hc)
    · simp only [String.toList_append]
      exact happend (happend (by simp [hzero, hpoint]) (hzeros _)) hdigits

theorem plainText_float (f : Binary64) : PlainText (f.text .plain).toList := by
  have hsign (negative : Bool) : PlainText (signText negative).toList := by
    cases negative <;> decide
  cases f with
  | nan => decide
  | infinity negative =>
    rw [Binary64.text, String.toList_append]
    exact (hsign negative).append (by decide)
  | finite negative magnitude =>
    rw [Binary64.text, String.toList_append]
    refine (hsign negative).append ?_
    unfold magnitudeText
    split
    · decide
    · exact forall_mem_positionalText (plainText_natText _) rfl rfl _ _

theorem plainText_padded (width n : Nat) : PlainText (padded width n) := by
  refine .append (fun c hc => ?_) (plainText_natText n)
  rw [(List.mem_replicate.1 hc).2]
  rfl

theorem plainText_yearText (year : Int) : PlainText (yearText year) := by
  unfold yearText
  split
  · exact plainText_padded _ _
  · have hsign : PlainText [if year < 0 then '-' else '+'] := by
      split <;> decide
    exact hsign.append (plainText_padded _ _)

/-- A part that is printed with plain characters. -/
def isPlainPart : Part → Bool
  | .fraction => false
  | .mark c => isPlainChar c
  | .year | .month | .day | .hour | .minute | .second | .blank => true

theorem plainText_printParts (r : Reading) {parts : List Part}
    (h : ∀ p ∈ parts, isPlainPart p = true) : PlainText (printParts r parts).toList := by
  intro c hc
  rw [printParts, String.toList_ofList] at hc
  obtain ⟨p, hp, hc⟩ := List.mem_flatMap.1 hc
  have hplain := h p hp
  cases p with
  | year => exact plainText_yearText _ c hc
  | month | day | hour | minute | second => exact plainText_padded _ _ c hc
  | fraction => cases hplain
  | mark d =>
    rw [List.mem_singleton.1 hc]
    exact hplain
  | blank =>
    rw [List.mem_singleton.1 hc]
    rfl

/-- A plain text between quotes is quoted as it is. -/
theorem PlainText.quoteText_eq {s : String} (h : PlainText s.toList) :
    quoteText s = "'" ++ s ++ "'" := by
  rw [quoteText, escapeQuotes_of_not_mem (h.not_mem (by decide)), String.ofList_toList]

theorem inlined_quoted {s : String} (h : PlainText s.toList) : Inlined ("'" ++ s ++ "'") := by
  rw [← h.quoteText_eq]
  exact inlined_quoteText s

mutual
/-- The literal of a value has no comma and no placeholder outside quotes and parentheses. -/
theorem inlined_literal : ∀ v : Value, Inlined v.literal
  | .null => .of_forall (by decide) (by decide)
  | .integer i => inlined_of_plainText (plainText_intText i.toInt)
  | .float f => inlined_of_plainText (plainText_float f)
  | .text s => inlined_quoteText s
  | .boolean true => .of_forall (by decide) (by decide)
  | .boolean false => .of_forall (by decide) (by decide)
  | .date _ => inlined_quoted (plainText_printParts _ (by decide))
  | .dateTime _ => inlined_quoted (plainText_printParts _ (by decide))
  | .list items => inlined_parentheses (inlined_literalAll items)

theorem inlined_literalAll : ∀ vs : List Value, ∀ s ∈ Value.literalAll vs, Inlined s
  | [] => fun _ hs => absurd hs List.not_mem_nil
  | v :: vs => List.forall_mem_cons.2 ⟨inlined_literal v, inlined_literalAll vs⟩
end

/-! ## Columns -/

theorem inlined_typeSql (d : Dialect) (f : Field) : Inlined (d.typeSql f) := by
  unfold Dialect.typeSql
  cases d <;> dsimp only <;> split
  case postgres.isTrue => exact .of_forall (by decide) (by decide)
  case sqlite.isTrue => exact .of_forall (by decide) (by decide)
  all_goals cases f.dataType <;> exact .of_forall (by decide) (by decide)

/-- A part of a definition that may be left out. -/
theorem Sql.Inlined.optional {a b : String} (ha : Inlined a) (hb : Inlined b)
    (h : Front b.toList) (c : Bool) : Inlined (a ++ if c then b else "") := by
  cases c with
  | true => exact ha.append hb (.inr h)
  | false => simpa using ha

theorem inlined_columnDefinition (d : Dialect) (f : Field) : Inlined (d.columnDefinition f) := by
  have hnull := (inlined_typeSql d f).optional
    (.of_forall (by decide) (by decide) : Inlined " NOT NULL") (by decide)
    (Dialect.isNotNull f && !f.primaryKey)
  have hunique := hnull.optional (.of_forall (by decide) (by decide) : Inlined " UNIQUE")
    (by decide) (f.unique && !f.primaryKey)
  unfold Dialect.columnDefinition
  cases hempty : (Dialect.defaultSql f).isEmpty with
  | true =>
    rw [if_pos rfl, String.append_empty]
    exact hunique
  | false =>
    have hliteral : Inlined (" DEFAULT " ++ Dialect.defaultSql f) := by
      cases hvalue : f.default with
      | none => simp [Dialect.defaultSql, hvalue] at hempty
      | some v =>
        rw [Dialect.defaultSql, hvalue]
        exact (Inlined.of_forall (by decide) (by decide) : Inlined " DEFAULT ").append
          (inlined_literal v) (.inl (by decide))
    rw [if_neg Bool.false_ne_true]
    refine hunique.append hliteral (.inr ?_)
    rw [String.toList_append]
    intro c hc
    cases hc
    rfl

/-- The lexemes of a column and its definition. -/
def columnLexemes (d : Dialect) (f : Field) : List Lexeme :=
  .word f.column :: lexemes (d.columnDefinition f)

theorem lexes_columnText (d : Dialect) {f : Field} (h : isIdentifier f.column = true) :
    Lexes (columnText d f) (columnLexemes d f) := by
  have hname := (lexes_identifier h).before (by decide : Lexes " " []) (by decide)
  exact hname.behind (inlined_columnDefinition d f).lexes (back_append (by decide) f.column)

theorem inert_columnText (d : Dialect) {f : Field} (h : isIdentifier f.column = true) :
    Inert (columnText d f) :=
  ((inert_of_isIdentifier h).append (by decide)).append (inlined_columnDefinition d f).inert

theorem columnNames_column (d : Dialect) (f : Field) (rest : List Lexeme) :
    columnNames 0 true (columnLexemes d f ++ rest) =
      (columnNames 0 false rest).map (foldName f.column :: ·) := by
  rw [columnLexemes, List.cons_append, columnNames, (inlined_columnDefinition d f).skipped]
  rfl

/-- The columns of a list are named by their first lexemes. -/
theorem columnNames_fields (d : Dialect) {fs : List Field} (h : fs ≠ []) :
    columnNames 0 true ([.mark ','].intercalate (fs.map (columnLexemes d)) ++ [.mark ')']) =
      some (fs.map fun f => foldName f.column) := by
  have hcomma (rest : List Lexeme) :
      columnNames 0 false (.mark ',' :: rest) = columnNames 0 true rest := by
    rw [columnNames, if_neg (by decide), if_neg (by decide)]
    rfl
  induction fs with
  | nil => exact absurd rfl h
  | cons f fs ih =>
    cases fs with
    | nil =>
      rw [List.map_singleton, List.intercalate_singleton, columnNames_column]
      rfl
    | cons g fs =>
      rw [List.map_cons, List.map_cons, List.intercalate_cons_cons, ← List.map_cons,
        List.append_assoc, List.append_assoc, columnNames_column, List.singleton_append, hcomma,
        ih (List.cons_ne_nil _ _)]
      rfl

/-! ## Changes -/

/-- The names that a change stores in a database that folds bare names. -/
def Change.ddl : Change → Ddl
  | createTable m => .createTable m.table (m.fields.map fun f => foldName f.column)
  | addColumn m f => .addColumn m.table (foldName f.column)
  | createIndex m f => .createIndex (foldName (indexName m f)) m.table (foldName f.column)

/-- A change of a well-formed model and a field of its own. -/
def Change.Proper : Change → Prop
  | createTable m => m.WellFormed
  | addColumn m f | createIndex m f => m.WellFormed ∧ f ∈ m.fields

theorem Model.WellFormed.fields_ne_nil {m : Model} (h : m.WellFormed) : m.fields ≠ [] := by
  obtain ⟨f, hf, -⟩ := h.getField_id
  exact List.ne_nil_of_mem (Model.getField_mem hf)

theorem isNameChar_indexName {m : Model} (hm : m.WellFormed) {f : Field} (hf : f ∈ m.fields) :
    ∀ c ∈ (indexName m f).toList, isNameChar c = true := by
  intro c hc
  simp only [indexName, String.toList_append, List.mem_append] at hc
  have hunderscore : "_".toList.all isNameChar = true := by decide
  have hindex : "_index".toList.all isNameChar = true := by decide
  rcases hc with ((hc | hc) | hc) | hc
  · exact isNameChar_of_isIdentifier hm.table c hc
  · exact List.all_eq_true.1 hunderscore c hc
  · exact isNameChar_of_isIdentifier (hm.identifiers f hf).2 c hc
  · exact List.all_eq_true.1 hindex c hc

theorem lexes_indexName {m : Model} (hm : m.WellFormed) {f : Field} (hf : f ∈ m.fields) :
    Lexes (indexName m f) [.word (indexName m f)] := by
  refine lexes_word (fun hnil => ?_) (isNameChar_indexName hm hf)
  have hmem : '_' ∈ (indexName m f).toList := by simp [indexName]
  rw [hnil] at hmem
  exact List.not_mem_nil hmem

/-- The statement of a change holds no placeholder. -/
theorem Change.inert_text (d : Dialect) {change : Change} (h : change.Proper) :
    Inert (change.text d) := by
  cases change with
  | createTable m =>
    have hcolumns : Inert (join ", " (m.fields.map (columnText d))) :=
      .join (by decide)
        (List.forall_mem_map.2 fun f hf => inert_columnText d (h.identifiers f hf).2)
    have htable := (by decide : Inert "CREATE TABLE ").append (inert_quoteName m.table)
    exact ((htable.append (by decide : Inert " (")).append hcolumns).append (by decide)
  | addColumn m f =>
    obtain ⟨hm, hf⟩ := h
    have htable := (by decide : Inert "ALTER TABLE ").append (inert_quoteName m.table)
    exact (htable.append (by decide : Inert " ADD COLUMN ")).append
      (inert_columnText d (hm.identifiers f hf).2)
  | createIndex m f =>
    obtain ⟨hm, hf⟩ := h
    have hname : Inert (indexName m f) :=
      .of_forall fun c hc => ne_of_isNameChar (isNameChar_indexName hm hf c hc)
    have hon := ((by decide : Inert "CREATE INDEX ").append hname).append (by decide : Inert " ON ")
    have htable := (hon.append (inert_quoteName m.table)).append (by decide : Inert " (")
    exact (htable.append (inert_of_isIdentifier (hm.identifiers f hf).2)).append (by decide)

theorem readDdl_createTable {sql table : String} {columns : List String} {ls : List Lexeme}
    (h : lexemes sql = .word "CREATE" :: .word "TABLE" :: .name table :: .mark '(' :: ls)
    (hcolumns : columnNames 0 true ls = some columns) :
    readDdl sql = some (.createTable table columns) := by
  rw [readDdl, h]
  simp [hcolumns, storedName]

theorem readDdl_addColumn {sql table column : String} {ls : List Lexeme}
    (h : lexemes sql = .word "ALTER" :: .word "TABLE" :: .name table :: .word "ADD" ::
      .word "COLUMN" :: .word column :: ls) :
    readDdl sql = some (.addColumn table (foldName column)) := by
  rw [readDdl, h]
  simp [storedName]

theorem readDdl_createIndex {sql name table column : String}
    (h : lexemes sql = [.word "CREATE", .word "INDEX", .word name, .word "ON", .name table,
      .mark '(', .word column, .mark ')']) :
    readDdl sql = some (.createIndex (foldName name) table (foldName column)) := by
  rw [readDdl, h]
  simp [storedName]

/-- The statement that adds a column to a table. -/
theorem lexes_addColumn (d : Dialect) {m : Model} {f : Field} (h : isIdentifier f.column = true) :
    Lexes ((Change.addColumn m f).text d) (.word "ALTER" :: .word "TABLE" :: .name m.table ::
      .word "ADD" :: .word "COLUMN" :: columnLexemes d f) := by
  have htable := (by decide : Lexes "ALTER TABLE " [.word "ALTER", .word "TABLE"]).behind
    (lexes_quoteName m.table) (by decide)
  have hadd := htable.before
    (by decide : Lexes " ADD COLUMN " [.word "ADD", .word "COLUMN"]) (by decide)
  exact hadd.behind (lexes_columnText d h) (back_append (by decide) _)

/-- Reading the statement of a change gives the names that it stores. -/
theorem readDdl_text (d : Dialect) {change : Change} (h : change.Proper) :
    readDdl (change.text d) = some change.ddl := by
  cases change with
  | createTable m =>
    have hcolumns : List.Forall₂ Lexes (m.fields.map (columnText d))
        (m.fields.map (columnLexemes d)) := by
      rw [List.forall₂_map_left_iff, List.forall₂_map_right_iff, List.forall₂_same]
      exact fun f hf => lexes_columnText d (h.identifiers f hf).2
    have hlist := Lexes.join (by decide : Lexes ", " [.mark ',']) (by decide) (by decide) hcolumns
    have htable := (by decide : Lexes "CREATE TABLE " [.word "CREATE", .word "TABLE"]).behind
      (lexes_quoteName m.table) (by decide)
    have hopen := htable.before (by decide : Lexes " (" [.mark '(']) (by decide)
    have hinner := hopen.behind hlist (back_append (by decide) _)
    have hall := hinner.before (by decide : Lexes ")" [.mark ')']) (by decide)
    refine readDdl_createTable ?_ (columnNames_fields d h.fields_ne_nil)
    exact hall.lexemes
  | addColumn m f =>
    obtain ⟨hm, hf⟩ := h
    exact readDdl_addColumn (lexes_addColumn d (hm.identifiers f hf).2).lexemes
  | createIndex m f =>
    obtain ⟨hm, hf⟩ := h
    have hname := (by decide : Lexes "CREATE INDEX " [.word "CREATE", .word "INDEX"]).behind
      (lexes_indexName hm hf) (by decide)
    have hon := hname.before (by decide : Lexes " ON " [.word "ON"]) (by decide)
    have htable := hon.behind (lexes_quoteName m.table) (back_append (by decide) _)
    have hopen := htable.before (by decide : Lexes " (" [.mark '(']) (by decide)
    have hcolumn := hopen.behind (lexes_identifier (hm.identifiers f hf).2)
      (back_append (by decide) _)
    have hall := hcolumn.before (by decide : Lexes ")" [.mark ')']) (by decide)
    exact readDdl_createIndex hall.lexemes

end RecordModel
