import RecordModel.Catalog.Definition.Reader
import RecordModel.Proofs.Catalog.Reachable
import RecordModel.Proofs.Text.Cuts

/-!
# How a definition may be written

A definition can be written in many ways. A line holds a header, a field or a closing brace;
blanks stand between its words as they like, a comment or a carriage return may follow, a field
may end with a comma, and its modifiers come in any order. Lines without content may stand
anywhere. `Definition.Written` is the relation between a definition and its written forms; it
says nothing about names, so that it can be asked which names survive being written.

Results:
* `Definition.exists_written`: whatever has no default can be written.
* `scalarType?_eq_some`: the keywords of the scalar types.
* `Spread.wordsFrom_eq`: words with gaps in front of them are found again.
* `Line.Forms.solid`, `Line.Forms.not_mem`: a line with proper names has something else than
  blanks at its ends, and holds neither a comment mark nor a line feed.
-/
namespace RecordModel

open RecordModel.Text

/-! ## Gaps and line ends -/

def Gap (cs : List Char) : Prop := ∀ c ∈ cs, c = ' ' ∨ c = '\t'

instance (cs : List Char) : Decidable (Gap cs) :=
  decidable_of_iff (cs.all (fun c => c = ' ' ∨ c = '\t') = true) (by simp [Gap])

/-- What may follow on a line: blanks, a carriage return, a comment. -/
inductive LineEnd : List Char → Prop where
  | blank {gap : List Char} : Gap gap → LineEnd gap
  | carriageReturn {gap : List Char} : Gap gap → LineEnd (gap ++ ['\r'])
  | comment {gap mark text : List Char} : Gap gap → mark ∈ [['/', '/'], ['#']] → '\n' ∉ text →
      LineEnd (gap ++ (mark ++ text))

/-- Words with a gap in front of each. -/
inductive Spread : List String → List Char → Prop where
  | nil : Spread [] []
  | cons {gap cs : List Char} {word : String} {words : List String} : Gap gap → gap ≠ [] →
      Spread words cs → Spread (word :: words) (gap ++ (word.toList ++ cs))

/-- Perhaps a comma behind a gap. -/
def Comma (cs : List Char) : Prop := cs = [] ∨ ∃ gap, Gap gap ∧ cs = gap ++ [',']

/-! ## Types and modifiers -/

/-- The words for a scalar type, in lower case. -/
def DataType.keywords : DataType → List String
  | .integer => ["int", "integer", "i64"]
  | .float => ["float", "double", "f64"]
  | .text => ["text", "string", "char"]
  | .boolean => ["bool", "boolean"]
  | .date => ["date"]
  | .dateTime => ["datetime", "timestamp"]

/-- The words for a type: a keyword in upper or lower case, or the target of a relation. -/
def FieldType.Spelled : FieldType → String → Prop
  | .scalar type, word => lowerText word ∈ type.keywords
  | .relation target, word => word = target

inductive Modifier where
  | required
  | unique
  | index
  | column (name : String)
  deriving DecidableEq

/-- The words for a mark, in lower case. -/
def Modifier.keywords : Modifier → List String
  | .required => ["required", "not_null"]
  | .unique => ["unique"]
  | .index => ["index"]
  | .column _ => []

/-- The words for a modifier: a keyword in upper or lower case, or a column by its name. -/
inductive Modifier.Spelled : Modifier → String → Prop where
  | keyword {m : Modifier} {word : String} : lowerText word ∈ m.keywords → Spelled m word
  | column {name : String} : Spelled (.column name) ("column=" ++ name)

/-- The modifiers that a field needs. -/
def FieldDefinition.modifiers (d : FieldDefinition) : List Modifier :=
  (if d.required then [.required] else []) ++ (if d.unique then [.unique] else []) ++
    (if d.index then [.index] else []) ++ (d.column.map Modifier.column).toList

/-! ## Lines -/

inductive Line where
  | header (name : String) (table : Option String)
  | field (d : FieldDefinition)
  | closing

def ModelDefinition.lines (m : ModelDefinition) : List Line :=
  .header m.name m.table :: (m.fields.map Line.field ++ [.closing])

/-- The words that give a model its table. -/
def tableWords : Option String → List String
  | none => []
  | some table => ["table", table]

/-- The forms of a line, without what stands around it. A default is not written. -/
inductive Line.Forms : Line → List Char → Prop where
  | header {name : String} {table : Option String} {cs gap : List Char} :
      Spread (name :: tableWords table) cs → Gap gap →
      Forms (.header name table) ("model".toList ++ (cs ++ gap) ++ ['{'])
  | field {d : FieldDefinition} {before after cs comma : List Char} {type : String}
      {ms : List Modifier} {words : List String} :
      d.default = none → Gap before → Gap after → d.type.Spelled type → ms.Perm d.modifiers →
      List.Forall₂ Modifier.Spelled ms words → Spread words cs → Comma comma →
      Forms (.field d) (d.name.toList ++ before ++ ':' :: (after ++ (type.toList ++ cs)) ++ comma)
  | closing : Forms .closing ['}']

/-- The raw lines of a text that hold these lines, and others without content. -/
inductive WrittenLines : List Line → List (List Char) → Prop where
  | nil : WrittenLines [] []
  | blank {ls : List Line} {raws : List (List Char)} {raw : List Char} : LineEnd raw →
      WrittenLines ls raws → WrittenLines ls (raw :: raws)
  | line {l : Line} {ls : List Line} {raws : List (List Char)} {front core back : List Char} :
      Gap front → l.Forms core → LineEnd back → WrittenLines ls raws →
      WrittenLines (l :: ls) ((front ++ core ++ back) :: raws)

/-- The written forms of a definition. -/
def Definition.Written (d : Definition) (text : String) : Prop :=
  ∃ raws, WrittenLines (d.models.flatMap ModelDefinition.lines) raws ∧
    text.toList = ['\n'].intercalate raws

/-! ## A form for everything -/

theorem exists_spread (words : List String) : ∃ cs, Spread words cs := by
  induction words with
  | nil => exact ⟨[], .nil⟩
  | cons word words ih =>
    obtain ⟨cs, h⟩ := ih
    exact ⟨_, .cons (show Gap [' '] by decide) (by decide) h⟩

theorem DataType.exists_keyword : ∀ type : DataType, ∃ word, lowerText word ∈ type.keywords
  | .integer => ⟨"int", by decide⟩
  | .float => ⟨"float", by decide⟩
  | .text => ⟨"text", by decide⟩
  | .boolean => ⟨"bool", by decide⟩
  | .date => ⟨"date", by decide⟩
  | .dateTime => ⟨"datetime", by decide⟩

theorem FieldType.exists_spelled : ∀ type : FieldType, ∃ word, type.Spelled word
  | .scalar type => type.exists_keyword
  | .relation target => ⟨target, rfl⟩

theorem Modifier.exists_spelled : ∀ m : Modifier, ∃ word, m.Spelled word
  | .required => ⟨"required", .keyword (by decide)⟩
  | .unique => ⟨"unique", .keyword (by decide)⟩
  | .index => ⟨"index", .keyword (by decide)⟩
  | .column name => ⟨"column=" ++ name, .column⟩

theorem exists_spelled_all (ms : List Modifier) :
    ∃ words, List.Forall₂ Modifier.Spelled ms words := by
  induction ms with
  | nil => exact ⟨[], .nil⟩
  | cons m ms ih =>
    obtain ⟨word, hword⟩ := m.exists_spelled
    obtain ⟨words, hwords⟩ := ih
    exact ⟨word :: words, .cons hword hwords⟩

theorem FieldDefinition.exists_forms {d : FieldDefinition} (h : d.default = none) :
    ∃ core, (Line.field d).Forms core := by
  obtain ⟨type, htype⟩ := d.type.exists_spelled
  obtain ⟨words, hwords⟩ := exists_spelled_all d.modifiers
  obtain ⟨cs, hspread⟩ := exists_spread words
  have hgap : Gap [' '] := by decide
  exact ⟨_, .field h hgap hgap htype (List.Perm.refl _) hwords hspread (.inl rfl)⟩

theorem ModelDefinition.exists_forms {m : ModelDefinition} (h : ∀ f ∈ m.fields, f.default = none) :
    ∀ l ∈ m.lines, ∃ core, l.Forms core := by
  intro l hl
  simp only [ModelDefinition.lines, List.mem_cons, List.mem_append, List.mem_map,
    List.not_mem_nil, or_false] at hl
  obtain rfl | ⟨f, hf, rfl⟩ | rfl := hl
  · obtain ⟨cs, hspread⟩ := exists_spread (m.name :: tableWords m.table)
    exact ⟨_, .header hspread (show Gap [' '] by decide)⟩
  · exact FieldDefinition.exists_forms (h f hf)
  · exact ⟨_, .closing⟩

theorem exists_writtenLines {ls : List Line} (h : ∀ l ∈ ls, ∃ core, l.Forms core) :
    ∃ raws, WrittenLines ls raws := by
  induction ls with
  | nil => exact ⟨[], .nil⟩
  | cons l ls ih =>
    rw [List.forall_mem_cons] at h
    obtain ⟨core, hcore⟩ := h.1
    obtain ⟨raws, hraws⟩ := ih h.2
    have hnone : Gap [] := by decide
    exact ⟨_, .line hnone hcore (.blank hnone) hraws⟩

/-- A definition without defaults can be written. -/
theorem Definition.exists_written {d : Definition}
    (h : ∀ m ∈ d.models, ∀ f ∈ m.fields, f.default = none) : ∃ text, d.Written text := by
  have hforms : ∀ l ∈ d.models.flatMap ModelDefinition.lines, ∃ core, l.Forms core := by
    intro l hl
    obtain ⟨m, hm, hl⟩ := List.mem_flatMap.1 hl
    exact ModelDefinition.exists_forms (h m hm) l hl
  obtain ⟨raws, hraws⟩ := exists_writtenLines hforms
  exact ⟨_, raws, hraws, String.toList_ofList⟩

/-! ## Names -/

/-- The names of a field can be read: they are identifiers, and the target of a relation is not
taken for a scalar type. -/
structure FieldDefinition.Named (d : FieldDefinition) : Prop where
  name : isIdentifier d.name = true
  target : ∀ target, d.type = .relation target →
    isIdentifier target = true ∧ ∀ type : DataType, lowerText target ∉ type.keywords
  column : ∀ column ∈ d.column, isIdentifier column = true

structure ModelDefinition.Named (m : ModelDefinition) : Prop where
  name : isIdentifier m.name = true
  table : ∀ table ∈ m.table, isIdentifier table = true
  fields : ∀ f ∈ m.fields, f.Named

def Line.Named : Line → Prop
  | .header name table => isIdentifier name = true ∧ ∀ t ∈ table, isIdentifier t = true
  | .field d => d.Named
  | .closing => True

theorem ModelDefinition.Named.lines {m : ModelDefinition} (h : m.Named) :
    ∀ l ∈ m.lines, l.Named := by
  intro l hl
  simp only [ModelDefinition.lines, List.mem_cons, List.mem_append, List.mem_map,
    List.not_mem_nil, or_false] at hl
  obtain rfl | ⟨f, hf, rfl⟩ | rfl := hl
  · exact ⟨h.name, h.table⟩
  · exact h.fields f hf
  · trivial

/-! ## Keywords -/

theorem scalarType?_eq_some {word : String} {type : DataType} :
    scalarType? word = some type ↔ lowerText word ∈ type.keywords := by
  unfold scalarType?
  dsimp only
  generalize lowerText word = w
  split
  · rename_i h
    obtain rfl | rfl | rfl := h <;> cases type <;> decide
  split
  · rename_i h
    obtain rfl | rfl | rfl := h <;> cases type <;> decide
  split
  · rename_i h
    obtain rfl | rfl | rfl := h <;> cases type <;> decide
  split
  · rename_i h
    obtain rfl | rfl := h <;> cases type <;> decide
  split
  · rename_i h
    subst h
    cases type <;> decide
  split
  · rename_i h
    obtain rfl | rfl := h <;> cases type <;> decide
  · cases type <;> simp_all [DataType.keywords]

theorem scalarType?_eq_none {word : String} :
    scalarType? word = none ↔ ∀ type : DataType, lowerText word ∉ type.keywords := by
  rw [Option.eq_none_iff_forall_ne_some]
  exact forall_congr' fun type => not_congr scalarType?_eq_some

/-! ## Characters -/

/-- The characters of the words that a line is written with. -/
def isInk (c : Char) : Bool := isNameChar c || c == '='

theorem toNat_of_isAlpha {c : Char} (h : c.isAlpha = true) : 65 ≤ c.toNat ∧ c.toNat ≤ 122 := by
  rcases Bool.or_eq_true_iff.1 h with h | h
  · obtain ⟨hlow, hhigh⟩ : 'A'.val ≤ c.val ∧ c.val ≤ 'Z'.val := of_decide_eq_true h
    exact ⟨UInt32.le_iff_toNat_le.1 hlow,
      Nat.le_trans (UInt32.le_iff_toNat_le.1 hhigh) (by decide)⟩
  · obtain ⟨hlow, hhigh⟩ := Bool.and_eq_true_iff.1 h
    exact ⟨Nat.le_trans (by decide) (UInt32.le_iff_toNat_le.1 (of_decide_eq_true hlow)),
      UInt32.le_iff_toNat_le.1 (of_decide_eq_true hhigh)⟩

theorem isBlank_of_isInk {c : Char} (h : isInk c = true) : isBlank c = false := by
  have hrange : 48 ≤ c.toNat ∧ c.toNat ≤ 122 := by
    simp only [isInk, isNameChar, Char.isAlphanum, Bool.or_eq_true, beq_iff_eq] at h
    rcases h with ((h | h) | rfl) | rfl
    · have halpha := toNat_of_isAlpha h
      omega
    · obtain ⟨hlow, hhigh⟩ := Bool.and_eq_true_iff.1 h
      exact ⟨UInt32.le_iff_toNat_le.1 (of_decide_eq_true hlow),
        Nat.le_trans (UInt32.le_iff_toNat_le.1 (of_decide_eq_true hhigh)) (by decide)⟩
    · decide
    · decide
  simp [isBlank]
  omega

/-- A word that a line may be written with. -/
structure InkWord (word : String) : Prop where
  ne_nil : word.toList ≠ []
  ink : ∀ c ∈ word.toList, isInk c = true

instance (word : String) : Decidable (InkWord word) :=
  decidable_of_iff (word.toList ≠ [] ∧ word.toList.all isInk = true)
    ⟨fun h => ⟨h.1, List.all_eq_true.1 h.2⟩, fun h => ⟨h.ne_nil, List.all_eq_true.2 h.ink⟩⟩

theorem InkWord.isWord {word : String} (h : InkWord word) : IsWord word.toList :=
  ⟨h.ne_nil, fun c hc => isBlank_of_isInk (h.ink c hc)⟩

theorem inkWord_of_isNameChar {word : String} (hne : word.toList ≠ [])
    (h : ∀ c ∈ word.toList, isNameChar c = true) : InkWord word := by
  refine ⟨hne, ?_⟩
  intro c hc
  rw [isInk, h c hc, Bool.true_or]

theorem inkWord_of_isIdentifier {name : String} (h : isIdentifier name = true) : InkWord name := by
  refine inkWord_of_isNameChar ?_ (isNameChar_of_isIdentifier h)
  intro hnil
  rw [isIdentifier, hnil] at h
  cases h

theorem InkWord.append {a b : String} (ha : InkWord a) (hb : InkWord b) : InkWord (a ++ b) := by
  constructor
  · rw [String.toList_append]
    exact List.append_ne_nil_of_left_ne_nil ha.ne_nil _
  · rw [String.toList_append]
    exact List.forall_mem_append.2 ⟨ha.ink, hb.ink⟩

theorem isNameChar_of_toLower {c : Char} (h : isNameChar c.toLower = true) :
    isNameChar c = true := by
  by_cases hupper : 'A'.val ≤ c.val ∧ c.val ≤ 'Z'.val
  · have halpha : c.isAlpha = true := Bool.or_eq_true_iff.2 (.inl (decide_eq_true hupper))
    simp [isNameChar, Char.isAlphanum, halpha]
  · have hlower : c.toLower = c := dif_neg hupper
    rwa [hlower] at h

theorem toList_lowerText (word : String) :
    (lowerText word).toList = word.toList.map Char.toLower := String.toList_ofList

/-- Keywords are words of letters, digits and underscores. -/
def areKeywords (words : List String) : Bool :=
  words.all fun w => !w.toList.isEmpty && w.toList.all isNameChar

theorem areKeywords_type (type : DataType) : areKeywords type.keywords = true := by
  cases type <;> rfl

theorem areKeywords_modifier (m : Modifier) : areKeywords m.keywords = true := by
  cases m <;> rfl

/-- The letters of a keyword may be of either case. -/
theorem isNameChar_of_keyword {word : String} {words : List String}
    (hwords : areKeywords words = true) (h : lowerText word ∈ words) :
    word.toList ≠ [] ∧ ∀ c ∈ word.toList, isNameChar c = true := by
  have hlower := List.all_eq_true.1 hwords _ h
  rw [toList_lowerText, Bool.and_eq_true, List.all_map, List.all_eq_true] at hlower
  refine ⟨?_, fun c hc => isNameChar_of_toLower (hlower.2 c hc)⟩
  simpa using hlower.1

theorem inkWord_of_keyword {word : String} {words : List String}
    (hwords : areKeywords words = true) (h : lowerText word ∈ words) : InkWord word := by
  obtain ⟨hne, hname⟩ := isNameChar_of_keyword hwords h
  exact inkWord_of_isNameChar hne hname

theorem FieldType.Spelled.inkWord {type : FieldType} {word : String} (h : type.Spelled word)
    (htarget : ∀ target, type = .relation target → isIdentifier target = true) : InkWord word := by
  cases type with
  | scalar t => exact inkWord_of_keyword (areKeywords_type t) h
  | relation target =>
    cases h
    exact inkWord_of_isIdentifier (htarget word rfl)

/-- Only a column needs a name. -/
def Modifier.Named : Modifier → Prop
  | .column name => isIdentifier name = true
  | _ => True

theorem Modifier.Spelled.inkWord {m : Modifier} {word : String} (h : m.Spelled word)
    (hm : m.Named) : InkWord word := by
  cases h with
  | keyword h => exact inkWord_of_keyword (areKeywords_modifier m) h
  | column =>
    have hcolumn : InkWord "column=" := by decide
    exact hcolumn.append (inkWord_of_isIdentifier hm)

theorem FieldDefinition.column_mem_modifiers {d : FieldDefinition} {name : String} :
    .column name ∈ d.modifiers ↔ d.column = some name := by
  have hflag (b : Bool) (m : Modifier) (hm : m ≠ .column name) :
      .column name ∉ (if b then [m] else []) := by
    cases b with
    | false => simp
    | true => simpa using hm.symm
  simp [FieldDefinition.modifiers, hflag]

theorem FieldDefinition.Named.modifiers {d : FieldDefinition} (h : d.Named) :
    ∀ m ∈ d.modifiers, m.Named := by
  intro m hm
  cases m with
  | column name => exact h.column name (FieldDefinition.column_mem_modifiers.1 hm)
  | required => trivial
  | unique => trivial
  | index => trivial

theorem inkWord_of_spelled {ms : List Modifier} {words : List String}
    (h : List.Forall₂ Modifier.Spelled ms words) (hms : ∀ m ∈ ms, m.Named) :
    ∀ w ∈ words, InkWord w := by
  induction h with
  | nil => simp
  | cons hword _ ih =>
    rw [List.forall_mem_cons] at hms ⊢
    exact ⟨hword.inkWord hms.1, ih hms.2⟩

theorem inkWord_tableWords {table : Option String} (h : ∀ t ∈ table, isIdentifier t = true) :
    ∀ w ∈ tableWords table, InkWord w := by
  cases table with
  | none => simp [tableWords]
  | some t =>
    have ht : InkWord t := inkWord_of_isIdentifier (h t rfl)
    have hkeyword : InkWord "table" := by decide
    simp [tableWords, ht, hkeyword]

/-! ## Words and gaps -/

/-- Words and gaps, without a mark between them. -/
def Unmarked (cs : List Char) : Prop := ∀ c ∈ cs, isInk c = true ∨ c = ' ' ∨ c = '\t'

theorem Unmarked.append {a b : List Char} (ha : Unmarked a) (hb : Unmarked b) :
    Unmarked (a ++ b) := List.forall_mem_append.2 ⟨ha, hb⟩

theorem Gap.unmarked {cs : List Char} (h : Gap cs) : Unmarked cs := fun c hc => .inr (h c hc)

theorem Gap.blanks {cs : List Char} (h : Gap cs) : Blanks cs := by
  intro c hc
  rcases h c hc with rfl | rfl <;> decide

theorem InkWord.unmarked {word : String} (h : InkWord word) : Unmarked word.toList :=
  fun c hc => .inl (h.ink c hc)

section Spread

variable {words : List String} {cs : List Char}

theorem Spread.unmarked (h : Spread words cs) (hink : ∀ w ∈ words, InkWord w) : Unmarked cs := by
  induction h with
  | nil => simp [Unmarked]
  | cons hgap _ _ ih =>
    rw [List.forall_mem_cons] at hink
    exact hgap.unmarked.append (hink.1.unmarked.append (ih hink.2))

/-- Spread words begin with a gap, if they do not end at once. -/
theorem Spread.front (h : Spread words cs) {g : List Char} (hg : Blanks g) :
    ∀ c ∈ (cs ++ g).head?, isBlank c = true := by
  intro c hc
  cases h with
  | nil => exact hg c (List.mem_of_mem_head? hc)
  | @cons gap cs word words hgap hne h =>
    obtain ⟨d, rest, rfl⟩ := List.exists_cons_of_ne_nil hne
    cases hc
    exact hgap.blanks c (by simp)

theorem Spread.wordsFrom_eq (h : Spread words cs) (hwords : ∀ w ∈ words, IsWord w.toList)
    {g : List Char} (hg : Blanks g) : wordsFrom [] (cs ++ g) = words.map String.toList := by
  induction h with
  | nil =>
    have hblank : wordsFrom [] (g ++ []) = wordsFrom [] [] := wordsFrom_blanks hg
    rwa [List.append_nil] at hblank
  | @cons gap cs word words hgap hne h ih =>
    rw [List.forall_mem_cons] at hwords
    rw [List.append_assoc, wordsFrom_blanks hgap.blanks, List.append_assoc,
      wordsFrom_word hwords.1 (h.front hg), ih hwords.2, List.map_cons]

theorem Spread.words_eq (h : Spread words cs) (hwords : ∀ w ∈ words, IsWord w.toList)
    {word : String} (hword : IsWord word.toList) {g : List Char} (hg : Blanks g) :
    Text.words (String.ofList (word.toList ++ (cs ++ g))) = word :: words := by
  rw [Text.words, String.toList_ofList, wordsFrom_word hword (h.front hg),
    h.wordsFrom_eq hwords hg]
  simp

theorem Spread.solid (h : Spread words cs) (hwords : ∀ w ∈ words, IsWord w.toList)
    {word : String} (hword : IsWord word.toList) : Solid (word.toList ++ cs) := by
  induction h generalizing word with
  | nil => simpa using hword.toSolid
  | cons _ _ _ ih =>
    rw [List.forall_mem_cons] at hwords
    rw [← List.append_assoc]
    exact hword.toSolid.append (ih hwords.2 hwords.1)

end Spread

/-! ## Lines with proper names -/

theorem FieldDefinition.Named.inkWord_type {d : FieldDefinition} (h : d.Named) {type : String}
    (htype : d.type.Spelled type) : InkWord type :=
  htype.inkWord fun target ht => (h.target target ht).1

theorem FieldDefinition.Named.inkWord_modifiers {d : FieldDefinition} (h : d.Named)
    {ms : List Modifier} {words : List String} (hms : ms.Perm d.modifiers)
    (hwords : List.Forall₂ Modifier.Spelled ms words) : ∀ w ∈ words, InkWord w :=
  inkWord_of_spelled hwords fun m hm => h.modifiers m (hms.mem_iff.1 hm)

/-- A field without its comma. -/
theorem solid_field {name : String} (hname : InkWord name) {before after rest : List Char}
    (hrest : Solid rest) : Solid (name.toList ++ before ++ ':' :: (after ++ rest)) := by
  have happend : name.toList ++ before ++ ':' :: (after ++ rest) =
      name.toList ++ (before ++ ':' :: after) ++ rest := by simp
  rw [happend]
  exact hname.isWord.toSolid.append hrest

theorem solid_singleton {c : Char} (h : isBlank c = false) : Solid [c] :=
  ⟨⟨c, [], rfl, h⟩, ⟨[], c, rfl, h⟩⟩

theorem Comma.solid {cs comma : List Char} (h : Comma comma) (hcs : Solid cs) :
    Solid (cs ++ comma) := by
  rcases h with rfl | ⟨gap, -, rfl⟩
  · rwa [List.append_nil]
  · rw [← List.append_assoc]
    exact hcs.append (solid_singleton (by decide))

theorem inkWord_model : InkWord "model" := by decide

namespace Line.Forms

variable {l : Line} {core : List Char}

theorem solid (h : l.Forms core) (hl : l.Named) : Solid core := by
  cases h with
  | header => exact inkWord_model.isWord.toSolid.append (solid_singleton (by decide))
  | @field d before after cs comma type ms words _ _ _ htype hms hwords hspread hcomma =>
    have hrest : Solid (type.toList ++ cs) :=
      hspread.solid (fun w hw => (hl.inkWord_modifiers hms hwords w hw).isWord)
        (hl.inkWord_type htype).isWord
    exact hcomma.solid (solid_field (inkWord_of_isIdentifier hl.name) hrest)
  | closing => exact solid_singleton (by decide)

theorem not_mem (h : l.Forms core) (hl : l.Named) {c : Char}
    (hplain : ¬ (isInk c = true ∨ c = ' ' ∨ c = '\t')) (hmark : c ∉ [':', ',', '{', '}']) :
    c ∉ core := by
  have hout {cs : List Char} (hcs : Unmarked cs) : c ∉ cs := fun hc => hplain (hcs c hc)
  simp only [List.mem_cons, List.not_mem_nil, or_false, not_or] at hmark
  cases h with
  | header hspread hgap =>
    have hcs := hspread.unmarked (List.forall_mem_cons.2
      ⟨inkWord_of_isIdentifier hl.1, inkWord_tableWords hl.2⟩)
    simp only [List.mem_append, List.mem_singleton, not_or]
    exact ⟨⟨hout inkWord_model.unmarked, hout hcs, hout hgap.unmarked⟩, hmark.2.2.1⟩
  | field _ hbefore hafter htype hms hwords hspread hcomma =>
    have hname := (inkWord_of_isIdentifier hl.name).unmarked
    have hcs := hspread.unmarked (hl.inkWord_modifiers hms hwords)
    simp only [List.mem_append, List.mem_cons, not_or]
    refine ⟨⟨⟨hout hname, hout hbefore.unmarked⟩, hmark.1, hout hafter.unmarked,
      hout (hl.inkWord_type htype).unmarked, hout hcs⟩, ?_⟩
    rcases hcomma with rfl | ⟨gap, hgap, rfl⟩
    · exact List.not_mem_nil
    · simp only [List.mem_append, List.mem_singleton, not_or]
      exact ⟨hout hgap.unmarked, hmark.2.1⟩
  | closing => simpa using hmark.2.2.2

end Line.Forms

theorem LineEnd.not_mem {back : List Char} (h : LineEnd back) : '\n' ∉ back := by
  have hgap {gap : List Char} (hgap : Gap gap) : '\n' ∉ gap := fun hc => by
    rcases hgap _ hc with h | h <;> cases h
  cases h with
  | blank h => exact hgap h
  | carriageReturn h => simp [hgap h]
  | comment h hmark htext =>
    simp only [List.mem_cons, List.not_mem_nil, or_false] at hmark
    rcases hmark with rfl | rfl <;> simp [hgap h, htext]

theorem WrittenLines.ne_nil {ls : List Line} {raws : List (List Char)} (h : WrittenLines ls raws)
    (hls : ls ≠ []) : raws ≠ [] := by
  cases h with
  | nil => exact absurd rfl hls
  | blank => exact List.cons_ne_nil _ _
  | line => exact List.cons_ne_nil _ _

/-- The raw lines of a definition with proper names are the pieces of its text. -/
theorem WrittenLines.not_mem {ls : List Line} {raws : List (List Char)} (h : WrittenLines ls raws)
    (hls : ∀ l ∈ ls, l.Named) : ∀ raw ∈ raws, '\n' ∉ raw := by
  induction h with
  | nil => simp
  | blank hend _ ih => exact List.forall_mem_cons.2 ⟨hend.not_mem, ih hls⟩
  | line hgap hcore hback _ ih =>
    rw [List.forall_mem_cons] at hls
    refine List.forall_mem_cons.2 ⟨?_, ih hls.2⟩
    have hfront : LineEnd _ := .blank hgap
    have hnl := hcore.not_mem hls.1 (c := '\n') (by decide) (by decide)
    simp [hfront.not_mem, hnl, hback.not_mem]

end RecordModel
