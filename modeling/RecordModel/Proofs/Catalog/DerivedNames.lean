import RecordModel.Proofs.Catalog.Names

/-!
# Derived names

A model that is given no table, and a field that is given no column, are stored under names that
are derived from their own. These go into SQL without quotes, so they have to be identifiers
whenever the names are.

A derived name is its own derived name: what it is made of is plain, and a plain text is left as it
is. Apart from capital letters and separators a name is read as it stands, so it is one character
at a time that decides whether the derived name is an identifier.

Results:
* `snakeCase_eq_written`: a derived name is written from left to right, and a word that begins
  inside it never comes after an underscore.
* `snakeCase_eq_self_iff`: the names that are derived from themselves.
* `isIdentifier_snakeCase`: exactly when a derived name is an identifier.
* `Model.not_isSpelling_of_check`: what the check does not find where all names are identifiers.
* `derivedNames_accepted`: derived names are plain, those of identifiers are identifiers, and the
  check takes them.
-/
namespace RecordModel

/-! ## Letters -/

theorem isUpper_iff {c : Char} : c.isUpper = true ↔ 'A' ≤ c ∧ c ≤ 'Z' := decide_eq_true_iff

theorem isLower_iff {c : Char} : c.isLower = true ↔ 'a' ≤ c ∧ c ≤ 'z' :=
  Bool.and_eq_true_iff.trans (and_congr decide_eq_true_iff decide_eq_true_iff)

theorem isLower_toLower {c : Char} (h : c.isUpper = true) : c.toLower.isLower = true := by
  have hrange : 'A'.val ≤ c.val ∧ c.val ≤ 'Z'.val := of_decide_eq_true h
  rw [isLower_iff, Char.le_def, Char.le_def]
  unfold Char.toLower
  rw [dif_pos hrange]
  grind

theorem toLower_ne {c d : Char} (h : c.isUpper = true) (hd : d.isLower = false) :
    c.toLower ≠ d := by
  intro he
  have hlower := isLower_toLower h
  rw [he, hd] at hlower
  cases hlower

/-! ## From left to right -/

/-- What is written of a name, after `written` and with the character `previous` before: no second
underscore is put before a word. -/
def writeSnake (written : List Char) (previous : Option Char) : List Char → List Char
  | [] => written
  | c :: rest =>
    if c = '.' ∨ c = '-' ∨ c = ' ' then writeSnake (written ++ ['_']) (some c) rest
    else if c.isUpper then
      if isBoundary previous rest.head? && written.getLast? != some '_' then
        writeSnake (written ++ ['_', c.toLower]) (some c) rest
      else writeSnake (written ++ [c.toLower]) (some c) rest
    else writeSnake (written ++ [c]) (some c) rest

/-- No word begins after a separator or an underscore. -/
theorem isBoundary_eq_false {c : Char} (h : c = '.' ∨ c = '-' ∨ c = ' ' ∨ c = '_')
    (next : Option Char) : isBoundary (some c) next = false := by
  obtain rfl | rfl | rfl | rfl := h <;> rfl

/-- Where a word begins, the text so far does not end with an underscore, so nothing is lost if
this is not asked. -/
theorem writeSnake_eq {written : List Char} {previous : Option Char} {cs : List Char}
    (h : ∀ next, isBoundary previous next = true → written.getLast? ≠ some '_') :
    writeSnake written previous cs = written ++ snakeFrom previous cs := by
  -- Each character keeps the condition: if a word may begin after it, it is no underscore, and
  -- what is written for it ends with it or its small letter.
  induction cs generalizing written previous with
  | nil => rw [writeSnake, snakeFrom, List.append_nil]
  | cons c cs ih =>
    rw [writeSnake, snakeFrom]
    split
    · rename_i hsep
      rw [ih, List.append_assoc, List.singleton_append]
      intro next hnext
      have hnone := isBoundary_eq_false (hsep.imp_right (Or.imp_right .inl)) next
      exact absurd hnext (by simp [hnone])
    · split
      · rename_i hupper
        have hlast : ∀ out : List Char, ∀ next, isBoundary (some c) next = true →
            (out ++ [c.toLower]).getLast? ≠ some '_' := by
          intro out next _
          rw [List.getLast?_concat]
          exact fun he => toLower_ne hupper (by decide) (Option.some.inj he)
        by_cases hword : isBoundary previous cs.head? = true
        · have hend : (written.getLast? != some '_') = true := bne_iff_ne.2 (h _ hword)
          rw [hword, hend, Bool.and_self, if_pos rfl, if_pos rfl, List.append_cons, ih (hlast _)]
          simp
        · rw [Bool.not_eq_true] at hword
          simp only [hword, Bool.false_and, Bool.false_eq_true, if_false]
          rw [ih (hlast _), List.append_assoc, List.singleton_append]
      · rw [ih, List.append_assoc, List.singleton_append]
        intro next hnext
        rw [List.getLast?_concat]
        intro he
        have hnone := isBoundary_eq_false (c := c) (by simp [Option.some.inj he]) next
        exact absurd hnext (by simp [hnone])

theorem snakeCase_eq_written (name : String) :
    snakeCase name = String.ofList (writeSnake [] none name.toList) := by
  rw [writeSnake_eq (by simp), List.nil_append, snakeCase]

/-! ## Plain names -/

/-- Neither a capital letter nor a separator of words. -/
def IsPlain (c : Char) : Prop := ¬ ('A' ≤ c ∧ c ≤ 'Z') ∧ c ≠ '.' ∧ c ≠ '-' ∧ c ≠ ' '

instance : DecidablePred IsPlain := fun c =>
  inferInstanceAs (Decidable (¬ ('A' ≤ c ∧ c ≤ 'Z') ∧ c ≠ '.' ∧ c ≠ '-' ∧ c ≠ ' '))

theorem isPlain_toLower {c : Char} (h : c.isUpper = true) : IsPlain c.toLower := by
  refine ⟨fun hupper => ?_, toLower_ne h (by decide), toLower_ne h (by decide),
    toLower_ne h (by decide)⟩
  have hlower := (isLower_iff.1 (isLower_toLower h)).1
  exact absurd (Char.le_trans hlower hupper.2) (by decide)

theorem isPlain_snakeFrom (previous : Option Char) (cs : List Char) :
    ∀ c ∈ snakeFrom previous cs, IsPlain c := by
  have hunderscore : IsPlain '_' := by decide
  induction cs generalizing previous with
  | nil => exact fun c hc => absurd hc List.not_mem_nil
  | cons c cs ih =>
    have hrest := ih (some c)
    rw [snakeFrom]
    split
    · exact List.forall_mem_cons.2 ⟨hunderscore, hrest⟩
    · rename_i hsep
      split
      · rename_i hupper
        have hlower := List.forall_mem_cons.2 ⟨isPlain_toLower hupper, hrest⟩
        split
        · exact List.forall_mem_cons.2 ⟨hunderscore, hlower⟩
        · exact hlower
      · rename_i hupper
        rw [isUpper_iff] at hupper
        exact List.forall_mem_cons.2 ⟨⟨hupper, by simpa using hsep⟩, hrest⟩

theorem snakeFrom_of_isPlain {cs : List Char} (h : ∀ c ∈ cs, IsPlain c) (previous : Option Char) :
    snakeFrom previous cs = cs := by
  induction cs generalizing previous with
  | nil => rfl
  | cons c cs ih =>
    obtain ⟨⟨hupper, hsep⟩, hcs⟩ := List.forall_mem_cons.1 h
    rw [← isUpper_iff] at hupper
    rw [snakeFrom, if_neg (by simpa using hsep), if_neg hupper, ih hcs]

theorem isPlain_snakeCase (name : String) : ∀ c ∈ (snakeCase name).toList, IsPlain c := by
  rw [snakeCase, String.toList_ofList]
  exact isPlain_snakeFrom none name.toList

/-- The plain names are derived from themselves, and no others. -/
theorem snakeCase_eq_self_iff {name : String} :
    snakeCase name = name ↔ ∀ c ∈ name.toList, IsPlain c := by
  constructor
  · intro h
    rw [← h]
    exact isPlain_snakeCase name
  · intro h
    rw [snakeCase, snakeFrom_of_isPlain h, String.ofList_toList]

/-! ## Identifiers -/

/-- The character with an underscore for a separator. -/
def joined (c : Char) : Char := if c = '.' ∨ c = '-' ∨ c = ' ' then '_' else c

theorem isNameStart_toLower {c : Char} (h : c.isUpper = true) :
    isNameStart c.toLower = true ∧ isNameStart c = true :=
  ⟨isNameStart_iff.2 (.inl (.inr (isLower_iff.1 (isLower_toLower h)))),
    isNameStart_iff.2 (.inl (.inl (isUpper_iff.1 h)))⟩

theorem isNameChar_of_isNameStart {c : Char} (h : isNameStart c = true) : isNameChar c = true := by
  rw [isNameStart_iff] at h
  rw [isNameChar_iff]
  exact h.imp_right .inr

theorem all_isNameChar_snakeFrom (previous : Option Char) (cs : List Char) :
    (snakeFrom previous cs).all isNameChar = (cs.map joined).all isNameChar := by
  have hunderscore : isNameChar '_' = true := by decide
  induction cs generalizing previous with
  | nil => rfl
  | cons c cs ih =>
    rw [snakeFrom, List.map_cons, List.all_cons, joined]
    split
    · rw [List.all_cons, ih]
    · split
      · rename_i hupper
        obtain ⟨hlower, hstart⟩ := isNameStart_toLower hupper
        rw [isNameChar_of_isNameStart hstart]
        split
        · rw [List.all_cons, List.all_cons, hunderscore, isNameChar_of_isNameStart hlower, ih]
          simp
        · rw [List.all_cons, isNameChar_of_isNameStart hlower, ih]
      · rw [List.all_cons, ih]

/-- A derived name is an identifier exactly if the name is one with underscores for separators. -/
theorem isIdentifier_snakeCase (name : String) :
    isIdentifier (snakeCase name) = isIdentifierChars (name.toList.map joined) := by
  rw [isIdentifier, snakeCase, String.toList_ofList]
  cases name.toList with
  | nil => rfl
  | cons c cs =>
    -- No underscore is put before a first letter, so only the first character itself counts.
    rw [List.map_cons, isIdentifierChars, ← all_isNameChar_snakeFrom (some c) cs, snakeFrom, joined]
    split
    · rfl
    · split
      · rename_i hupper
        obtain ⟨hlower, hstart⟩ := isNameStart_toLower hupper
        rw [if_neg (by simp [isBoundary]), isIdentifierChars, hlower, hstart]
      · rfl

theorem joined_of_isNameChar {c : Char} (h : isNameChar c = true) : joined c = c := by
  refine if_neg ?_
  rintro (rfl | rfl | rfl) <;> exact absurd h (by decide)

theorem isIdentifier_snakeCase_of_isIdentifier {name : String} (h : isIdentifier name = true) :
    isIdentifier (snakeCase name) = true := by
  have hjoined : name.toList.map joined = name.toList.map id :=
    List.map_congr_left fun c hc => joined_of_isNameChar (isNameChar_of_isIdentifier h c hc)
  rw [isIdentifier_snakeCase, hjoined, List.map_id]
  exact h

theorem isIdentifier_append {a b : String} (ha : isIdentifier a = true)
    (hb : ∀ c ∈ b.toList, isNameChar c = true) : isIdentifier (a ++ b) = true := by
  unfold isIdentifier at *
  rw [String.toList_append]
  cases hname : a.toList with
  | nil => rw [hname] at ha; cases ha
  | cons c rest =>
    rw [hname, isIdentifier_cons] at ha
    rw [List.cons_append, isIdentifier_cons]
    exact ⟨ha.1, List.forall_mem_append.2 ⟨ha.2, hb⟩⟩

theorem isIdentifier_column_ofType {name : String} (h : isIdentifier name = true)
    (type : FieldType) : isIdentifier (Field.ofType name type).column = true := by
  have hname := isIdentifier_snakeCase_of_isIdentifier h
  cases type with
  | scalar type => exact hname
  | relation target =>
    have hsuffix : "_id".toList.all isNameChar = true := by decide
    exact isIdentifier_append hname (List.all_eq_true.1 hsuffix)

/-! ## Models -/

/-- The fault of a table, or of a field or its column, that is no identifier. -/
def ModelFault.IsSpelling : ModelFault → Prop
  | .badTable _ _ => True
  | .badField _ _ _ => True
  | _ => False

namespace Model

theorem not_isSpelling_of_checkFields {model : String} {names columns : List String}
    {fs : List Field} (h : ∀ f ∈ fs, isIdentifier f.name = true ∧ isIdentifier f.column = true)
    {fault : ModelFault}
    (hcheck : checkFields model names columns fs = .error (.invalidModel fault)) :
    ¬ fault.IsSpelling := by
  induction fs generalizing names columns with
  | nil => cases hcheck
  | cons f fs ih =>
    obtain ⟨⟨hname, hcolumn⟩, hfs⟩ := List.forall_mem_cons.1 h
    rw [checkFields, hname, hcolumn, Bool.and_self, Bool.not_true,
      if_neg Bool.false_ne_true] at hcheck
    split at hcheck
    · cases hcheck
      exact not_false
    · split at hcheck
      · cases hcheck
        exact not_false
      · exact ih hfs hcheck

/-- Where the table, the fields and the columns are identifiers, no fault is found in their
spelling. -/
theorem not_isSpelling_of_check {m : Model} (htable : isIdentifier m.table = true)
    (hfields : ∀ f ∈ m.fields, isIdentifier f.name = true ∧ isIdentifier f.column = true)
    {fault : ModelFault} (hcheck : m.check = .error (.invalidModel fault)) :
    ¬ fault.IsSpelling := by
  rw [check, htable] at hcheck
  cases hresult : checkFields m.name [] [] m.fields with
  | error cause =>
    rw [hresult] at hcheck
    cases hcheck
    exact not_isSpelling_of_checkFields hfields hresult
  | ok done =>
    rw [hresult] at hcheck
    cases hid : m.keepsId with
    | true =>
      rw [hid] at hcheck
      cases hcheck
    | false =>
      rw [hid] at hcheck
      cases hcheck
      exact not_false

/-- The model was given no table, and its fields no columns. -/
structure StoredByDefault (m : Model) : Prop where
  table : m.table = (Model.new m.name).table
  columns : ∀ f ∈ m.fields, f.column = (Field.ofType f.name f.type).column

theorem StoredByDefault.isIdentifier_table {m : Model} (h : m.StoredByDefault)
    (hname : isIdentifier m.name = true) : isIdentifier m.table = true := by
  rw [h.table]
  exact isIdentifier_snakeCase_of_isIdentifier hname

theorem StoredByDefault.isIdentifier_column {m : Model} (h : m.StoredByDefault) {f : Field}
    (hf : f ∈ m.fields) (hname : isIdentifier f.name = true) : isIdentifier f.column = true := by
  rw [h.columns f hf]
  exact isIdentifier_column_ofType hname f.type

end Model

/-- A derived name holds no capital letter and no separator, and as every name that holds none it
is its own derived name. From an identifier an identifier is derived, as a table and as the column
of a field of any type. So the check finds no fault in the spelling of a model that is stored under
derived names, if its own name and those of its fields are identifiers. -/
theorem derivedNames_accepted :
    (∀ name, (∀ c ∈ (snakeCase name).toList, IsPlain c) ∧
      snakeCase (snakeCase name) = snakeCase name ∧
      (snakeCase name = name ↔ ∀ c ∈ name.toList, IsPlain c)) ∧
    (∀ name, name.toList ∈ identifiers →
      (snakeCase name).toList ∈ identifiers ∧ isIdentifier (Model.new name).table = true ∧
        ∀ type, isIdentifier (Field.ofType name type).column = true) ∧
    ∀ m : Model, m.StoredByDefault → isIdentifier m.name = true →
      (∀ f ∈ m.fields, isIdentifier f.name = true) →
        isIdentifier m.table = true ∧ (∀ f ∈ m.fields, isIdentifier f.column = true) ∧
          ¬ ∃ fault, m.check = .error (.invalidModel fault) ∧ fault.IsSpelling := by
  refine ⟨fun name => ?_, fun name h => ?_, fun m h hname hfields => ?_⟩
  · have hplain := isPlain_snakeCase name
    exact ⟨hplain, snakeCase_eq_self_iff.2 hplain, snakeCase_eq_self_iff⟩
  · rw [mem_identifiers] at h
    have hsnake := isIdentifier_snakeCase_of_isIdentifier h
    exact ⟨mem_identifiers.2 hsnake, hsnake, fun type => isIdentifier_column_ofType h type⟩
  · have htable := h.isIdentifier_table hname
    have hcolumns : ∀ f ∈ m.fields, isIdentifier f.column = true :=
      fun f hf => h.isIdentifier_column hf (hfields f hf)
    refine ⟨htable, hcolumns, ?_⟩
    rintro ⟨fault, hcheck, hspelling⟩
    exact Model.not_isSpelling_of_check htable (fun f hf => ⟨hfields f hf, hcolumns f hf⟩) hcheck
      hspelling

/-- A server that stands behind another one. -/
def httpServer : Model :=
  ((Model.new "HTTPServer2").withField (.scalar "ipV4" .text)).withField
    (.relation "parentHost" "HTTPServer2")

theorem httpServer_accepted :
    "HTTPServer2".toList ∈ identifiers ∧ "http_server2".toList ∈ identifiers ∧
    httpServer.table = "http_server2" ∧
    httpServer.fields.map Field.column = ["id", "ip_v4", "parent_host_id"] ∧
    httpServer.StoredByDefault ∧ isIdentifier httpServer.name = true ∧
    (∀ f ∈ httpServer.fields, isIdentifier f.name = true ∧ isIdentifier f.column = true) ∧
    ¬ ∃ fault, httpServer.check = .error (.invalidModel fault) ∧ fault.IsSpelling := by
  obtain ⟨-, hidentifiers, hmodels⟩ := derivedNames_accepted
  have hname : isIdentifier "HTTPServer2" = true := by decide
  have htable : httpServer.table = "http_server2" := by decide
  have hdefault : httpServer.StoredByDefault := ⟨rfl, by decide⟩
  have hfields : ∀ f ∈ httpServer.fields, isIdentifier f.name = true := by decide
  obtain ⟨-, hcolumns, hcheck⟩ := hmodels httpServer hdefault hname hfields
  exact ⟨mem_identifiers.2 hname, (hidentifiers "HTTPServer2" (mem_identifiers.2 hname)).1, htable,
    by decide, hdefault, hname, fun f hf => ⟨hfields f hf, hcolumns f hf⟩, hcheck⟩

end RecordModel
