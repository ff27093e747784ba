import RecordModel.Proofs.Catalog.Layout

/-!
# Reading one line of a definition

Whatever stands around a line is taken off before it is read: the blanks, the comment, the
carriage return. What is left is one of the forms of the line, and each reader gives the line
back.

Results:
* `trimChars_stripComment`: what a written line is read as.
* `readHeader_forms`, `readField_forms`: headers and fields are given back.
-/
namespace RecordModel

open RecordModel.Text

/-! ## Comments -/

theorem after_append (start cs : List Char) : after start (start ++ cs) = some cs := by
  induction start with
  | nil => rfl
  | cons c start ih => rw [List.cons_append, after, if_pos rfl, ih]

theorem eq_append_of_after {start cs rest : List Char} (h : after start cs = some rest) :
    cs = start ++ rest := by
  induction start generalizing cs with
  | nil => cases h; rfl
  | cons c start ih =>
    cases cs with
    | nil => cases h
    | cons d cs =>
      rw [after] at h
      split at h
      · rename_i hc
        rw [ih h, hc, List.cons_append]
      · cases h

/-- Does a comment begin at `c`, at a number sign or at two slashes? -/
def opensComment (c : Char) (rest : List Char) : Bool :=
  c == '#' || (after ['/', '/'] (c :: rest)).isSome

theorem stripComment_cons (c : Char) (cs : List Char) :
    stripComment (c :: cs) = if opensComment c cs then [] else c :: stripComment cs := by
  unfold stripComment opensComment
  rw [splitMark]
  cases hafter : after ['/', '/'] (c :: cs) with
  | some tail => simp [splitFirst]
  | none =>
    by_cases hc : c = '#'
    · cases splitMark ['/', '/'] cs <;> simp [splitFirst, hc]
    · cases splitMark ['/', '/'] cs with
      | none => cases hcut : splitFirst '#' cs <;> simp [splitFirst, hc, hcut]
      | some parts => cases hcut : splitFirst '#' parts.1 <;> simp [splitFirst, hc, hcut]

theorem opensComment_eq_false {c : Char} (h : c ≠ '#' ∧ c ≠ '/') (rest : List Char) :
    opensComment c rest = false := by
  simp [opensComment, after, h.1, Ne.symm h.2]

theorem opensComment_append {c d : Char} (hd : d ≠ '/') (cs : List Char) :
    opensComment c (cs ++ [d]) = opensComment c cs := by
  unfold opensComment
  cases cs with
  | nil => by_cases hc : '/' = c <;> simp [after, hc, Ne.symm hd]
  | cons e cs =>
    simp only [List.cons_append, after]
    split
    · split <;> rfl
    · rfl

theorem stripComment_append {cs rest : List Char} (h : ∀ c ∈ cs, c ≠ '#' ∧ c ≠ '/') :
    stripComment (cs ++ rest) = cs ++ stripComment rest := by
  induction cs with
  | nil => rfl
  | cons c cs ih =>
    obtain ⟨hc, hcs⟩ := List.forall_mem_cons.1 h
    rw [List.cons_append, stripComment_cons, opensComment_eq_false hc, ih hcs]
    rfl

theorem blanks_carriageReturn : Blanks ['\r'] := by simp [Blanks, isBlank]

/-- A carriage return at the end is part of the comment, or stays at the end. -/
theorem stripComment_carriageReturn (cs : List Char) :
    ∃ g, Blanks g ∧ stripComment (cs ++ ['\r']) = stripComment cs ++ g := by
  induction cs with
  | nil => exact ⟨['\r'], blanks_carriageReturn, rfl⟩
  | cons c cs ih =>
    -- a carriage return is no second slash, so both texts have their comment at one place
    obtain ⟨g, hg, hstrip⟩ := ih
    rw [List.cons_append, stripComment_cons, stripComment_cons, opensComment_append (by decide),
      hstrip]
    split
    · exact ⟨[], .nil, rfl⟩
    · exact ⟨g, hg, rfl⟩

theorem trimChars_dropReturn (line : List Char) :
    trimChars (stripComment (dropReturn line)) = trimChars (stripComment line) := by
  unfold dropReturn
  split
  · rename_i rest hrest
    rw [List.reverse_eq_cons_iff] at hrest
    obtain ⟨g, hg, hstrip⟩ := stripComment_carriageReturn rest.reverse
    rw [hrest, hstrip]
    exact (trimChars_blanks .nil hg).symm
  · rfl

/-- What may follow on a line leaves blanks alone. -/
theorem LineEnd.blanks {back : List Char} (h : LineEnd back) : Blanks (stripComment back) := by
  have hgap {gap : List Char} (hgap : Gap gap) (rest : List Char) :
      stripComment (gap ++ rest) = gap ++ stripComment rest := by
    refine stripComment_append fun c hc => ?_
    rcases hgap c hc with rfl | rfl <;> decide
  cases h with
  | @blank gap h =>
    have hstrip := hgap h []
    rw [List.append_nil] at hstrip
    rw [hstrip]
    exact h.blanks.append .nil
  | carriageReturn h =>
    rw [hgap h]
    exact h.blanks.append blanks_carriageReturn
  | @comment gap mark text h hmark _ =>
    have hnil : stripComment (mark ++ text) = [] := by
      simp only [List.mem_cons, List.not_mem_nil, or_false] at hmark
      rcases hmark with rfl | rfl <;> rw [List.cons_append, stripComment_cons] <;> rfl
    rw [hgap h, hnil]
    exact h.blanks.append .nil

/-- The gap in front of a line and what follows it are taken off. -/
theorem trimChars_stripComment {l : Line} (hl : l.Named) {front core back : List Char}
    (hfront : Gap front) (hcore : l.Forms core) (hback : LineEnd back) :
    trimChars (stripComment (front ++ core ++ back)) = core := by
  have hmarks : ∀ c ∈ front ++ core, c ≠ '#' ∧ c ≠ '/' := by
    intro c hc
    rcases List.mem_append.1 hc with hc | hc
    · rcases hfront c hc with rfl | rfl <;> decide
    · constructor
      · rintro rfl
        exact hcore.not_mem hl (by decide) (by decide) hc
      · rintro rfl
        exact hcore.not_mem hl (by decide) (by decide) hc
  rw [stripComment_append hmarks, trimChars_blanks hfront.blanks hback.blanks,
    (hcore.solid hl).trimChars_eq]

/-! ## Headers -/

theorem readNames_tableWords (name : String) (table : Option String) :
    readNames (name :: tableWords table) = .ok (name, table) := by
  cases table with
  | none => rfl
  | some t => simp [readNames, tableWords]

theorem dropBrace_append (cs : List Char) : dropBrace (cs ++ ['{']) = some cs := by
  simp [dropBrace]

theorem readHeader_eq_ok {line : List Char} {m : ModelDefinition} :
    readHeader line = .ok m ↔ ∃ rest header, after ['m', 'o', 'd', 'e', 'l'] line = some rest ∧
      rest.head?.any isAsciiBlank = true ∧ dropBrace (trimChars rest) = some header ∧
        readNames (words (String.ofList header)) = .ok (m.name, m.table) ∧
          isIdentifier m.name = true ∧ (∀ t ∈ m.table, isIdentifier t = true) ∧ m.fields = [] := by
  unfold readHeader
  constructor
  · intro h
    split at h
    · cases h
    · rename_i rest hafter
      by_cases hblank : rest.head?.any isAsciiBlank = false
      · rw [if_pos (by rw [hblank]; rfl)] at h
        cases h
      · rw [Bool.not_eq_false] at hblank
        rw [if_neg (by simp [hblank])] at h
        split at h
        · cases h
        · rename_i header hbrace
          obtain ⟨⟨name, table⟩, hnames, h⟩ := bind_eq_ok.1 h
          dsimp only at h
          split at h
          · cases h
          · rename_i hname
            have htable : (∀ t ∈ table, isIdentifier t = true) ∧ m = ⟨name, table, []⟩ := by
              split at h
              · rename_i t
                split at h
                · cases h
                · rename_i ht
                  cases h
                  exact ⟨by simpa using ht, rfl⟩
              · cases h
                exact ⟨by simp, rfl⟩
            obtain ⟨htable, rfl⟩ := htable
            exact ⟨rest, header, hafter, hblank, hbrace, hnames, by simpa using hname,
              htable, rfl⟩
  · rintro ⟨rest, header, hafter, hblank, hbrace, hnames, hname, htable, hfields⟩
    obtain ⟨name, table, fields⟩ := m
    cases hfields
    simp only [hafter, hblank, hbrace]
    refine bind_eq_ok.2 ⟨(name, table), hnames, ?_⟩
    replace hname : isIdentifier name = true := hname
    cases table with
    | none => simp [hname]
    | some t =>
      have ht : isIdentifier t = true := htable t rfl
      simp [hname, ht, pure, Except.pure]

theorem readHeader_forms {name : String} {table : Option String} {core : List Char}
    (h : (Line.header name table).Forms core) (hl : (Line.header name table).Named) :
    readHeader core = .ok ⟨name, table, []⟩ := by
  cases h with
  | @header _ _ cs gap hspread hgap =>
  cases hspread with
  | @cons front cs _ _ hfront hne hspread =>
  have hname := inkWord_of_isIdentifier hl.1
  have hparts : "model".toList ++ (front ++ (name.toList ++ cs) ++ gap) ++ ['{'] =
      ['m', 'o', 'd', 'e', 'l'] ++ (front ++ (name.toList ++ (cs ++ gap) ++ ['{'])) := by simp
  rw [hparts, readHeader_eq_ok]
  refine ⟨_, name.toList ++ (cs ++ gap), after_append _ _, ?_, ?_, ?_, hl.1, hl.2, rfl⟩
  · obtain ⟨c, front, rfl⟩ := List.exists_cons_of_ne_nil hne
    rcases hfront c (by simp) with rfl | rfl <;> rfl
  · have hsolid : Solid (name.toList ++ (cs ++ gap) ++ ['{']) :=
      hname.isWord.toSolid.append (solid_singleton (by decide))
    rw [hsolid.trimChars_behind hfront.blanks, dropBrace_append]
  · rw [hspread.words_eq (fun w hw => (inkWord_tableWords hl.2 w hw).isWord) hname.isWord
      hgap.blanks, readNames_tableWords]

/-! ## Fields -/

theorem readField_eq_ok {line : List Char} {d : FieldDefinition} :
    readField line = .ok d ↔ ∃ left right word modifiers type,
      splitFirst ':' (trimChars (dropCommas line)) = some (left, right) ∧
        isIdentifier (String.ofList (trimChars left)) = true ∧
          words (String.ofList right) = word :: modifiers ∧ readType word = .ok type ∧
            modifiers.foldlM applyModifier
              ⟨String.ofList (trimChars left), type, false, false, false, none, none⟩ = .ok d := by
  unfold readField
  constructor
  · intro h
    split at h
    · cases h
    · rename_i left right hsplit
      dsimp only at h
      split at h
      · cases h
      · rename_i hname
        split at h
        · cases h
        · rename_i word modifiers hwords
          obtain ⟨type, htype, h⟩ := bind_eq_ok.1 h
          exact ⟨left, right, word, modifiers, type, hsplit, by simpa using hname, hwords, htype, h⟩
  · rintro ⟨left, right, word, modifiers, type, hsplit, hname, hwords, htype, h⟩
    simp only [hsplit, hname, Bool.not_true, Bool.false_eq_true, if_false, hwords]
    exact bind_eq_ok.2 ⟨type, htype, h⟩

theorem dropCommas_of_not_mem {cs : List Char} (h : ',' ∉ cs) : dropCommas cs = cs := by
  have hnone : cs.reverse.dropWhile (· == ',') = cs.reverse := by
    cases hcs : cs.reverse with
    | nil => rfl
    | cons c rest =>
      have hc : c ≠ ',' := by
        rintro rfl
        exact h (List.mem_reverse.1 (hcs ▸ List.mem_cons_self))
      rw [List.dropWhile_cons_of_neg (by simpa using hc)]
  rw [dropCommas, hnone, List.reverse_reverse]

theorem dropCommas_append (cs : List Char) : dropCommas (cs ++ [',']) = dropCommas cs := by
  simp [dropCommas]

/-- No comma in front of another character is taken off. -/
theorem dropCommas_behind {c : Char} (hc : c ≠ ',') (front cs : List Char) :
    dropCommas (front ++ c :: cs) = front ++ c :: dropCommas cs := by
  have hstop : (c :: front.reverse).dropWhile (· == ',') = c :: front.reverse :=
    List.dropWhile_cons_of_neg (by simpa using hc)
  rw [dropCommas, List.reverse_append, List.reverse_cons, List.append_assoc,
    List.singleton_append, List.dropWhile_append]
  split
  · rename_i hnil
    rw [hstop, dropCommas, List.isEmpty_iff.1 hnil]
    simp
  · simp [dropCommas]

/-- Commas and blanks behind a field are taken off. -/
theorem trimChars_dropCommas {cs comma : List Char} (hcs : Solid cs)
    (hlast : cs.getLast? ≠ some ',') (hcomma : Comma comma) :
    trimChars (dropCommas (cs ++ comma)) = cs := by
  obtain ⟨front, c, rfl, -⟩ := hcs.last
  have hc : c ≠ ',' := by simpa using hlast
  have hdrop (gap : List Char) (hgap : ',' ∉ gap) :
      dropCommas (front ++ [c] ++ gap) = front ++ [c] ++ gap := by
    rw [List.append_assoc, List.singleton_append, dropCommas_behind hc, dropCommas_of_not_mem hgap]
  rcases hcomma with rfl | ⟨gap, hgap, rfl⟩
  · rw [hdrop [] List.not_mem_nil, List.append_nil, hcs.trimChars_eq]
  · have hnone : ',' ∉ gap := fun hmem => by
      rcases hgap _ hmem with h | h <;> cases h
    rw [← List.append_assoc, dropCommas_append, hdrop gap hnone, hcs.trimChars_before hgap.blanks]

theorem readType_spelled {type : FieldType} {word : String} (h : type.Spelled word)
    (htarget : ∀ target, type = .relation target →
      isIdentifier target = true ∧ ∀ t : DataType, lowerText target ∉ t.keywords) :
    readType word = .ok type := by
  cases type with
  | scalar t => rw [readType, scalarType?_eq_some.2 h]
  | relation target =>
    cases h
    obtain ⟨hname, hkeyword⟩ := htarget word rfl
    rw [readType, scalarType?_eq_none.2 hkeyword]
    exact if_pos hname

/-! ## Modifiers -/

/-- What a modifier does to a field. -/
def FieldDefinition.set (d : FieldDefinition) : Modifier → FieldDefinition
  | .required => { d with required := true }
  | .unique => { d with unique := true }
  | .index => { d with index := true }
  | .column name => { d with column := some name }

theorem after_eq_none {start cs : List Char} {c : Char} (hstart : c ∈ start) (hcs : c ∉ cs) :
    after start cs = none := by
  refine Option.eq_none_iff_forall_ne_some.2 fun rest h => hcs ?_
  rw [eq_append_of_after h]
  exact List.mem_append_left _ hstart

/-- A keyword is no modifier with a value. -/
theorem after_keyword {words : List String} (hwords : areKeywords words = true) {word : String}
    (h : lowerText word ∈ words) {start : List Char} (hstart : '=' ∈ start) :
    after start word.toList = none := by
  refine after_eq_none hstart fun hc => ?_
  exact absurd ((isNameChar_of_keyword hwords h).2 _ hc) (by decide)

theorem applyModifier_column {name : String} (h : isIdentifier name = true) (d : FieldDefinition) :
    applyModifier d ("column=" ++ name) = .ok { d with column := some name } := by
  have hafter : after "column=".toList ("column=" ++ name).toList = some name.toList := by
    rw [String.toList_append, after_append]
  rw [applyModifier, hafter]
  dsimp only
  rw [String.ofList_toList]
  exact if_pos h

theorem applyModifier_spelled {m : Modifier} {word : String} (h : m.Spelled word) (hm : m.Named)
    (d : FieldDefinition) : applyModifier d word = .ok (d.set m) := by
  cases h with
  | keyword h =>
    have hafter {start : List Char} (hstart : '=' ∈ start) : after start word.toList = none :=
      after_keyword (areKeywords_modifier m) h hstart
    rw [applyModifier, hafter (by decide)]
    dsimp only
    rw [hafter (by decide)]
    dsimp only
    cases m with
    | required => exact if_pos (by simpa [Modifier.keywords] using h)
    | unique => simp [List.mem_singleton.1 h, FieldDefinition.set]
    | index => simp [List.mem_singleton.1 h, FieldDefinition.set]
    | column name => cases h
  | column => exact applyModifier_column hm d

theorem foldlM_applyModifier {ms : List Modifier} {words : List String}
    (h : List.Forall₂ Modifier.Spelled ms words) (hms : ∀ m ∈ ms, m.Named) (d : FieldDefinition) :
    words.foldlM applyModifier d = .ok (ms.foldl FieldDefinition.set d) := by
  induction h generalizing d with
  | nil => rfl
  | cons hword _ ih =>
    rw [List.forall_mem_cons] at hms
    rw [List.foldlM_cons, applyModifier_spelled hword hms.1]
    exact ih hms.2 _

/-- Two modifiers of a field may be set in either order, as it has one column at most. -/
theorem FieldDefinition.set_comm (d : FieldDefinition) {x y : Modifier}
    (h : ∀ a b, x = .column a → y = .column b → a = b) :
    (d.set x).set y = (d.set y).set x := by
  cases x with
  | column a =>
    cases y with
    | column b => cases h a b rfl rfl; rfl
    | required => rfl
    | unique => rfl
    | index => rfl
  | required => cases y <;> rfl
  | unique => cases y <;> rfl
  | index => cases y <;> rfl

/-- The modifiers of a field, in any order, make it from its name and type. -/
theorem foldl_set_modifiers {d : FieldDefinition} (hdefault : d.default = none)
    {ms : List Modifier} (hms : ms.Perm d.modifiers) :
    ms.foldl FieldDefinition.set ⟨d.name, d.type, false, false, false, none, none⟩ = d := by
  have hcomm : ∀ x ∈ ms, ∀ y ∈ ms, ∀ e : FieldDefinition, (e.set x).set y = (e.set y).set x := by
    intro x hx y hy e
    refine e.set_comm ?_
    rintro a b rfl rfl
    have ha := FieldDefinition.column_mem_modifiers.1 (hms.mem_iff.1 hx)
    have hb := FieldDefinition.column_mem_modifiers.1 (hms.mem_iff.1 hy)
    exact Option.some.inj (ha.symm.trans hb)
  rw [hms.foldl_eq' hcomm]
  obtain ⟨name, type, required, unique, index, column, default⟩ := d
  cases hdefault
  cases required <;> cases unique <;> cases index <;> cases column <;> rfl

theorem readField_forms {d : FieldDefinition} {core : List Char} (h : (Line.field d).Forms core)
    (hl : d.Named) : readField core = .ok d := by
  cases h with
  | @field _ before behind cs comma word ms words hdefault hbefore hbehind htype hms hwords hspread
      hcomma =>
  have hname := inkWord_of_isIdentifier hl.name
  have hword := hl.inkWord_type htype
  have hink := hl.inkWord_modifiers hms hwords
  have hisWord : ∀ w ∈ words, IsWord w.toList := fun w hw => (hink w hw).isWord
  have hout {c : Char} (hc : ¬ (isInk c = true ∨ c = ' ' ∨ c = '\t')) {text : List Char}
      (htext : Unmarked text) : c ∉ text := fun hmem => hc (htext c hmem)
  have hleft : Unmarked (d.name.toList ++ before) := hname.unmarked.append hbefore.unmarked
  have hright : Unmarked (behind ++ (word.toList ++ cs)) :=
    hbehind.unmarked.append (hword.unmarked.append (hspread.unmarked hink))
  have htrim : trimChars (dropCommas (d.name.toList ++ before ++
      ':' :: (behind ++ (word.toList ++ cs)) ++ comma)) =
        d.name.toList ++ before ++ ':' :: (behind ++ (word.toList ++ cs)) := by
    refine trimChars_dropCommas (solid_field hname (hspread.solid hisWord hword.isWord)) ?_ hcomma
    refine fun hlast => absurd (List.mem_of_getLast? hlast) ?_
    rw [List.mem_append, List.mem_cons, not_or, not_or]
    exact ⟨hout (by decide) hleft, by decide, hout (by decide) hright⟩
  have hnameTrim : String.ofList (trimChars (d.name.toList ++ before)) = d.name := by
    rw [hname.isWord.toSolid.trimChars_before hbefore.blanks, String.ofList_toList]
  have hmodifiers : words.foldlM applyModifier ⟨d.name, d.type, false, false, false, none, none⟩ =
      .ok d := by
    rw [foldlM_applyModifier hwords fun m hm => hl.modifiers m (hms.mem_iff.1 hm),
      foldl_set_modifiers hdefault hms]
  rw [readField_eq_ok]
  refine ⟨d.name.toList ++ before, behind ++ (word.toList ++ cs), word, words, d.type, ?_, ?_, ?_,
    readType_spelled htype hl.target, ?_⟩
  · rw [htrim, splitFirst_eq_some]
    exact ⟨rfl, hout (by decide) hleft⟩
  · rw [hnameTrim]
    exact hl.name
  · rw [words_blanks hbehind.blanks, ← hspread.words_eq hisWord hword.isWord .nil, List.append_nil]
  · rw [hnameTrim]
    exact hmodifiers

end RecordModel
