import RecordModel.Proofs.Catalog.FieldLines

/-!
# Quoted defaults

A default in single quotes may hold any characters but blanks: commas, colons, equals signs and
quotes all reach the value. Only a comment mark does not: comments are taken off a line before
its quotes are looked at, so that a number sign or two slashes end the line in the middle of the
default, and what is left of it is taken as it stands, with its first quote.

Results:
* `not_holdsComment_stripComment`: what is left of a line holds no comment mark.
* `DefaultLine.readField`: the line of a default is read with what is left of the default.
* `Definition.default_verbatim_iff`: which quoted defaults are read as they are written.
-/
namespace RecordModel

open RecordModel.Text

/-! ## Comment marks -/

/-- Does a comment begin somewhere in the text? -/
def HoldsComment (cs : List Char) : Prop := '#' ∈ cs ∨ ['/', '/'] <:+: cs

instance (cs : List Char) : Decidable (HoldsComment cs) :=
  inferInstanceAs (Decidable ('#' ∈ cs ∨ ['/', '/'] <:+: cs))

theorem opensComment_iff {c : Char} {cs : List Char} :
    opensComment c cs = true ↔ c = '#' ∨ c = '/' ∧ cs.head? = some '/' := by
  have hafter : (after ['/', '/'] (c :: cs)).isSome = true ↔ c = '/' ∧ cs.head? = some '/' := by
    by_cases hc : c = '/'
    · subst hc
      cases cs with
      | nil => simp [after]
      | cons d cs => by_cases hd : d = '/' <;> simp [after, hd, Ne.symm]
    · simp [after, hc, Ne.symm hc]
  rw [opensComment, Bool.or_eq_true, beq_iff_eq, hafter]

/-- Whether a comment begins at a character is told by the next one. -/
theorem opensComment_congr {c : Char} {cs ds : List Char} (h : cs.head? = ds.head?) :
    opensComment c cs = opensComment c ds := by
  rw [Bool.eq_iff_iff, opensComment_iff, opensComment_iff, h]

theorem holdsComment_cons {c : Char} {cs : List Char} :
    HoldsComment (c :: cs) ↔ opensComment c cs = true ∨ HoldsComment cs := by
  have hslashes : ['/', '/'] <+: c :: cs ↔ c = '/' ∧ cs.head? = some '/' := by
    cases cs <;> simp [List.cons_prefix_cons, eq_comm]
  rw [HoldsComment, HoldsComment, opensComment_iff, List.mem_cons, List.infix_cons_iff, hslashes,
    eq_comm]
  tauto

theorem not_holdsComment_nil : ¬ HoldsComment [] := by simp [HoldsComment]

theorem HoldsComment.mono {a b : List Char} (h : HoldsComment a) (hab : a <:+: b) :
    HoldsComment b :=
  h.imp (fun hmem => hab.mem hmem) fun hslashes => hslashes.trans hab

theorem exists_stripComment_append (cs : List Char) : ∃ rest, cs = stripComment cs ++ rest := by
  induction cs with
  | nil => exact ⟨[], rfl⟩
  | cons c cs ih =>
    obtain ⟨rest, hrest⟩ := ih
    rw [stripComment_cons]
    split
    · exact ⟨c :: cs, rfl⟩
    · exact ⟨rest, by rw [List.cons_append, ← hrest]⟩

/-- What is left of a line holds no comment mark. -/
theorem not_holdsComment_stripComment (cs : List Char) : ¬ HoldsComment (stripComment cs) := by
  induction cs with
  | nil => exact not_holdsComment_nil
  | cons c cs ih =>
    rw [stripComment_cons]
    split
    · exact not_holdsComment_nil
    · rename_i hopen
      obtain ⟨rest, hrest⟩ := exists_stripComment_append cs
      rw [holdsComment_cons, not_or]
      refine ⟨fun h => hopen ?_, ih⟩
      -- two slashes that are left both stood in the line
      rw [opensComment_iff] at h ⊢
      refine h.imp_right (And.imp_right fun hhead => ?_)
      rw [hrest, List.head?_append, hhead, Option.some_or]

/-- Nothing behind the first comment mark is looked at. -/
theorem HoldsComment.stripComment_append {cs : List Char} (h : HoldsComment cs)
    (rest : List Char) : stripComment (cs ++ rest) = stripComment cs := by
  induction cs with
  | nil => exact absurd h not_holdsComment_nil
  | cons c cs ih =>
    rw [List.cons_append, stripComment_cons, stripComment_cons]
    rcases holdsComment_cons.1 h with hopen | hcs
    · have hopen' : opensComment c (cs ++ rest) = true := by
        rw [opensComment_iff] at hopen ⊢
        exact hopen.imp_right (And.imp_right fun hhead => by rw [List.head?_append, hhead]; rfl)
      rw [if_pos hopen, if_pos hopen']
    · obtain ⟨d, ds, rfl⟩ := List.exists_cons_of_ne_nil (l := cs) fun hnil =>
        not_holdsComment_nil (hnil ▸ hcs)
      have hnext : (d :: ds ++ rest).head? = (d :: ds).head? := rfl
      rw [opensComment_congr hnext, ih hcs]

/-- A text without comment marks is left alone, if what follows is no slash. -/
theorem stripComment_append_of_not {cs : List Char} (h : ¬ HoldsComment cs) {d : Char}
    (hd : d ≠ '/') (rest : List Char) :
    stripComment (cs ++ d :: rest) = cs ++ stripComment (d :: rest) := by
  induction cs with
  | nil => rfl
  | cons c cs ih =>
    rw [holdsComment_cons, not_or] at h
    have hopen : opensComment c (cs ++ d :: rest) = false := by
      cases cs with
      | nil =>
        rw [opensComment_iff, not_or] at h
        rw [Bool.eq_false_iff, ne_eq, opensComment_iff, not_or]
        exact ⟨h.1.1, fun hslashes => hd (Option.some.inj hslashes.2)⟩
      | cons e cs =>
        have hnext : (e :: cs ++ d :: rest).head? = (e :: cs).head? := rfl
        rw [opensComment_congr hnext, Bool.eq_false_iff]
        exact h.1
    rw [List.cons_append, stripComment_cons, hopen, ih h.2]
    rfl

/-! ## Modifiers -/

def flagWords : List String := ["required", "not_null", "optional", "nullable", "unique", "index"]

theorem areKeywords_flagWords : areKeywords flagWords = true := rfl

/-- A modifier that is no default. -/
inductive OtherModifier : String → Prop where
  | flag {word : String} : lowerText word ∈ flagWords → OtherModifier word
  | column {name : String} : isIdentifier name = true → OtherModifier ("column=" ++ name)

theorem OtherModifier.inkWord {word : String} (h : OtherModifier word) : InkWord word := by
  cases h with
  | flag h => exact inkWord_of_keyword areKeywords_flagWords h
  | column h => exact InkWord.append (by decide) (inkWord_of_isIdentifier h)

theorem OtherModifier.apply {word : String} (h : OtherModifier word) (d : FieldDefinition) :
    ∃ d', applyModifier d word = .ok d' ∧ d'.name = d.name ∧ d'.type = d.type ∧
      d'.default = d.default := by
  cases h with
  | flag h =>
    have hafter {start : List Char} (hstart : '=' ∈ start) : after start word.toList = none :=
      after_keyword areKeywords_flagWords h hstart
    obtain ⟨d', hd'⟩ : ∃ d', applyModifier d word = .ok d' := by
      rw [applyModifier, hafter (by decide)]
      dsimp only
      rw [hafter (by decide)]
      dsimp only
      simp only [flagWords, List.mem_cons, List.not_mem_nil, or_false] at h
      rcases h with h | h | h | h | h | h <;> exact ⟨_, by simp [h]; rfl⟩
    obtain ⟨hname, htype, hdefault⟩ := applyModifier_keeps hd'
    exact ⟨d', hd', hname, htype, hdefault (hafter (by decide))⟩
  | column h => exact ⟨_, applyModifier_column h d, rfl, rfl, rfl⟩

theorem foldlM_otherModifiers {words : List String} (h : ∀ w ∈ words, OtherModifier w)
    (d : FieldDefinition) : ∃ d', words.foldlM applyModifier d = .ok d' ∧ d'.name = d.name ∧
      d'.type = d.type ∧ d'.default = d.default := by
  induction words generalizing d with
  | nil => exact ⟨d, rfl, rfl, rfl, rfl⟩
  | cons w words ih =>
    obtain ⟨hw, hwords⟩ := List.forall_mem_cons.1 h
    obtain ⟨d₁, hone, hname, htype, hdefault⟩ := hw.apply d
    obtain ⟨d₂, hrest, hname₂, htype₂, hdefault₂⟩ := ih hwords d₁
    refine ⟨d₂, ?_, hname₂.trans hname, htype₂.trans htype, hdefault₂.trans hdefault⟩
    rw [List.foldlM_cons, hone]
    exact hrest

/-- The word that gives a default. -/
def defaultWord (raw : List Char) : String := String.ofList ("default=".toList ++ raw)

theorem toList_defaultWord (raw : List Char) :
    (defaultWord raw).toList = "default=".toList ++ raw := String.toList_ofList

theorem inkWord_default : InkWord "default=" := by decide

theorem isWord_defaultWord {raw : List Char} (h : ∀ c ∈ raw, isBlank c = false) :
    IsWord (defaultWord raw).toList := by
  rw [toList_defaultWord]
  exact ⟨by simp, List.forall_mem_append.2 ⟨inkWord_default.isWord.solid, h⟩⟩

/-- A default among other modifiers of a text field. -/
theorem foldlM_default {ws ws' : List String} (hws : ∀ w ∈ ws, OtherModifier w)
    (hws' : ∀ w ∈ ws', OtherModifier w) {d : FieldDefinition} (htype : d.type = .scalar .text)
    (raw : List Char) :
    ∃ d', (ws ++ defaultWord raw :: ws').foldlM applyModifier d = .ok d' ∧
      d'.name = d.name ∧ d'.type = .scalar .text ∧
        d'.default = some (.text (String.ofList (unquote raw))) := by
  obtain ⟨d₁, hfirst, hname₁, htype₁, -⟩ := foldlM_otherModifiers hws d
  rw [htype] at htype₁
  have hset : applyModifier d₁ (defaultWord raw) =
      .ok { d₁ with default := some (.text (String.ofList (unquote raw))) } := by
    have hcolumn : after "column=".toList ("default=".toList ++ raw) = none := rfl
    rw [applyModifier, toList_defaultWord, hcolumn]
    dsimp only
    rw [after_append]
    dsimp only
    rw [readDefault, htype₁]
    rfl
  obtain ⟨d₂, hlast, hname₂, htype₂, hdefault₂⟩ := foldlM_otherModifiers hws'
    { d₁ with default := some (.text (String.ofList (unquote raw))) }
  refine ⟨d₂, ?_, hname₂.trans hname₁, htype₂.trans htype₁, hdefault₂⟩
  rw [List.foldlM_append, hfirst]
  refine bind_eq_ok.2 ⟨d₁, rfl, ?_⟩
  rw [List.foldlM_cons, hset]
  exact hlast

/-! ## Lines with a default -/

def singleQuoted (cs : List Char) : List Char := '\x27' :: (cs ++ ['\x27'])

/-- The beginning of a line of the text field `name`, up to the value of its default. -/
inductive DefaultLead (name : String) : List Char → Prop where
  | intro {before behind cs gap : List Char} {type : String} {ws : List String} :
      isIdentifier name = true → Gap before → Gap behind → (FieldType.scalar .text).Spelled type →
      (∀ w ∈ ws, OtherModifier w) → Spread ws cs → Gap gap → gap ≠ [] →
      DefaultLead name (name.toList ++ before ++
        ':' :: (behind ++ (type.toList ++ (cs ++ (gap ++ "default=".toList)))))

/-- A line of the text field `name` with the default `v` in quotes, among other modifiers in any
order, perhaps with a comma and a comment behind them. -/
inductive DefaultLine (name v : String) : List Char → Prop where
  | intro {front lead cs comma back : List Char} {ws : List String} :
      Gap front → DefaultLead name lead → (∀ w ∈ ws, OtherModifier w) → Spread ws cs →
      Comma comma → LineEnd back →
      DefaultLine name v (front ++ (lead ++ (singleQuoted v.toList ++ cs) ++ comma) ++ back)

theorem Spread.append {ws ws' : List String} {cs cs' : List Char} (h : Spread ws cs)
    (h' : Spread ws' cs') : Spread (ws ++ ws') (cs ++ cs') := by
  induction h with
  | nil => exact h'
  | cons hgap hne _ ih => simpa using Spread.cons hgap hne ih

theorem otherModifiers_unmarked {ws : List String} {cs : List Char} (h : Spread ws cs)
    (hws : ∀ w ∈ ws, OtherModifier w) : Unmarked cs := h.unmarked fun w hw => (hws w hw).inkWord

/-- Neither words nor gaps hold a part of a comment mark. -/
theorem Unmarked.not_mark {cs : List Char} (h : Unmarked cs) : ∀ c ∈ cs, c ≠ '#' ∧ c ≠ '/' := by
  intro c hc
  constructor <;> (rintro rfl; exact absurd (h _ hc) (by decide))

theorem Comma.not_mark {cs : List Char} (h : Comma cs) : ∀ c ∈ cs, c ≠ '#' ∧ c ≠ '/' := by
  rcases h with rfl | ⟨gap, hgap, rfl⟩
  · simp
  · exact List.forall_mem_append.2
      ⟨hgap.unmarked.not_mark, List.forall_mem_singleton.2 (by decide)⟩

namespace DefaultLead

variable {name : String} {lead raw cs : List Char} {ws : List String}

theorem not_mark (h : DefaultLead name lead) : ∀ c ∈ lead, c ≠ '#' ∧ c ≠ '/' := by
  cases h with
  | intro hname hbefore hbehind htype hws hspread hgap _ =>
    have hleft := (inkWord_of_isIdentifier hname).unmarked.append hbefore.unmarked
    have hright := hbehind.unmarked.append ((htype.inkWord (by simp)).unmarked.append
      ((otherModifiers_unmarked hspread hws).append hgap.unmarked))
    replace hleft := hleft.not_mark
    replace hright := hright.not_mark
    simp only [List.forall_mem_append, List.forall_mem_cons] at hleft hright ⊢
    exact ⟨hleft, by decide, hright.1, hright.2.1, hright.2.2.1, hright.2.2.2,
      inkWord_default.unmarked.not_mark⟩

/-- A line with a default as a name, a colon and words. -/
theorem split (h : DefaultLead name lead) (hws : ∀ w ∈ ws, OtherModifier w) (hspread : Spread ws cs)
    (hraw : ∀ c ∈ raw, isBlank c = false) :
    isIdentifier name = true ∧ ∃ before behind type ws₁ cs₁, Gap before ∧ Gap behind ∧
      (FieldType.scalar .text).Spelled type ∧ (∀ w ∈ ws₁, OtherModifier w) ∧
      Spread (ws₁ ++ defaultWord raw :: ws) cs₁ ∧
      (∀ w ∈ ws₁ ++ defaultWord raw :: ws, IsWord w.toList) ∧
      lead ++ (raw ++ cs) = name.toList ++ before ++ ':' :: (behind ++ (type.toList ++ cs₁)) := by
  cases h with
  | @intro before behind cs₁ gap type ws₁ hname hbefore hbehind htype hws₁ hspread₁ hgap hne =>
    have hwords : ∀ w ∈ ws₁ ++ defaultWord raw :: ws, IsWord w.toList :=
      List.forall_mem_append.2 ⟨fun w hw => (hws₁ w hw).inkWord.isWord,
        List.forall_mem_cons.2 ⟨isWord_defaultWord hraw, fun w hw => (hws w hw).inkWord.isWord⟩⟩
    exact ⟨hname, before, behind, type, ws₁, _, hbefore, hbehind, htype, hws₁,
      hspread₁.append (.cons hgap hne hspread), hwords, by simp [toList_defaultWord]⟩

theorem solid (h : DefaultLead name lead) (hws : ∀ w ∈ ws, OtherModifier w)
    (hspread : Spread ws cs) (hraw : ∀ c ∈ raw, isBlank c = false) :
    Solid (lead ++ (raw ++ cs)) := by
  obtain ⟨hname, _, _, _, _, _, -, -, htype, -, hspread₁, hwords, hline⟩ := h.split hws hspread hraw
  rw [hline]
  exact solid_field (inkWord_of_isIdentifier hname)
    (hspread₁.solid hwords (htype.inkWord (by simp)).isWord)

/-- What is left of a line is read, whatever is left of its default. -/
theorem readField (h : DefaultLead name lead) (hws : ∀ w ∈ ws, OtherModifier w)
    (hspread : Spread ws cs) (hraw : ∀ c ∈ raw, isBlank c = false) {line : List Char}
    (hline : trimChars (dropCommas line) = lead ++ (raw ++ cs)) :
    ∃ f, RecordModel.readField line = .ok f ∧ f.name = name ∧ f.type = .scalar .text ∧
      f.default = some (.text (String.ofList (unquote raw))) := by
  obtain ⟨hname, before, behind, type, ws₁, cs₁, hbefore, hbehind, htype, hws₁, hspread₁, hwords,
    hsplit⟩ := h.split hws hspread hraw
  have hink := inkWord_of_isIdentifier hname
  have hnameTrim : String.ofList (trimChars (name.toList ++ before)) = name := by
    rw [hink.isWord.toSolid.trimChars_before hbefore.blanks, String.ofList_toList]
  obtain ⟨f, hfold, hfname, hftype, hfdefault⟩ := foldlM_default hws₁ hws
    (d := ⟨name, .scalar .text, false, false, false, none, none⟩) rfl raw
  refine ⟨f, readField_eq_ok.2 ?_, hfname, hftype, hfdefault⟩
  refine ⟨name.toList ++ before, behind ++ (type.toList ++ cs₁), type, ws₁ ++ defaultWord raw :: ws,
    .scalar .text, ?_, ?_, ?_, readType_spelled htype (by simp), ?_⟩
  · have hcolon : ':' ∉ name.toList ++ before := fun hmem =>
      absurd (hink.unmarked.append hbefore.unmarked _ hmem) (by decide)
    rw [hline, hsplit, splitFirst_eq_some]
    exact ⟨rfl, hcolon⟩
  · rw [hnameTrim]
    exact hname
  · rw [words_blanks hbehind.blanks, ← hspread₁.words_eq hwords (htype.inkWord (by simp)).isWord .nil,
      List.append_nil]
  · rw [hnameTrim]
    exact hfold

end DefaultLead

/-! ## What is left of a default -/

/-- What is left of a default in quotes, after the comment and the commas have been taken off its
line. -/
def quotesLeft (cs : List Char) : List Char :=
  if HoldsComment cs then '\x27' :: dropCommas (stripComment cs) else singleQuoted cs

theorem unquote_singleQuoted (cs : List Char) : unquote (singleQuoted cs) = cs := by
  simp [unquote, singleQuoted]

theorem unquote_within (cs : List Char) : unquote cs <:+: cs := by
  unfold unquote
  split
  · rename_i rest
    split
    · rename_i inner hinner
      rw [List.reverse_eq_cons_iff] at hinner
      exact ⟨['\x27'], ['\x27'], by simp [hinner]⟩
    · exact List.infix_rfl
  · exact List.infix_rfl

theorem dropCommas_within (cs : List Char) : dropCommas cs <:+: cs := by
  have hsuffix := (List.dropWhile_suffix (· == ',') (l := cs.reverse))
  rw [← List.reverse_prefix, List.reverse_reverse] at hsuffix
  exact hsuffix.isInfix

/-- A default with a comment mark does not come out, as nothing that is left of a line holds one. -/
theorem unquote_quotesLeft_iff {cs : List Char} :
    unquote (quotesLeft cs) = cs ↔ ¬ HoldsComment cs := by
  unfold quotesLeft
  split
  · rename_i h
    refine iff_of_false (fun heq => ?_) (not_not_intro h)
    have hleft : HoldsComment ('\x27' :: dropCommas (stripComment cs)) := by
      refine HoldsComment.mono ?_ (unquote_within _)
      rwa [heq]
    rw [holdsComment_cons, opensComment_iff] at hleft
    have hdrop : HoldsComment (dropCommas (stripComment cs)) := by simpa using hleft
    exact not_holdsComment_stripComment cs (hdrop.mono (dropCommas_within _))
  · rename_i h
    exact iff_of_true (unquote_singleQuoted cs) h

theorem quotesLeft_solid {cs : List Char} (h : ∀ c ∈ cs, isBlank c = false) :
    ∀ c ∈ quotesLeft cs, isBlank c = false := by
  intro c hc
  unfold quotesLeft at hc
  split at hc
  · rcases List.mem_cons.1 hc with rfl | hc
    · decide
    · obtain ⟨rest, hrest⟩ := exists_stripComment_append cs
      refine h c ?_
      rw [hrest]
      exact List.mem_append_left _ (mem_of_mem_dropCommas hc)
  · simp only [singleQuoted, List.mem_cons, List.mem_append, List.not_mem_nil, or_false] at hc
    rcases hc with rfl | hc | rfl
    · decide
    · exact h c hc
    · decide

/-! ## What is left of a line -/

section Line

variable {name v : String} {front lead cs comma back : List Char} {ws : List String}

theorem not_mark_lead (hfront : Gap front) (hlead : DefaultLead name lead) :
    ∀ c ∈ front ++ (lead ++ ['\x27']), c ≠ '#' ∧ c ≠ '/' :=
  List.forall_mem_append.2 ⟨hfront.unmarked.not_mark,
    List.forall_mem_append.2 ⟨hlead.not_mark, List.forall_mem_singleton.2 (by decide)⟩⟩

/-- A comment mark in the default ends the line there. -/
theorem left_of_cut (hfront : Gap front) (hlead : DefaultLead name lead)
    (hv : ∀ c ∈ v.toList, isBlank c = false) (hcut : HoldsComment v.toList) (rest : List Char) :
    trimChars (dropCommas (trimChars (stripComment
      (front ++ (lead ++ '\x27' :: (v.toList ++ rest)))))) = lead ++ quotesLeft v.toList := by
  have hleft : ∀ c ∈ '\x27' :: stripComment v.toList, isBlank c = false := by
    obtain ⟨rest, hrest⟩ := exists_stripComment_append v.toList
    refine List.forall_mem_cons.2 ⟨by decide, fun c hc => hv c ?_⟩
    rw [hrest]
    exact List.mem_append_left _ hc
  have hsolid := hlead.solid (by simp) .nil hleft
  have hdropped := hlead.solid (by simp) .nil (quotesLeft_solid hv)
  have hraw : front ++ (lead ++ '\x27' :: (v.toList ++ rest)) =
      front ++ (lead ++ ['\x27']) ++ (v.toList ++ rest) := by simp
  rw [List.append_nil] at hsolid hdropped
  rw [hraw, stripComment_append (not_mark_lead hfront hlead), hcut.stripComment_append,
    List.append_assoc, List.append_assoc, List.singleton_append,
    hsolid.trimChars_behind hfront.blanks, dropCommas_behind (by decide)]
  rw [quotesLeft, if_pos hcut] at hdropped ⊢
  exact hdropped.trimChars_eq

/-- Without a comment mark in the default, its line is left whole. -/
theorem left_of_whole (hfront : Gap front) (hlead : DefaultLead name lead)
    (hws : ∀ w ∈ ws, OtherModifier w) (hspread : Spread ws cs) (hcomma : Comma comma)
    (hback : LineEnd back) (hv : ∀ c ∈ v.toList, isBlank c = false)
    (hwhole : ¬ HoldsComment v.toList) :
    trimChars (dropCommas (trimChars (stripComment
      (front ++ (lead ++ '\x27' :: (v.toList ++ '\x27' :: (cs ++ comma ++ back))))))) =
        lead ++ (quotesLeft v.toList ++ cs) := by
  have hcs := otherModifiers_unmarked hspread hws
  have htail : ∀ c ∈ '\x27' :: (cs ++ comma), c ≠ '#' ∧ c ≠ '/' :=
    List.forall_mem_cons.2 ⟨by decide, List.forall_mem_append.2 ⟨hcs.not_mark, hcomma.not_mark⟩⟩
  have hsolid := hlead.solid hws hspread (quotesLeft_solid hv)
  rw [quotesLeft, if_neg hwhole] at hsolid ⊢
  have hstrip : stripComment
      (front ++ (lead ++ '\x27' :: (v.toList ++ '\x27' :: (cs ++ comma ++ back)))) =
        front ++ (lead ++ (singleQuoted v.toList ++ cs) ++ comma) ++ stripComment back := by
    have hraw : front ++ (lead ++ '\x27' :: (v.toList ++ '\x27' :: (cs ++ comma ++ back))) =
        front ++ (lead ++ ['\x27']) ++ (v.toList ++ '\x27' :: (cs ++ comma ++ back)) := by simp
    have hend : stripComment ('\x27' :: (cs ++ comma ++ back)) =
        '\x27' :: (cs ++ comma) ++ stripComment back := stripComment_append htail
    rw [hraw, stripComment_append (not_mark_lead hfront hlead),
      stripComment_append_of_not hwhole (by decide), hend]
    simp [singleQuoted]
  -- commas are taken off the end of the line, which the closing quote or a word stands at
  have hlast : (lead ++ (singleQuoted v.toList ++ cs)).getLast? ≠ some ',' := by
    have hgroup : lead ++ (singleQuoted v.toList ++ cs) =
        lead ++ '\x27' :: v.toList ++ '\x27' :: cs := by simp [singleQuoted]
    rw [hgroup, List.getLast?_append_of_ne_nil _ (List.cons_ne_nil _ _)]
    intro hlast
    rcases List.mem_cons.1 (List.mem_of_getLast? hlast) with h | h
    · exact absurd h (by decide)
    · exact absurd (hcs _ h) (by decide)
  rw [hstrip, trimChars_blanks hfront.blanks hback.blanks, (hcomma.solid hsolid).trimChars_eq,
    trimChars_dropCommas hsolid hlast hcomma]

end Line

/-- The line of a default is read as a field with what is left of the default. -/
theorem DefaultLine.readField {name v : String} {raw : List Char} (h : DefaultLine name v raw)
    (hv : ∀ c ∈ v.toList, isBlank c = false) :
    ∃ f, RecordModel.readField (trimChars (stripComment raw)) = .ok f ∧ f.name = name ∧
      f.type = .scalar .text ∧
        f.default = some (.text (String.ofList (unquote (quotesLeft v.toList)))) := by
  cases h with
  | @intro front lead cs comma back ws hfront hlead hws hspread hcomma hback =>
    have hquotes := quotesLeft_solid hv
    have hraw : front ++ (lead ++ (singleQuoted v.toList ++ cs) ++ comma) ++ back =
        front ++ (lead ++ '\x27' :: (v.toList ++ '\x27' :: (cs ++ comma ++ back))) := by
      simp [singleQuoted]
    rw [hraw]
    by_cases hcut : HoldsComment v.toList
    · refine hlead.readField (List.forall_mem_nil _) .nil hquotes ?_
      rw [left_of_cut hfront hlead hv hcut, List.append_nil]
    · refine hlead.readField hws hspread hquotes ?_
      exact left_of_whole hfront hlead hws hspread hcomma hback hv hcut

/-! ## Definitions -/

/-- A default in quotes is read as it is written exactly if it holds no comment mark; in any case
its line is read, and the field stands at its place in the definition. -/
theorem Definition.default_verbatim_iff {name v : String} {raw : List Char}
    (hv : ∀ c ∈ v.toList, isBlank c = false) (hraw : DefaultLine name v raw) :
    ∃ f, readField (trimChars (stripComment raw)) = .ok f ∧ f.name = name ∧
      f.type = .scalar .text ∧
      (f.default = some (.text v) ↔ '#' ∉ v.toList ∧ ¬ ['/', '/'] <:+: v.toList) ∧
      (∀ (draft : Draft) (m : ModelDefinition), draft.current = some m →
        draft.readLine raw =
          .ok { draft with current := some { m with fields := m.fields ++ [f] } }) ∧
      ∀ (text : String) (d : Definition) (i : Nat) (m : ModelDefinition),
        Definition.read text = .ok d → Inside text raw i m →
          ∃ o, d.models[i]? = some o ∧ o.name = m.name ∧ o.fields[m.fields.length]? = some f := by
  obtain ⟨f, hf, hname, htype, hdefault⟩ := hraw.readField hv
  have hcolon := colon_mem_of_readField hf
  refine ⟨f, hf, hname, htype, ?_, ?_, ?_⟩
  · have hleft : unquote (quotesLeft v.toList) = v.toList ↔ ¬ HoldsComment v.toList :=
      unquote_quotesLeft_iff
    rw [HoldsComment, not_or, ← String.ofList_inj, String.ofList_toList] at hleft
    rw [hdefault, ← hleft, Option.some.injEq, Value.text.injEq]
  · intro draft m hcurrent
    rw [Draft.readLine_colon hcurrent hcolon, hf]
    rfl
  · intro text d i m hread hinside
    obtain ⟨g, hg, ho⟩ := hinside.readField hread hcolon
    cases hf.symm.trans hg
    exact ho

-- Decided on the text, as the instance for a quantifier over characters would try each one.
theorem not_isBlank_of_any {cs : List Char} (h : cs.any isBlank = false) :
    ∀ c ∈ cs, isBlank c = false := by
  intro c hc
  simpa using List.any_eq_false.1 h c hc

/-- Quotes, a comma, a colon and one slash in a default. -/
def labelLine : String := "  label : Text required default='it's,a:b=/c' index, // 'x' # y"

def labelText : String := "\n".intercalate ["model Note \x7b", labelLine, "\x7d"]

theorem labelLine_default : DefaultLine "label" "it's,a:b=/c" labelLine.toList := by
  have hspace : Gap [' '] := by decide
  have hne : [' '] ≠ [] := List.cons_ne_nil _ _
  have hlead := @DefaultLead.intro "label" [' '] [' '] _ [' '] "Text" ["required"] (by decide) hspace
    hspace (show lowerText "Text" ∈ DataType.keywords .text by decide)
    (List.forall_mem_singleton.2 (.flag (by decide))) (.cons hspace hne .nil) hspace hne
  have hline := @DefaultLine.intro "label" "it's,a:b=/c" [' ', ' '] _ _ [','] _ ["index"] (by decide)
    hlead (List.forall_mem_singleton.2 (.flag (by decide))) (.cons hspace hne .nil)
    (.inr ⟨[], by decide, rfl⟩) (@LineEnd.comment [' '] ['/', '/'] " 'x' # y".toList hspace
      (by decide) (by decide))
  obtain ⟨raw, hraw, hdefault⟩ : ∃ raw, raw = labelLine.toList ∧
      DefaultLine "label" "it's,a:b=/c" raw := ⟨_, by decide +kernel, hline⟩
  rw [← hraw]
  exact hdefault

theorem labelText_lines : splitAll '\n' labelText.toList =
    ["model Note \x7b".toList, labelLine.toList, ['\x7d']] := by decide +kernel

theorem labelLine_inside : Inside labelText labelLine.toList 0 ⟨"Note", none, []⟩ :=
  ⟨["model Note \x7b".toList], [['\x7d']], ⟨[], some ⟨"Note", none, []⟩⟩, labelText_lines, rfl,
    rfl, rfl⟩

theorem label_read_verbatim : (∀ c ∈ "it's,a:b=/c".toList, isBlank c = false) ∧
    DefaultLine "label" "it's,a:b=/c" labelLine.toList ∧
      ∃ d o f, Definition.read labelText = .ok d ∧ d.models[0]? = some o ∧ o.fields[0]? = some f ∧
        f.name = "label" ∧ f.default = some (.text "it's,a:b=/c") := by
  have hv : ∀ c ∈ "it's,a:b=/c".toList, isBlank c = false := not_isBlank_of_any (by decide)
  obtain ⟨f, -, hname, -, hdefault, hline, hplace⟩ :=
    Definition.default_verbatim_iff hv labelLine_default
  have hmarks : '#' ∉ "it's,a:b=/c".toList ∧ ¬ ['/', '/'] <:+: "it's,a:b=/c".toList := by
    decide +kernel
  have hread : Definition.read labelText = .ok ⟨[⟨"Note", none, [f]⟩]⟩ := by
    refine Definition.read_eq_ok.2 ⟨⟨[⟨"Note", none, [f]⟩], none⟩, ?_, rfl⟩
    have hfield : Draft.readLine ⟨[], some ⟨"Note", none, []⟩⟩ labelLine.toList =
        .ok ⟨[], some ⟨"Note", none, [f]⟩⟩ := hline ⟨[], some ⟨"Note", none, []⟩⟩ _ rfl
    have hheader : Draft.readLine .start "model Note \x7b".toList =
        .ok ⟨[], some ⟨"Note", none, []⟩⟩ := rfl
    rw [labelText_lines, List.foldlM_cons, hheader]
    show [labelLine.toList, ['\x7d']].foldlM Draft.readLine ⟨[], some ⟨"Note", none, []⟩⟩ = _
    rw [List.foldlM_cons, hfield]
    rfl
  obtain ⟨o, ho, -, hfield⟩ := hplace labelText _ 0 _ hread labelLine_inside
  exact ⟨hv, labelLine_default, _, o, f, hread, ho, hfield, hname, hdefault.2 hmarks⟩

/-- A number sign in quotes. -/
def ticketLine : String := "  label: text default='#1'"

def ticketText : String := "\n".intercalate ["model Note \x7b", ticketLine, "\x7d"]

theorem ticketText_lines : splitAll '\n' ticketText.toList =
    ["model Note \x7b".toList, ticketLine.toList, ['\x7d']] := by decide +kernel

theorem ticketLine_default : DefaultLine "label" "#1" ticketLine.toList := by
  have hnone : Gap [] := by decide
  have hspace : Gap [' '] := by decide
  have hlead := @DefaultLead.intro "label" [] [' '] _ [' '] "text" [] (by decide) hnone hspace
    (show lowerText "text" ∈ DataType.keywords .text by decide) (by simp) .nil hspace
    (List.cons_ne_nil _ _)
  exact @DefaultLine.intro "label" "#1" [' ', ' '] _ _ [] _ [] (by decide) hlead (by simp) .nil
    (.inl rfl) (.blank hnone)

/-- The line of a default is cut at a number sign in its quotes, and only the first quote is left
as the default. -/
theorem ticket_default_cut : (∀ c ∈ "#1".toList, isBlank c = false) ∧
    DefaultLine "label" "#1" ticketLine.toList ∧
      Inside ticketText ticketLine.toList 0 ⟨"Note", none, []⟩ ∧
      Definition.read ticketText = .ok ⟨[⟨"Note", none,
        [⟨"label", .scalar .text, false, false, false, none, some (.text "'")⟩]⟩]⟩ := by
  refine ⟨not_isBlank_of_any (by decide), ticketLine_default, ?_, ?_⟩
  · exact ⟨["model Note \x7b".toList], [['\x7d']], ⟨[], some ⟨"Note", none, []⟩⟩, ticketText_lines,
      rfl, rfl, rfl⟩
  · have hrun : ["model Note \x7b".toList, ticketLine.toList, ['\x7d']].foldlM Draft.readLine .start =
        .ok ⟨[⟨"Note", none,
          [⟨"label", .scalar .text, false, false, false, none, some (.text "'")⟩]⟩], none⟩ := rfl
    rw [← ticketText_lines] at hrun
    exact Definition.read_eq_ok.2 ⟨_, hrun, rfl⟩

end RecordModel
