import Mathlib.Data.List.TakeWhile
import RecordModel.Filter.Expression.Lexer
import RecordModel.Proofs.Catalog.Layout
import RecordModel.Proofs.Catalog.Names
import RecordModel.Proofs.Number.Digits

/-!
# Tokens of words and numbers

An identifier that a blank stands behind is a word, and digits at the end of a text are a number.
A number has no sign: whatever the text is, its numbers are digits with at most one point and an
exponent.

Results:
* `firstToken_word`, `firstToken_digits`: the tokens of identifiers and of whole numbers.
* `lex_spelled`: how the numbers of a text are spelled.
-/
namespace RecordModel.Filter

open RecordModel.Text RecordModel.Number

/-! ## Characters -/

theorem isLetter_of_isAlpha {c : Char} (h : c.isAlpha = true) : isLetter c = true := by
  have hrange := toNat_of_isAlpha h
  rwa [isLetter_of_ascii (by omega)]

theorem isWordChar_of_isNameChar {c : Char} (h : isNameChar c = true) : isWordChar c = true := by
  simp only [isNameChar, Char.isAlphanum, Bool.or_eq_true, beq_iff_eq] at h
  rcases h with (h | h) | rfl
  · simp [isWordChar, isLetter_of_isAlpha h]
  · have hdigit : isDigit c = true := h
    simp [isWordChar, hdigit]
  · rfl

theorem isNameChar_of_isNameStart {c : Char} (h : isNameStart c = true) : isNameChar c = true := by
  rw [isNameStart_iff] at h
  rw [isNameChar_iff]
  exact h.elim .inl fun h => .inr (.inr h)

/-- A character of an identifier is none that no identifier has. -/
theorem ne_of_isNameChar_eq_false {c d : Char} (h : isNameChar c = true)
    (hd : isNameChar d = false) : c ≠ d := by
  rintro rfl
  rw [h] at hd
  cases hd

theorem isBlank_of_isNameChar {c : Char} (h : isNameChar c = true) : isBlank c = false :=
  isBlank_of_isInk (by rw [isInk, h, Bool.true_or])

theorem isDigit_of_isNameStart {c : Char} (h : isNameStart c = true) : isDigit c = false := by
  rw [← Bool.not_eq_true]
  intro hdigit
  have hbounds := Char.isDigit_iff_toNat.1 hdigit
  rcases Bool.or_eq_true_iff.1 h with halpha | hunderscore
  · have hrange := toNat_of_isAlpha halpha
    have hhigh : c.toNat ≤ 57 := hbounds.2
    omega
  · rw [beq_iff_eq.1 hunderscore] at hdigit
    cases hdigit

/-! ## First characters -/

/-- The characters that some tokens are told by. -/
def tokenMarks : List Char := ['\x27', '\x22', '\x60', '.', '-', '/', '$', '?']

theorem not_mem_tokenMarks {p : Char → Bool} (h : tokenMarks.all (fun d => !p d) = true) {c : Char}
    (hc : p c = true) : c ∉ tokenMarks := fun hmem => by
  have hnot := List.all_eq_true.1 h c hmem
  rw [hc] at hnot
  cases hnot

/-- What a token is that none of these characters starts. -/
theorem firstToken_unmarked {c : Char} (hc : c ∉ tokenMarks) (afterWord : Bool)
    (rest : List Char) : firstToken afterWord (c :: rest) =
      if isBlank c then some (none, rest)
      else if isDigit c || c == '.' then numberToken (c :: rest)
      else if c == '#' || c == '@' then signToken c rest
      else if isLetter c || c == '_' then letterToken c rest
      else symbolToken c rest := by
  unfold firstToken
  split <;> rename_i heq <;> cases heq
  case h_10 => rfl
  all_goals exact absurd hc (by decide)

/-! ## Words -/

theorem firstToken_letter {c : Char} (hc : isNameStart c = true) (afterWord : Bool)
    (rest : List Char) : firstToken afterWord (c :: rest) = letterToken c rest := by
  have hne {d : Char} (hd : isNameChar d = false) : c ≠ d :=
    ne_of_isNameChar_eq_false (isNameChar_of_isNameStart hc) hd
  have hmarks : c ∉ tokenMarks := not_mem_tokenMarks (p := isNameStart) (by decide) hc
  have hletter : (isLetter c || c == '_') = true := by
    rcases Bool.or_eq_true_iff.1 hc with halpha | hunderscore
    · rw [isLetter_of_isAlpha halpha, Bool.true_or]
    · rw [hunderscore, Bool.or_true]
  have hpoint : (c == '.') = false := beq_eq_false_iff_ne.2 (hne (by decide))
  have hhash : (c == '#') = false := beq_eq_false_iff_ne.2 (hne (by decide))
  have hat : (c == '@') = false := beq_eq_false_iff_ne.2 (hne (by decide))
  rw [firstToken_unmarked hmarks, isBlank_of_isNameChar (isNameChar_of_isNameStart hc),
    isDigit_of_isNameStart hc, hpoint, hhash, hat, hletter]
  rfl

/-- A letter starts a word unless a quote stands behind it. -/
theorem letterToken_eq {c : Char} {rest : List Char}
    (h : ∀ d ∈ rest.head?, d ≠ '\x27' ∧ d ≠ '\x22' ∧ d ≠ '&') :
    letterToken c rest = wordFrom [c] rest := by
  unfold letterToken
  split
  case h_9 => rfl
  all_goals
    obtain ⟨hquote, hdouble, hand⟩ := h _ rfl
    contradiction

/-- An identifier that a blank stands behind. -/
theorem firstToken_word {c : Char} {cs : List Char} (hc : isNameStart c = true)
    (hcs : ∀ d ∈ cs, isNameChar d = true) (afterWord : Bool) (rest : List Char) :
    firstToken afterWord (c :: (cs ++ ' ' :: rest)) =
      some (some (.word (String.ofList (c :: cs)) none), ' ' :: rest) := by
  have hword : ∀ d ∈ cs, isWordChar d = true := fun d hd => isWordChar_of_isNameChar (hcs d hd)
  have hblank : isWordChar ' ' = false := by decide
  have hhead : ∀ d ∈ (cs ++ ' ' :: rest).head?, d ≠ '\x27' ∧ d ≠ '\x22' ∧ d ≠ '&' := by
    intro d hd
    cases cs with
    | nil =>
      cases hd
      decide
    | cons e cs =>
      cases hd
      have hname := hcs _ List.mem_cons_self
      exact ⟨ne_of_isNameChar_eq_false hname (by decide),
        ne_of_isNameChar_eq_false hname (by decide), ne_of_isNameChar_eq_false hname (by decide)⟩
  have hspan : spanWord (cs ++ ' ' :: rest) = (cs, ' ' :: rest) := by
    rw [spanWord, List.takeWhile_append_of_pos hword, List.dropWhile_append_of_pos hword]
    simp [hblank]
  rw [firstToken_letter hc, letterToken_eq hhead, wordFrom, hspan]
  rfl

/-! ## Numbers -/

theorem numberToken_digits {cs : List Char} (hne : cs ≠ []) (h : Digits cs) :
    numberToken cs = some (some (.number (String.ofList cs) false), []) := by
  have hspan : (cs ++ []).takeWhile isDigit = cs ∧ (cs ++ []).dropWhile isDigit = [] :=
    takeWhile_digits h (by simp)
  rw [List.append_nil] at hspan
  have hempty : cs.isEmpty = false := List.isEmpty_eq_false_iff.2 hne
  unfold numberToken
  rw [hspan.1, hspan.2]
  dsimp only
  split
  · contradiction
  · simp [hempty, spanPower]

/-- Digits at the end of a text. -/
theorem firstToken_digits {c : Char} {cs : List Char} (h : Digits (c :: cs)) (afterWord : Bool) :
    firstToken afterWord (c :: cs) = some (some (.number (String.ofList (c :: cs)) false), []) := by
  have hc : isDigit c = true := h c List.mem_cons_self
  have hmarks : c ∉ tokenMarks := not_mem_tokenMarks (p := isDigit) (by decide) hc
  have hname : isNameChar c = true := isNameChar_iff.2 (.inr (.inl (isDigit_iff.1 hc)))
  rw [firstToken_unmarked hmarks, isBlank_of_isNameChar hname, hc,
    numberToken_digits (List.cons_ne_nil c cs) h]
  rfl

theorem symbolToken_minus {d : Char} (hd : isDigit d = true) (cs : List Char) :
    symbolToken '-' (d :: cs) = some (some (.symbol "-"), d :: cs) := by
  have hne : '>' ≠ d := by
    rintro rfl
    cases hd
  simp [symbolToken, longSymbols, hne]

theorem firstToken_minus {d : Char} (hd : isDigit d = true) (afterWord : Bool) (cs : List Char) :
    firstToken afterWord ('-' :: d :: cs) = some (some (.symbol "-"), d :: cs) := by
  unfold firstToken
  split <;> rename_i heq <;> cases heq
  case h_6 => cases hd
  case h_10 => exact symbolToken_minus hd cs

/-! ## The tokens of a text -/

section

variable {fuel : Nat} {afterWord spaced : Bool} {c : Char} {cs rest : List Char}

theorem lexFrom_token {t : Token} (h : firstToken afterWord (c :: cs) = some (some t, rest)) :
    lexFrom (fuel + 1) afterWord spaced (c :: cs) =
      (lexFrom fuel t.isWord false rest).map (⟨t, spaced⟩ :: ·) := by
  rw [lexFrom, h]
  simp

theorem lexFrom_blank (h : firstToken afterWord (c :: cs) = some (none, rest)) :
    lexFrom (fuel + 1) afterWord spaced (c :: cs) = lexFrom fuel false true rest := by
  rw [lexFrom, h]
  simp

theorem lexFrom_nil : lexFrom fuel afterWord spaced [] = some [] := by
  cases fuel <;> rfl

theorem lexFrom_digits (h : Digits (c :: cs)) (hfuel : cs.length < fuel) :
    lexFrom fuel afterWord spaced (c :: cs) =
      some [⟨.number (String.ofList (c :: cs)) false, spaced⟩] := by
  obtain ⟨k, rfl⟩ := Nat.exists_eq_succ_of_ne_zero (Nat.ne_zero_of_lt hfuel)
  rw [lexFrom_token (firstToken_digits h afterWord), lexFrom_nil]
  rfl

end

/-- The tokens of an integer behind a blank. -/
def integerTokens (i : Int) : List Lexeme :=
  if i < 0 then [⟨.symbol "-", true⟩, ⟨.number (natText i.natAbs) false, false⟩]
  else [⟨.number (natText i.natAbs) false, true⟩]

theorem lexFrom_integer (i : Int) {fuel : Nat} (hfuel : (intText i).toList.length ≤ fuel) :
    lexFrom fuel false true (intText i).toList = some (integerTokens i) := by
  have hdigits := digits_natText i.natAbs
  rcases hnat : (natText i.natAbs).toList with _ | ⟨d, ds⟩
  · exact absurd hnat (natText_ne_nil _)
  rw [hnat] at hdigits
  have htext : String.ofList (d :: ds) = natText i.natAbs := by rw [← hnat, String.ofList_toList]
  have hd : isDigit d = true := hdigits d List.mem_cons_self
  rw [toList_intText, hnat] at hfuel ⊢
  rw [integerTokens]
  by_cases hneg : i < 0
  · have hsign : (signText (decide (i < 0))).toList = ['-'] := by
      rw [decide_eq_true hneg]
      rfl
    rw [hsign] at hfuel ⊢
    simp only [List.singleton_append, List.length_cons] at hfuel
    obtain ⟨k, rfl⟩ : ∃ k, fuel = k + 1 := ⟨fuel - 1, by omega⟩
    rw [List.singleton_append, lexFrom_token (firstToken_minus hd false ds),
      lexFrom_digits hdigits (by omega), if_pos hneg, htext]
    rfl
  · have hsign : (signText (decide (i < 0))).toList = [] := by
      rw [decide_eq_false hneg]
      rfl
    rw [hsign] at hfuel ⊢
    simp only [List.nil_append, List.length_cons] at hfuel
    rw [List.nil_append, lexFrom_digits hdigits (by omega), if_neg hneg, htext]

/-- A field, an equals sign, and what is the rest of the text. -/
theorem lex_comparison {f : String} (hf : isIdentifier f = true) {s : String} {ts : List Lexeme}
    (hs : ∀ fuel, s.toList.length ≤ fuel → lexFrom fuel false true s.toList = some ts) :
    lex (f ++ " = " ++ s).toList =
      some (⟨.word f none, false⟩ :: ⟨.symbol "=", true⟩ :: ts) := by
  rcases hname : f.toList with _ | ⟨c, cs⟩
  · rw [isIdentifier, hname] at hf
    cases hf
  rw [isIdentifier, hname, isIdentifier_cons] at hf
  have htext : String.ofList (c :: cs) = f := by rw [← hname, String.ofList_toList]
  have hlist : (f ++ " = " ++ s).toList = c :: (cs ++ ' ' :: '=' :: ' ' :: s.toList) := by
    rw [String.toList_append, String.toList_append, hname]
    simp
  have hlength : (c :: (cs ++ ' ' :: '=' :: ' ' :: s.toList)).length =
      cs.length + s.toList.length + 4 := by
    simp only [List.length_cons, List.length_append]
    omega
  have hequals (rest : List Char) :
      firstToken false ('=' :: ' ' :: rest) = some (some (.symbol "="), ' ' :: rest) := rfl
  have hblank (afterWord : Bool) (rest : List Char) :
      firstToken afterWord (' ' :: rest) = some (none, rest) := rfl
  rw [lex, hlist, hlength, lexFrom_token (firstToken_word hf.1 hf.2 false _),
    lexFrom_blank (hblank _ _), lexFrom_token (hequals _), lexFrom_blank (hblank _ _),
    hs _ (by omega), htext]
  rfl

/-! ## How numbers are spelled -/

/-- Nothing, or an exponent with digits. -/
inductive IsPower : List Char → Prop where
  | none : IsPower []
  | digits {e : Char} {sign ds : List Char} (he : e = 'e' ∨ e = 'E')
    (hsign : sign ∈ [[], ['+'], ['-']]) (hne : ds ≠ []) (hds : Digits ds) :
    IsPower (e :: (sign ++ ds))

/-- Digits with at most one point, and perhaps an exponent. -/
inductive IsNumeral : List Char → Prop where
  | mk {whole point fraction power : List Char} (hwhole : Digits whole)
    (hpoint : point = ['.'] ∨ point = [] ∧ fraction = []) (hfraction : Digits fraction)
    (hsome : whole ≠ [] ∨ fraction ≠ []) (hpower : IsPower power) :
    IsNumeral (whole ++ point ++ fraction ++ power)

/-- If the token is a number, it is spelled as one. -/
def Token.Spelled : Token → Prop
  | number spelling _ => IsNumeral spelling.toList
  | word _ _ | text _ | marked _ _ _ | dollarText _ _ | placeholder _ | symbol _ => True

def Step.Spelled (step : Step) : Prop := ∀ t rest, step = some (some t, rest) → t.Spelled

theorem Step.Spelled.some {t : Token} (h : t.Spelled) (rest : List Char) :
    Step.Spelled (Option.some (Option.some t, rest)) := fun _ _ heq => by
  cases heq
  exact h

theorem Step.Spelled.map {α : Type} {found : Option α} {f : α → Option Token × List Char}
    (h : ∀ a t, (f a).1 = Option.some t → t.Spelled) : Step.Spelled (found.map f) := by
  intro t rest heq
  obtain ⟨a, -, ha⟩ := Option.map_eq_some_iff.1 heq
  exact h a t (congrArg Prod.fst ha)

theorem digits_takeWhile (cs : List Char) : Digits (cs.takeWhile isDigit) := fun _ hc =>
  List.mem_takeWhile_imp hc

theorem takeWhile_dropWhile_digits (cs : List Char) :
    (cs.dropWhile isDigit).takeWhile isDigit = [] := by
  rcases hrest : cs.dropWhile isDigit with _ | ⟨d, rest⟩
  · rfl
  · have hd : isDigit d = false := by simpa [hrest] using List.head?_dropWhile_not isDigit cs
    simp [hd]

theorem isPower_spanPower (cs : List Char) : IsPower (spanPower cs).1 := by
  unfold spanPower
  split
  · rename_i e rest
    split
    · rename_i he
      have hpower {sign ds : List Char} (hsign : sign ∈ [[], ['+'], ['-']]) :
          IsPower (if ds.head?.any isDigit then
            (e :: sign ++ ds.takeWhile isDigit, ds.dropWhile isDigit) else ([], e :: rest)).1 := by
        split
        · rename_i hdigit
          refine .digits he hsign (fun hnil => ?_) (digits_takeWhile ds)
          cases ds with
          | nil => cases hdigit
          | cons d ds =>
            have hd : isDigit d = true := hdigit
            simp [hd] at hnil
        · exact .none
      split
      rename_i heq
      split at heq <;> cases heq <;> exact hpower (by simp)
    · exact .none
  · exact .none

theorem numberToken_spelled (cs : List Char) : (numberToken cs).Spelled := by
  have hnumber {point fraction rest : List Char}
      (hpoint : point = ['.'] ∨ point = [] ∧ fraction = []) (hfraction : Digits fraction)
      (hsome : ¬ ((cs.takeWhile isDigit).isEmpty && fraction.isEmpty) = true) (long : Bool) :
      (Token.number (String.ofList
        (cs.takeWhile isDigit ++ point ++ fraction ++ (spanPower rest).1)) long).Spelled := by
    rw [Token.Spelled, String.toList_ofList]
    refine .mk (digits_takeWhile cs) hpoint hfraction ?_ (isPower_spanPower rest)
    rw [Bool.and_eq_true, not_and_or] at hsome
    simpa using hsome
  unfold numberToken
  dsimp only
  split
  · exact .some (by trivial) _
  -- with a point behind the first digits, and without one
  split
  · split
    · exact .some (by trivial) _
    · rename_i hsome
      split <;> exact .some (hnumber (.inl rfl) (digits_takeWhile _) hsome _) _
  · split
    · exact .some (by trivial) _
    · rename_i hsome
      split <;> exact .some (hnumber (.inr ⟨rfl, takeWhile_dropWhile_digits cs⟩)
        (digits_takeWhile _) hsome _) _

theorem symbolToken_spelled (c : Char) (rest : List Char) : (symbolToken c rest).Spelled := by
  unfold symbolToken
  split <;> exact .some (by trivial) _

theorem signToken_spelled (c : Char) (rest : List Char) : (signToken c rest).Spelled := by
  have hword (start cs : List Char) : (wordFrom start cs).Spelled := .some (by trivial) _
  have hsigned (sign : List Char) (isAlone : Char → Bool) (cs : List Char) :
      (signedWord sign isAlone cs).Spelled := by
    unfold signedWord
    split
    · exact .some (by trivial) _
    · split
      · exact .some (by trivial) _
      · exact hword _ _
  unfold signToken
  split
  · split_ifs
    · exact hsigned _ _ _
    · exact hsigned _ _ _
    · exact hsigned _ _ _
    · exact .some (by trivial) _
  · exact symbolToken_spelled c rest

theorem letterToken_spelled (c : Char) (rest : List Char) : (letterToken c rest).Spelled := by
  have hdecoded (mark : String) (decode : List Char → Option (List Char))
      (found : Option (List Char × List Char)) : (decodedToken mark decode found).Spelled := by
    intro t rest heq
    obtain ⟨⟨body, after⟩, -, heq⟩ := Option.bind_eq_some_iff.1 heq
    obtain ⟨s, -, heq⟩ := Option.bind_eq_some_iff.1 heq
    cases heq
    trivial
  have hmarked (mark : String) (quote : Char) (rest : List Char) :
      (markedToken mark quote rest).Spelled := .map (by rintro ⟨s, rest⟩ t ⟨⟩; trivial)
  unfold letterToken
  split
  case h_7 | h_8 => exact hdecoded _ _ _
  case h_9 => exact .some (by trivial) _
  all_goals exact hmarked _ _ _

theorem dollarToken_spelled (rest : List Char) : (dollarToken rest).Spelled := by
  unfold dollarToken
  dsimp only
  split
  · exact .map (by rintro ⟨s, rest⟩ t ⟨⟩; trivial)
  · exact .some (by trivial) _

theorem firstToken_spelled (afterWord : Bool) (cs : List Char) :
    (firstToken afterWord cs).Spelled := by
  unfold firstToken
  split
  · exact nofun
  · exact .map (by rintro ⟨s, rest⟩ t ⟨⟩; trivial)
  · exact .map (by rintro ⟨s, rest⟩ t ⟨⟩; trivial)
  · exact .map (by rintro ⟨s, rest⟩ t ⟨⟩; trivial)
  · split
    · exact .some (by trivial) _
    · exact nofun
  · exact nofun
  · exact .map nofun
  · exact dollarToken_spelled _
  · exact .some (by trivial) _
  · split_ifs
    · exact nofun
    · exact numberToken_spelled _
    · exact signToken_spelled _ _
    · exact letterToken_spelled _ _
    · exact symbolToken_spelled _ _

/-- The numbers of a text are spelled as such. -/
theorem lexFrom_spelled {fuel : Nat} {afterWord spaced : Bool} {cs : List Char} {ts : List Lexeme}
    (h : lexFrom fuel afterWord spaced cs = some ts) : ∀ l ∈ ts, l.token.Spelled := by
  induction fuel generalizing afterWord spaced cs ts with
  | zero =>
    cases cs with
    | nil => cases h; simp
    | cons c cs => cases h
  | succ fuel ih =>
    cases cs with
    | nil => cases h; simp
    | cons c cs =>
      rw [lexFrom] at h
      · split at h
        · cases h
        · exact ih h
        · rename_i t rest hfirst
          obtain ⟨us, hus, rfl⟩ := Option.map_eq_some_iff.1 h
          exact List.forall_mem_cons.2 ⟨firstToken_spelled _ _ _ _ hfirst, ih hus⟩
      · simp

theorem lex_spelled {cs : List Char} {ts : List Lexeme} (h : lex cs = some ts) :
    ∀ l ∈ ts, l.token.Spelled :=
  lexFrom_spelled h

end RecordModel.Filter
