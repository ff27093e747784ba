import RecordModel.Proofs.Sql.Lexemes
import RecordModel.Proofs.Text.Cuts

/-!
# Quotes and placeholders

A text is made of placeholders, of texts between two quotes of one kind, and of other characters
that stand for themselves; its last part may be a quote that is never closed. `Divides cs ss` says
that a text is divided so. The scanner behind expanding and numbering keeps nothing but the
quote it is in.

Results:
* `exists_divides`, `Divides.unique`: a text is divided in one way.
* `Divides.length_pieces`, `Divides.weave_pieces`: the scanner cuts where this division has a
  placeholder.
* `Divides.spread`: an expanded text is divided as the text was, with the placeholders of its
  items for each argument.
* `expand_and_number`: what expanding and numbering do to a text, whatever its quotes.
-/
namespace RecordModel.Sql

open RecordModel.Text

/-! ## Dividing a text -/

inductive Segment where
  | placeholder
  /-- A character outside quotes. -/
  | plain (c : Char)
  /-- What stands between two quotes of one kind. -/
  | quoted (quote : Char) (inside : List Char)
  /-- What stands behind a quote that is never closed. -/
  | unclosed (quote : Char) (inside : List Char)
  deriving DecidableEq

def Segment.text : Segment → List Char
  | placeholder => ['?']
  | plain c => [c]
  | quoted quote inside => quote :: (inside ++ [quote])
  | unclosed quote inside => quote :: inside

/-- The parts of a text. -/
inductive Divides : List Char → List Segment → Prop where
  | nil : Divides [] []
  | placeholder {cs : List Char} {ss : List Segment} :
    Divides cs ss → Divides ('?' :: cs) (.placeholder :: ss)
  | plain {c : Char} {cs : List Char} {ss : List Segment} :
    c ≠ '?' → ¬ isQuote c = true → Divides cs ss → Divides (c :: cs) (.plain c :: ss)
  | quoted {quote : Char} {inside cs : List Char} {ss : List Segment} :
    isQuote quote = true → quote ∉ inside → Divides cs ss →
    Divides (quote :: (inside ++ quote :: cs)) (.quoted quote inside :: ss)
  | unclosed {quote : Char} {inside : List Char} :
    isQuote quote = true → quote ∉ inside →
    Divides (quote :: inside) [.unclosed quote inside]

variable {cs : List Char} {ss ts : List Segment}

theorem not_isQuote_placeholder : ¬ isQuote '?' = true := by decide

theorem exists_divides (cs : List Char) : ∃ ss, Divides cs ss := by
  -- a quoted text is passed over at once, so the induction is on the length
  induction hn : cs.length using Nat.strongRecOn generalizing cs with
  | ind n ih =>
    cases cs with
    | nil => exact ⟨_, .nil⟩
    | cons c cs =>
      rw [List.length_cons] at hn
      by_cases hc : isQuote c = true
      · by_cases hmem : c ∈ cs
        · obtain ⟨inside, rest, rfl, hinside⟩ := List.eq_append_cons_of_mem hmem
          rw [List.length_append, List.length_cons] at hn
          obtain ⟨ss, hss⟩ := ih rest.length (by omega) rest rfl
          exact ⟨_, .quoted hc hinside hss⟩
        · exact ⟨_, .unclosed hc hmem⟩
      · obtain ⟨ss, hss⟩ := ih cs.length (by omega) cs rfl
        by_cases hp : c = '?'
        · subst hp
          exact ⟨_, .placeholder hss⟩
        · exact ⟨_, .plain hp hc hss⟩

/-- A text between quotes ends at the first quote of its kind. -/
theorem inside_inj {quote : Char} {a b : List Char} {as bs : List Char} (ha : quote ∉ a)
    (hb : quote ∉ b) (h : a ++ quote :: as = b ++ quote :: bs) : a = b ∧ as = bs := by
  have hcut := congrArg (splitAll quote) h
  rw [splitAll_append ha, splitAll_append hb] at hcut
  obtain rfl := (List.cons.inj hcut).1
  exact ⟨rfl, (List.cons.inj (List.append_cancel_left h)).2⟩

/-- A quote starts a text up to the next quote of its kind, or up to the end without one. -/
theorem Divides.of_quote {quote : Char} (hq : isQuote quote = true)
    (h : Divides (quote :: cs) ts) :
    (∃ inside rest us, quote ∉ inside ∧ cs = inside ++ quote :: rest ∧ Divides rest us ∧
      ts = .quoted quote inside :: us) ∨ quote ∉ cs ∧ ts = [.unclosed quote cs] := by
  cases h with
  | placeholder => exact absurd hq not_isQuote_placeholder
  | plain _ hc => exact absurd hq hc
  | quoted _ hinside hrest => exact .inl ⟨_, _, _, hinside, rfl, hrest, rfl⟩
  | unclosed _ hinside => exact .inr ⟨hinside, rfl⟩

theorem Divides.unique (h : Divides cs ss) (h' : Divides cs ts) : ss = ts := by
  induction h generalizing ts with
  | nil =>
    cases h'
    rfl
  | placeholder _ ih =>
    cases h' with
    | placeholder hrest => rw [ih hrest]
    | plain hp => exact absurd rfl hp
    | quoted hq | unclosed hq => exact absurd hq not_isQuote_placeholder
  | plain hp hc _ ih =>
    cases h' with
    | placeholder => exact absurd rfl hp
    | plain _ _ hrest => rw [ih hrest]
    | quoted hq | unclosed hq => exact absurd hq hc
  | quoted hq hinside _ ih =>
    rcases h'.of_quote hq with ⟨inside', rest, us, hinside', htail, hrest, rfl⟩ | ⟨hopen, -⟩
    · obtain ⟨rfl, rfl⟩ := inside_inj hinside hinside' htail
      rw [ih hrest]
    · simp at hopen
  | unclosed hq hinside =>
    rcases h'.of_quote hq with ⟨inside', rest, us, -, rfl, -⟩ | ⟨-, rfl⟩
    · simp at hinside
    · rfl

theorem Divides.iff_eq (h : Divides cs ss) (ts : List Segment) : Divides cs ts ↔ ts = ss :=
  ⟨fun h' => h'.unique h, by rintro rfl; exact h⟩

/-! ## Marks in place of placeholders -/

/-- The parts in a row, each placeholder with the next of the marks in its place. -/
def fill : List Segment → List (List Char) → List Char
  | [], _ => []
  | .placeholder :: ss, mark :: marks => mark ++ fill ss marks
  | s :: ss, marks => s.text ++ fill ss marks

theorem fill_cons {s : Segment} (h : s ≠ .placeholder) (ss : List Segment)
    (marks : List (List Char)) : fill (s :: ss) marks = s.text ++ fill ss marks := by
  cases s with
  | placeholder => exact absurd rfl h
  | plain | quoted | unclosed => rw [fill]; simp

/-! ## Where the scanner cuts -/

theorem length_pieces_inside {quote : Char} {inside : List Char} (h : quote ∉ inside)
    (cs : List Char) :
    (pieces (some quote) (inside ++ cs)).length = (pieces (some quote) cs).length := by
  induction inside with
  | nil => rfl
  | cons c inside ih =>
    rw [List.mem_cons, not_or] at h
    rw [List.cons_append, length_pieces_of_not (by simp), quoteAfter_inside (Ne.symm h.1), ih h.2]

theorem weave_pieces_inside {quote : Char} {inside : List Char} (h : quote ∉ inside)
    (cs : List Char) (marks : List (List Char)) :
    weave (pieces (some quote) (inside ++ cs)) marks =
      inside ++ weave (pieces (some quote) cs) marks := by
  induction inside with
  | nil => rfl
  | cons c inside ih =>
    rw [List.mem_cons, not_or] at h
    rw [List.cons_append, weave_pieces_of_not (by simp), quoteAfter_inside (Ne.symm h.1), ih h.2,
      List.cons_append]

theorem ne_placeholder_of_isQuote {c : Char} (h : isQuote c = true) :
    ¬ ((none : Option Char) = none ∧ c = '?') := by
  rintro ⟨-, rfl⟩
  exact absurd h not_isQuote_placeholder

/-- A text has one piece more than its division has placeholders. -/
theorem Divides.length_pieces (h : Divides cs ss) :
    (pieces none cs).length = ss.count .placeholder + 1 := by
  induction h with
  | nil => rfl
  | placeholder _ ih =>
    rw [pieces_placeholder, List.length_cons, ih, List.count_cons_self]
  | plain hp hc _ ih =>
    rw [length_pieces_of_not fun h => hp h.2, quoteAfter_none hc, ih,
      List.count_cons_of_ne (by simp)]
  | quoted hq hinside _ ih =>
    rw [length_pieces_of_not (ne_placeholder_of_isQuote hq), quoteAfter_open hq,
      length_pieces_inside hinside, length_pieces_of_not (by simp), quoteAfter_close, ih,
      List.count_cons_of_ne (by simp)]
  | @unclosed quote inside hq hinside =>
    have hend := length_pieces_inside hinside []
    rw [List.append_nil] at hend
    rw [length_pieces_of_not (ne_placeholder_of_isQuote hq), quoteAfter_open hq, hend]
    rfl

/-- Marks that are put between the pieces stand where the placeholders stood. -/
theorem Divides.weave_pieces (h : Divides cs ss) {marks : List (List Char)}
    (hmarks : ss.count .placeholder = marks.length) :
    weave (pieces none cs) marks = fill ss marks := by
  induction h generalizing marks with
  | nil => rfl
  | placeholder _ ih =>
    cases marks with
    | nil => simp at hmarks
    | cons mark marks =>
      rw [List.count_cons_self, List.length_cons, Nat.add_right_cancel_iff] at hmarks
      rw [pieces_placeholder, weave_nil_cons (pieces_ne_nil _ _), ih hmarks, fill]
  | plain hp hc _ ih =>
    rw [List.count_cons_of_ne (by simp)] at hmarks
    rw [weave_pieces_of_not fun h => hp h.2, quoteAfter_none hc, ih hmarks, fill_cons (by simp)]
    rfl
  | quoted hq hinside _ ih =>
    rw [List.count_cons_of_ne (by simp)] at hmarks
    rw [weave_pieces_of_not (ne_placeholder_of_isQuote hq), quoteAfter_open hq,
      weave_pieces_inside hinside, weave_pieces_of_not (by simp), quoteAfter_close, ih hmarks,
      fill_cons (by simp)]
    simp [Segment.text]
  | @unclosed quote inside hq hinside =>
    have hend := weave_pieces_inside hinside [] marks
    rw [List.append_nil] at hend
    rw [weave_pieces_of_not (ne_placeholder_of_isQuote hq), quoteAfter_open hq, hend,
      fill_cons (by simp)]
    simp [Segment.text, pieces, weave, fill]

theorem Divides.countPlaceholders (h : Divides cs ss) :
    countPlaceholders cs = ss.count .placeholder := by
  rw [Sql.countPlaceholders, h.length_pieces, Nat.add_sub_cancel]

/-! ## The division of an expanded text -/

/-- Marks for the items of a list, with commas between them. -/
def listed (mark : Value → List Char) (items : List Value) : List Char :=
  [',', ' '].intercalate (items.map mark)

/-- An argument with a mark for each of its items. -/
def argumentText (mark : Value → List Char) (v : Value) : List Char := listed mark (itemsOf v)

/-- Placeholders for the items of a list, with commas between them. -/
def itemSegments (items : List Value) : List Segment :=
  [.plain ',', .plain ' '].intercalate (items.map fun _ => [.placeholder])

/-- Each placeholder spread over the items of its argument. -/
def spread : List Segment → List Value → List Segment
  | [], _ => []
  | .placeholder :: ss, v :: args => itemSegments (itemsOf v) ++ spread ss args
  | s :: ss, args => s :: spread ss args

theorem spread_cons {s : Segment} (h : s ≠ .placeholder) (ss : List Segment) (args : List Value) :
    spread (s :: ss) args = s :: spread ss args := by
  cases s with
  | placeholder => exact absurd rfl h
  | plain | quoted | unclosed => rw [spread]; simp

theorem itemSegments_cons_cons (v w : Value) (items : List Value) :
    itemSegments (v :: w :: items) =
      .placeholder :: .plain ',' :: .plain ' ' :: itemSegments (w :: items) := by
  simp [itemSegments]

theorem listed_cons_cons (mark : Value → List Char) (v w : Value) (items : List Value) :
    listed mark (v :: w :: items) = mark v ++ ',' :: ' ' :: listed mark (w :: items) := by
  simp [listed]

theorem count_itemSegments (items : List Value) :
    (itemSegments items).count .placeholder = items.length := by
  induction items with
  | nil => rfl
  | cons v items ih =>
    cases items with
    | nil => rfl
    | cons w items =>
      rw [itemSegments_cons_cons, List.count_cons_self, List.count_cons_of_ne (by simp),
        List.count_cons_of_ne (by simp), ih]
      rfl

theorem fill_itemSegments (mark : Value → List Char) (items : List Value) (ss : List Segment)
    (marks : List (List Char)) :
    fill (itemSegments items ++ ss) (items.map mark ++ marks) =
      listed mark items ++ fill ss marks := by
  induction items with
  | nil => rfl
  | cons v items ih =>
    cases items with
    | nil => simp [itemSegments, listed, fill]
    | cons w items =>
      rw [itemSegments_cons_cons, listed_cons_cons, List.map_cons, List.cons_append,
        List.cons_append, List.cons_append, List.cons_append, fill, fill_cons (by simp),
        fill_cons (by simp), ih]
      simp [Segment.text]

theorem Divides.items (h : Divides cs ss) (items : List Value) :
    Divides (listed (fun _ => ['?']) items ++ cs) (itemSegments items ++ ss) := by
  induction items with
  | nil => exact h
  | cons v items ih =>
    cases items with
    | nil => exact .placeholder h
    | cons w items =>
      rw [itemSegments_cons_cons, listed_cons_cons]
      exact .placeholder (.plain (by decide) (by decide) (.plain (by decide) (by decide) ih))

theorem Divides.spread (h : Divides cs ss) (args : List Value) :
    Divides (fill ss (args.map (argumentText fun _ => ['?']))) (spread ss args) := by
  induction h generalizing args with
  | nil => exact .nil
  | placeholder _ ih =>
    cases args with
    | nil => exact .placeholder (ih [])
    | cons v args => exact (ih args).items (itemsOf v)
  | plain hp hc _ ih =>
    rw [fill_cons (by simp), spread_cons (by simp)]
    exact .plain hp hc (ih args)
  | @quoted quote inside _ _ hq hinside _ ih =>
    rw [fill_cons (by simp), spread_cons (by simp)]
    have hquoted := Divides.quoted hq hinside (ih args)
    simpa [Segment.text] using hquoted
  | @unclosed quote inside hq hinside =>
    rw [fill_cons (by simp), spread_cons (by simp)]
    have hunclosed := Divides.unclosed hq hinside
    simpa [Segment.text, fill, Sql.spread] using hunclosed

theorem count_spread {args : List Value} (h : ss.count .placeholder = args.length) :
    (spread ss args).count .placeholder = (args.flatMap itemsOf).length := by
  induction ss generalizing args with
  | nil =>
    obtain rfl := List.length_eq_zero_iff.1 h.symm
    rfl
  | cons s ss ih =>
    by_cases hs : s = .placeholder
    · subst hs
      cases args with
      | nil => simp at h
      | cons v args =>
        rw [List.count_cons_self, List.length_cons, Nat.add_right_cancel_iff] at h
        rw [spread, List.count_append, count_itemSegments, ih h, List.flatMap_cons,
          List.length_append]
    · rw [List.count_cons_of_ne hs] at h
      rw [spread_cons hs, List.count_cons_of_ne hs, ih h]

/-- Marks for the items in order stand where those of their arguments would. -/
theorem fill_spread (mark : Value → List Char) {args : List Value}
    (h : ss.count .placeholder = args.length) :
    fill (spread ss args) ((args.flatMap itemsOf).map mark) =
      fill ss (args.map (argumentText mark)) := by
  induction ss generalizing args with
  | nil => rfl
  | cons s ss ih =>
    by_cases hs : s = .placeholder
    · subst hs
      cases args with
      | nil => simp at h
      | cons v args =>
        rw [List.count_cons_self, List.length_cons, Nat.add_right_cancel_iff] at h
        rw [spread, List.flatMap_cons, List.map_append, fill_itemSegments, ih h, List.map_cons,
          fill, argumentText]
    · rw [List.count_cons_of_ne hs] at h
      rw [spread_cons hs, fill_cons hs, fill_cons hs, ih h]

/-! ## Expanding and numbering -/

theorem itemsOf_eq_nil_iff {v : Value} : itemsOf v = [] ↔ v = .list [] := by
  cases v <;> simp [itemsOf]

theorem length_numbers (count first : Nat) : (numbers count first).length = count := by
  rw [numbers, List.length_map, List.length_range']

theorem number_toList {s : String} (h : Divides s.toList ss) :
    (number s).toList = fill ss
      ((List.range (ss.count .placeholder)).map fun k => '$' :: Nat.toDigits 10 (k + 1)) := by
  have hmarks : ss.count .placeholder = (numbers (ss.count .placeholder) 1).length :=
    (length_numbers _ _).symm
  unfold number
  dsimp only
  rw [String.toList_ofList, h.length_pieces, Nat.add_sub_cancel, h.weave_pieces hmarks,
    numbers_from_one]

theorem expand_ok_iff {sql : String} {args : List Value} (h : Divides sql.toList ss) :
    (∃ r, expand sql args = .ok r) ↔ ss.count .placeholder = args.length ∧ .list [] ∉ args := by
  have hitems : .list [] ∉ args ↔ ∀ v ∈ args, itemsOf v ≠ [] := by
    simp only [ne_eq, itemsOf_eq_nil_iff]
    exact ⟨fun hmem v hv he => hmem (he ▸ hv), fun hall hmem => hall _ hmem rfl⟩
  rw [hitems, ← h.countPlaceholders]
  constructor
  · rintro ⟨r, hr⟩
    exact of_expand_eq_ok hr
  · rintro ⟨hcount, hne⟩
    exact ⟨_, expand_eq hcount hne⟩

theorem expand_toList {sql out : String} {args flat : List Value} (h : Divides sql.toList ss)
    (hok : expand sql args = .ok (out, flat)) :
    out.toList = fill ss (args.map (argumentText fun _ => ['?'])) ∧
      flat = args.flatMap itemsOf := by
  obtain ⟨hcount, hne⟩ := of_expand_eq_ok hok
  have hmarks : (args.map fun v => (argumentMarks v).toList) =
      args.map (argumentText fun _ => ['?']) :=
    List.map_congr_left fun v _ => String.toList_ofList
  rw [expand_eq hcount hne, hmarks, h.weave_pieces] at hok
  · cases hok
    exact ⟨String.toList_ofList, rfl⟩
  · rw [List.length_map, ← hcount, h.countPlaceholders]

/-- A text has one division, whatever its quotes. It can be expanded exactly with one argument for
each placeholder of this division and no empty list among them. The expanded text has for each
argument as many question marks as it has items and is otherwise the same; it is divided in one
way as well, with one placeholder for each item, and the placeholder of an item stands where the
item does if the arguments are written into the text. Numbering puts `$` and the digits of one, two
and so on in place of the placeholders, of any text and so of an expanded one. -/
theorem expand_and_number (sql : String) :
    ∃ ss, (∀ ts, Divides sql.toList ts ↔ ts = ss) ∧
      (number sql).toList = fill ss
        ((List.range (ss.count .placeholder)).map fun k => '$' :: Nat.toDigits 10 (k + 1)) ∧
      ∀ args, ((∃ r, expand sql args = .ok r) ↔
          ss.count .placeholder = args.length ∧ .list [] ∉ args) ∧
        ∀ out flat, expand sql args = .ok (out, flat) →
          out.toList = fill ss (args.map (argumentText fun _ => ['?'])) ∧
          flat = args.flatMap itemsOf ∧
          ∃ ts, (∀ us, Divides out.toList us ↔ us = ts) ∧
            ts.count .placeholder = flat.length ∧
            (∀ mark, fill ts (flat.map mark) = fill ss (args.map (argumentText mark))) ∧
            (number out).toList = fill ts
              ((List.range flat.length).map fun k => '$' :: Nat.toDigits 10 (k + 1)) := by
  obtain ⟨ss, hss⟩ := exists_divides sql.toList
  refine ⟨ss, hss.iff_eq, number_toList hss, fun args => ⟨expand_ok_iff hss, ?_⟩⟩
  intro out flat hok
  obtain ⟨hcount, -⟩ := (expand_ok_iff hss).1 ⟨_, hok⟩
  obtain ⟨hout, rfl⟩ := expand_toList hss hok
  have hts : Divides out.toList (spread ss args) := hout ▸ hss.spread args
  have hitems := count_spread hcount
  refine ⟨hout, rfl, spread ss args, hts.iff_eq, hitems, fun mark => fill_spread mark hcount, ?_⟩
  rw [number_toList hts, hitems]

/-- Two items of a list and a value are numbered in their order; what is quoted stays. -/
theorem listAndFlag_numbered :
    expand "a IN (?) AND b = 'it''s ?' AND c = ?" [.list [.integer 7, .null], .boolean true] =
        .ok ("a IN (?, ?) AND b = 'it''s ?' AND c = ?", [.integer 7, .null, .boolean true]) ∧
      number "a IN (?, ?) AND b = 'it''s ?' AND c = ?" =
        "a IN ($1, $2) AND b = 'it''s ?' AND c = $3" ∧
      ∃ ss, Divides "a IN (?, ?) AND b = 'it''s ?' AND c = ?".toList ss ∧
        fill ss [['$', '1'], ['$', '2'], ['$', '3']] =
          "a IN ($1, $2) AND b = 'it''s ?' AND c = $3".toList := by
  have hexpanded : expand "a IN (?) AND b = 'it''s ?' AND c = ?"
      [.list [.integer 7, .null], .boolean true] =
        .ok ("a IN (?, ?) AND b = 'it''s ?' AND c = ?", [.integer 7, .null, .boolean true]) := by
    rfl
  have hnumbered : number "a IN (?, ?) AND b = 'it''s ?' AND c = ?" =
      "a IN ($1, $2) AND b = 'it''s ?' AND c = $3" := by
    decide
  obtain ⟨_, -, -, hexpand⟩ := expand_and_number "a IN (?) AND b = 'it''s ?' AND c = ?"
  obtain ⟨-, -, ss, hss, -, -, hfilled⟩ := (hexpand _).2 _ _ hexpanded
  rw [hnumbered] at hfilled
  exact ⟨hexpanded, hnumbered, ss, (hss ss).2 rfl, hfilled.symm⟩

end RecordModel.Sql
