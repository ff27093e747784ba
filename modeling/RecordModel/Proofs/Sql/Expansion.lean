import RecordModel.Sql.Dialect

/-!
# Placeholders in composed texts

A statement is put together from pieces of SQL, and only the finished text is scanned for
placeholders. `Fills mark s args s'` says that a text leaves no quote open, holds one
placeholder for each of `args`, and becomes `s'` when each placeholder is replaced by the mark
of its argument. It is kept by putting texts one behind the other, so that the placeholders
of the whole are those of its pieces. `Spreads` is the case of the marks that expanding uses,
a question mark for each item of an argument.

Results:
* `Fills.append`, `FillsAll.join`: the placeholders of pieces are filled piece by piece.
* `expand_eq`, `of_expand_eq_ok`: expanding succeeds exactly with an argument for each placeholder
  and items in each argument, and gives the expanded text and the items in order.
* `Fills.expand_eq`: so what a text becomes with the marks of its items is what it is expanded to.
* `inert_quoteName`, `inert_quoteText`: what is quoted holds no placeholder, whatever it is.
* `Fragment.Composable.expand_eq`: what a piece of SQL with its arguments is expanded to.
-/
namespace RecordModel.Sql

/-! ## Cutting a text in two -/

theorem pieces_placeholder (cs : List Char) : pieces none ('?' :: cs) = [] :: pieces none cs := by
  rw [pieces, if_pos ⟨rfl, rfl⟩]

theorem length_pieces_of_not {quote : Option Char} {c : Char} (h : ¬ (quote = none ∧ c = '?'))
    (cs : List Char) :
    (pieces quote (c :: cs)).length = (pieces (quoteAfter quote c) cs).length := by
  rw [pieces, if_neg h]
  cases hp : pieces (quoteAfter quote c) cs with
  | nil => exact absurd hp (pieces_ne_nil _ _)
  | cons p ps => rfl

theorem weave_pieces_of_not {quote : Option Char} {c : Char} (h : ¬ (quote = none ∧ c = '?'))
    (cs : List Char) (marks : List (List Char)) :
    weave (pieces quote (c :: cs)) marks = c :: weave (pieces (quoteAfter quote c) cs) marks := by
  rw [pieces, if_neg h]
  cases hp : pieces (quoteAfter quote c) cs with
  | nil => exact absurd hp (pieces_ne_nil _ _)
  | cons p ps => exact weave_cons_cons c p ps marks

theorem weave_nil_cons {ps : List (List Char)} (h : ps ≠ []) (mark : List Char)
    (marks : List (List Char)) : weave ([] :: ps) (mark :: marks) = mark ++ weave ps marks := by
  cases ps with
  | nil => exact absurd rfl h
  | cons p ps => simp [weave]

theorem length_pieces_append (quote : Option Char) (a b : List Char) :
    (pieces quote (a ++ b)).length =
      ((pieces quote a).length - 1) + (pieces (a.foldl quoteAfter quote) b).length := by
  induction a generalizing quote with
  | nil => simp [pieces]
  | cons c a ih =>
    by_cases h : quote = none ∧ c = '?'
    · obtain ⟨rfl, rfl⟩ := h
      have hpos := List.length_pos_iff.2 (pieces_ne_nil none a)
      have hafter : quoteAfter none '?' = none := rfl
      rw [List.cons_append, pieces_placeholder, pieces_placeholder, List.length_cons,
        List.length_cons, ih, List.foldl_cons, hafter]
      omega
    · rw [List.cons_append, length_pieces_of_not h, length_pieces_of_not h, ih, List.foldl_cons]

theorem weave_pieces_append (quote : Option Char) (a b : List Char) (ms ns : List (List Char))
    (hm : ms.length = (pieces quote a).length - 1) :
    weave (pieces quote (a ++ b)) (ms ++ ns) =
      weave (pieces quote a) ms ++ weave (pieces (a.foldl quoteAfter quote) b) ns := by
  induction a generalizing quote ms with
  | nil =>
    have hms : ms = [] := List.length_eq_zero_iff.1 (by simpa [pieces] using hm)
    subst hms
    rfl
  | cons c a ih =>
    by_cases h : quote = none ∧ c = '?'
    · obtain ⟨rfl, rfl⟩ := h
      have hpos := List.length_pos_iff.2 (pieces_ne_nil none a)
      rw [pieces_placeholder, List.length_cons, Nat.add_sub_cancel] at hm
      cases ms with
      | nil => simp only [List.length_nil] at hm; omega
      | cons m ms =>
        have hafter : quoteAfter none '?' = none := rfl
        rw [List.cons_append, List.cons_append, pieces_placeholder, pieces_placeholder,
          weave_nil_cons (pieces_ne_nil _ _), weave_nil_cons (pieces_ne_nil _ _), List.foldl_cons,
          hafter, List.append_assoc,
          ih none ms (by simp only [List.length_cons] at hm; omega)]
    · rw [length_pieces_of_not h] at hm
      rw [List.cons_append, weave_pieces_of_not h, weave_pieces_of_not h, List.foldl_cons,
        ih _ ms hm, List.cons_append]

/-! ## Texts without placeholders -/

/-- A text without a placeholder that leaves no quote open. -/
structure Inert (s : String) : Prop where
  closed : s.toList.foldl quoteAfter none = none
  count : countPlaceholders s.toList = 0

instance (s : String) : Decidable (Inert s) :=
  decidable_of_iff
    (s.toList.foldl quoteAfter none = none ∧ countPlaceholders s.toList = 0)
    ⟨fun h => ⟨h.1, h.2⟩, fun h => ⟨h.closed, h.count⟩⟩

theorem countPlaceholders_append {a : String} (ha : a.toList.foldl quoteAfter none = none)
    (b : String) : countPlaceholders (a ++ b).toList =
      countPlaceholders a.toList + countPlaceholders b.toList := by
  have hpos := List.length_pos_iff.2 (pieces_ne_nil none b.toList)
  unfold countPlaceholders
  rw [String.toList_append, length_pieces_append, ha]
  omega

namespace Inert

theorem append {a b : String} (ha : Inert a) (hb : Inert b) : Inert (a ++ b) := by
  refine ⟨?_, ?_⟩
  · rw [String.toList_append, List.foldl_append, ha.closed, hb.closed]
  · rw [countPlaceholders_append ha.closed, ha.count, hb.count]

/-- A text of characters that are neither quotes nor question marks. -/
theorem of_forall {s : String} (h : ∀ c ∈ s.toList, c ≠ '\x27' ∧ c ≠ '\x22' ∧ c ≠ '?') :
    Inert s := by
  have hall : ∀ cs : List Char, (∀ c ∈ cs, c ≠ '\x27' ∧ c ≠ '\x22' ∧ c ≠ '?') →
      cs.foldl quoteAfter none = none ∧ (pieces none cs).length = 1 := by
    intro cs hcs
    induction cs with
    | nil => exact ⟨rfl, rfl⟩
    | cons c cs ih =>
      obtain ⟨h1, h2, h3⟩ := hcs c (by simp)
      obtain ⟨ih1, ih2⟩ := ih fun d hd => hcs d (by simp [hd])
      have hafter : quoteAfter none c = none := by simp [quoteAfter, h1, h2]
      refine ⟨by rw [List.foldl_cons, hafter, ih1], ?_⟩
      rw [length_pieces_of_not fun hc => h3 hc.2, hafter, ih2]
  obtain ⟨hclosed, hcount⟩ := hall s.toList h
  exact ⟨hclosed, by unfold countPlaceholders; rw [hcount]⟩

theorem join {sep : String} (hsep : Inert sep) {ss : List String} (h : ∀ s ∈ ss, Inert s) :
    Inert (Text.join sep ss) := by
  induction ss with
  | nil => exact ⟨rfl, rfl⟩
  | cons s ss ih =>
    have hs := h s (by simp)
    have hss := ih fun t ht => h t (by simp [ht])
    cases ss with
    | nil => exact hs
    | cons t ss => exact (hs.append hsep).append hss

end Inert

/-- Inside quotes of its kind, an escaped text holds no placeholder and stays inside. -/
theorem escapeQuotes_quoted {quote : Char} (hopen : quoteAfter none quote = some quote)
    (cs : List Char) :
    (escapeQuotes quote cs).foldl quoteAfter (some quote) = some quote ∧
      (pieces (some quote) (escapeQuotes quote cs)).length = 1 := by
  have hclose : quoteAfter (some quote) quote = none := if_pos rfl
  have hnot : ¬ ((none : Option Char) = none ∧ quote = '?') := by
    rintro ⟨-, rfl⟩
    cases hopen
  induction cs with
  | nil => exact ⟨rfl, rfl⟩
  | cons c cs ih =>
    obtain ⟨ih1, ih2⟩ := ih
    have hsome : ¬ (some quote = none ∧ c = '?') := fun h => by cases h.1
    rw [escapeQuotes]
    split
    · refine ⟨by rw [List.foldl_cons, List.foldl_cons, hclose, hopen, ih1], ?_⟩
      rw [length_pieces_of_not (by simp), hclose, length_pieces_of_not hnot, hopen, ih2]
    · rename_i hc
      have hin : quoteAfter (some quote) c = some quote := by simp [quoteAfter, hc]
      exact ⟨by rw [List.foldl_cons, hin, ih1], by rw [length_pieces_of_not hsome, hin, ih2]⟩

/-- What stands between quotes holds no placeholder. -/
theorem inert_quoted (quote : Char) (cs : List Char) {s : String}
    (hopen : quoteAfter none quote = some quote)
    (hs : s.toList = quote :: (escapeQuotes quote cs ++ [quote])) : Inert s := by
  obtain ⟨h1, h2⟩ := escapeQuotes_quoted hopen cs
  have hclose : quoteAfter (some quote) quote = none := if_pos rfl
  have hnot : ¬ ((none : Option Char) = none ∧ quote = '?') := by
    rintro ⟨-, rfl⟩
    cases hopen
  refine ⟨?_, ?_⟩
  · rw [hs, List.foldl_cons, hopen, List.foldl_append, h1, List.foldl_cons, hclose]
    rfl
  · unfold countPlaceholders
    rw [hs, length_pieces_of_not hnot, hopen, length_pieces_append, h1, h2,
      length_pieces_of_not (by simp), hclose]
    rfl

/-- A quoted name holds no placeholder, whatever the name. -/
theorem inert_quoteName (name : String) : Inert (quoteName name) :=
  inert_quoted '\x22' name.toList rfl (by simp [quoteName])

/-- A quoted text holds no placeholder, whatever the text. -/
theorem inert_quoteText (s : String) : Inert (quoteText s) :=
  inert_quoted '\x27' s.toList rfl (by simp [quoteText])

/-! ## Texts and their arguments -/

/-- A text with one placeholder for each argument, and with their marks in place of these. -/
structure Fills (mark : Value → String) (s : String) (args : List Value) (s' : String) : Prop where
  closed : s.toList.foldl quoteAfter none = none
  count : countPlaceholders s.toList = args.length
  woven : weave (pieces none s.toList) (args.map fun v => (mark v).toList) = s'.toList

/-- The marks of an argument: one for each of its items. -/
def argumentMarks (v : Value) : String := String.ofList (marksOf (itemsOf v))

/-- A text and its expansion, in which each argument has a question mark for each item. -/
abbrev Spreads := Fills argumentMarks

variable {mark : Value → String}

/-- A text without placeholders stays as it is. -/
theorem Inert.fills {s : String} (h : Inert s) : Fills mark s [] s := by
  have hcount := h.count
  have hweave := weave_pieces none s.toList
  unfold countPlaceholders at hcount
  rw [hcount] at hweave
  exact ⟨h.closed, h.count, hweave⟩

namespace Fills

theorem append {a b a' b' : String} {us vs : List Value} (ha : Fills mark a us a')
    (hb : Fills mark b vs b') : Fills mark (a ++ b) (us ++ vs) (a' ++ b') := by
  refine ⟨?_, ?_, ?_⟩
  · rw [String.toList_append, List.foldl_append, ha.closed, hb.closed]
  · rw [countPlaceholders_append ha.closed, ha.count, hb.count, List.length_append]
  · rw [String.toList_append, List.map_append, weave_pieces_append, ha.closed, ha.woven, hb.woven,
      String.toList_append]
    rw [List.length_map, ← ha.count]
    rfl

/-- An empty text has no arguments. -/
theorem args_eq_nil {args : List Value} {s' : String} (h : Fills mark "" args s') : args = [] :=
  List.length_eq_zero_iff.1 h.count.symm

/-- A single placeholder becomes the mark of its argument. -/
theorem placeholder (v : Value) : Fills mark "?" [v] (mark v) :=
  ⟨rfl, rfl, by simp [pieces, weave]⟩

/-- A text behind another without placeholders. -/
theorem behind {a b b' : String} {vs : List Value} (hb : Fills mark b vs b') (ha : Inert a) :
    Fills mark (a ++ b) vs (a ++ b') :=
  ha.fills.append hb

/-- A text in front of another without placeholders. -/
theorem before {a a' b : String} {us : List Value} (ha : Fills mark a us a') (hb : Inert b) :
    Fills mark (a ++ b) us (a' ++ b) := by
  have hfills : Fills mark b [] b := hb.fills
  have hall := ha.append hfills
  rwa [List.append_nil] at hall

end Fills

/-- Texts, their arguments in a row, and the texts with the marks of these. -/
inductive FillsAll (mark : Value → String) : List String → List Value → List String → Prop where
  | nil : FillsAll mark [] [] []
  | cons {s s' : String} {us vs : List Value} {ss ss' : List String} : Fills mark s us s' →
    FillsAll mark ss vs ss' → FillsAll mark (s :: ss) (us ++ vs) (s' :: ss')

namespace FillsAll

variable {ss ss' ts ts' : List String} {us vs : List Value}

theorem append (h : FillsAll mark ss us ss') (h' : FillsAll mark ts vs ts') :
    FillsAll mark (ss ++ ts) (us ++ vs) (ss' ++ ts') := by
  induction h with
  | nil => exact h'
  | cons hs _ ih => rw [List.append_assoc]; exact .cons hs ih

theorem inert (h : ∀ s ∈ ss, Inert s) : FillsAll mark ss [] ss := by
  induction ss with
  | nil => exact .nil
  | cons s ss ih => exact .cons (h s (by simp)).fills (ih fun t ht => h t (by simp [ht]))

theorem map {α : Type} {text filled : α → String} {args : α → List Value} {xs : List α}
    (h : ∀ x ∈ xs, Fills mark (text x) (args x) (filled x)) :
    FillsAll mark (xs.map text) (xs.flatMap args) (xs.map filled) := by
  induction xs with
  | nil => exact .nil
  | cons x xs ih => exact .cons (h x (by simp)) (ih fun y hy => h y (by simp [hy]))

/-- Texts with a separator between them are filled one by one. -/
theorem join {sep : String} (hsep : Inert sep) (h : FillsAll mark ss vs ss') :
    Fills mark (Text.join sep ss) vs (Text.join sep ss') := by
  induction h with
  | nil => exact Inert.fills ⟨rfl, rfl⟩
  | @cons s s' us vs ss ss' hs hrest ih =>
    cases hrest with
    | nil =>
      rw [List.append_nil]
      exact hs
    | cons => exact (hs.before hsep).append ih

end FillsAll

/-! ## Expanding -/

/-- A value that is no list is its own item. -/
theorem itemsOf_eq {v : Value} (h : v.isList = false) : itemsOf v = [v] := by
  cases v with
  | list items => cases h
  | null | integer i | float f | text s | boolean b | date d | dateTime t => rfl

theorem map_argumentMarks {args : List Value} (h : args.any Value.isList = false) :
    (args.map fun v => (argumentMarks v).toList) = List.replicate args.length ['?'] := by
  induction args with
  | nil => rfl
  | cons v args ih =>
    simp only [List.any_cons, Bool.or_eq_false_iff] at h
    rw [List.map_cons, ih h.2, List.length_cons, List.replicate_succ, argumentMarks,
      String.toList_ofList, itemsOf_eq h.1]
    rfl

theorem flatMap_itemsOf {args : List Value} (h : args.any Value.isList = false) :
    args.flatMap itemsOf = args := by
  induction args with
  | nil => rfl
  | cons v args ih =>
    simp only [List.any_cons, Bool.or_eq_false_iff] at h
    rw [List.flatMap_cons, ih h.2, itemsOf_eq h.1]
    rfl

theorem expandArguments_eq {args : List Value} (h : ∀ v ∈ args, itemsOf v ≠ []) :
    expandArguments args = .ok (args.map fun v => ((argumentMarks v).toList, itemsOf v)) := by
  induction args with
  | nil => rfl
  | cons v args ih =>
    have hv : (itemsOf v).isEmpty = false := by simpa using h v (by simp)
    rw [expandArguments, hv, ih fun w hw => h w (by simp [hw]), List.map_cons, argumentMarks,
      String.toList_ofList]
    rfl

theorem itemsOf_ne_nil_of_expandArguments {args : List Value} {r : List (List Char × List Value)}
    (h : expandArguments args = .ok r) : ∀ v ∈ args, itemsOf v ≠ [] := by
  induction args generalizing r with
  | nil => exact fun v hv => absurd hv List.not_mem_nil
  | cons v args ih =>
    rw [expandArguments] at h
    split at h
    · cases h
    rename_i hv
    cases hrest : expandArguments args with
    | error e =>
      rw [hrest] at h
      cases h
    | ok rest => exact List.forall_mem_cons.2 ⟨by simpa using hv, ih hrest⟩

theorem expand_eq {sql : String} {args : List Value}
    (hcount : countPlaceholders sql.toList = args.length) (hne : ∀ v ∈ args, itemsOf v ≠ []) :
    expand sql args =
      .ok (String.ofList (weave (pieces none sql.toList)
        (args.map fun v => (argumentMarks v).toList)), args.flatMap itemsOf) := by
  unfold countPlaceholders at hcount
  unfold expand
  simp only [hcount, ne_eq, not_true_eq_false, if_false]
  by_cases hl : args.any Value.isList = true
  · simp only [hl, Bool.not_true, Bool.false_eq_true, if_false, expandArguments_eq hne]
    simp only [bind, Except.bind, pure, Except.pure, List.map_map, List.flatMap_map]
    rfl
  · have hl' : args.any Value.isList = false := by simpa using hl
    rw [map_argumentMarks hl', ← hcount, weave_pieces, String.ofList_toList, flatMap_itemsOf hl']
    simp only [hl', Bool.not_false, if_true]

/-- What can be expanded has one argument for each placeholder, and each argument has items. -/
theorem of_expand_eq_ok {sql : String} {args : List Value} {r : String × List Value}
    (h : expand sql args = .ok r) :
    countPlaceholders sql.toList = args.length ∧ ∀ v ∈ args, itemsOf v ≠ [] := by
  unfold expand at h
  dsimp only at h
  split at h
  · cases h
  rename_i hcount
  refine ⟨Decidable.not_not.1 hcount, ?_⟩
  split at h
  · rename_i hl
    have hscalar : ∀ v ∈ args, v.isList = false := by simpa using hl
    intro v hv
    rw [itemsOf_eq (hscalar v hv)]
    exact List.cons_ne_nil _ _
  · cases hspread : expandArguments args with
    | error e =>
      rw [hspread] at h
      cases h
    | ok spread => exact itemsOf_ne_nil_of_expandArguments hspread

theorem Fills.expand_eq {s s' : String} {args : List Value} (h : Spreads s args s')
    (hne : ∀ v ∈ args, itemsOf v ≠ []) : expand s args = .ok (s', args.flatMap itemsOf) := by
  rw [Sql.expand_eq h.count hne, h.woven, String.ofList_toList]

/-! ## Numbering -/

/-- The numbers of placeholders are counted from one, in decimal digits. -/
theorem numbers_from_one (count : Nat) :
    numbers count 1 = (List.range count).map fun k => '$' :: Nat.toDigits 10 (k + 1) := by
  rw [numbers, List.range'_eq_map_range, List.map_map]
  refine List.map_congr_left fun k _ => ?_
  rw [Function.comp_apply, Nat.toString_eq_repr, Nat.toList_repr, Nat.add_comm]

/-! ## Pieces of SQL -/

/-- A piece of SQL that can be put into a statement. -/
structure Fragment.Composable (f : Fragment) : Prop where
  spreads : ∃ s, Spreads f.sql f.args s
  items : ∀ v ∈ f.args, itemsOf v ≠ []

/-- A piece of SQL with a mark for each item of its arguments. -/
def Fragment.spread (f : Fragment) : Fragment :=
  ⟨String.ofList (weave (pieces none f.sql.toList) (f.args.map fun v => (argumentMarks v).toList)),
    f.args.flatMap itemsOf⟩

theorem Fragment.Composable.spreads_spread {f : Fragment} (h : f.Composable) :
    Spreads f.sql f.args f.spread.sql := by
  obtain ⟨s, hs⟩ := h.spreads
  exact ⟨hs.closed, hs.count, by rw [Fragment.spread, String.toList_ofList]⟩

theorem Fragment.Composable.expand_eq {f : Fragment} (h : f.Composable) :
    expand f.sql f.args = .ok (f.spread.sql, f.spread.args) :=
  h.spreads_spread.expand_eq h.items

end RecordModel.Sql
