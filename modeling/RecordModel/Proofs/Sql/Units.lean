import RecordModel.Proofs.Query.Operation

/-!
# Statements of different dialects

Two dialects write the same statement with another keyword for matching without regard to
case, and with another tail for a limit and an offset. `common` is what is left of a text when
ILIKE is read as LIKE and such tails are taken away. It looks at the text alone: the text is cut
into words outside of quotes and single characters (`units`), a unit that is the keyword is
replaced, and from the end to the beginning each LIMIT or OFFSET with its number is dropped.

Texts are compared in place. `SameReading a b` says that neither leaves a quote open, and that
with any text behind them they leave the same, so that texts which are put together can be
compared piece by piece.

Results:
* `units_flatten`: cutting loses nothing.
* `units_append`: a text is cut piece by piece where no word is cut in two.
* `common_eq_self`: nothing but the three words changes a text.
* `SameReading.common_eq`: texts of the same reading have the same common text.
* `SameReading.append`, `SameReading.join`: texts that are put together.
* `sameReading_withTail`: a limited statement reads as the statement without its limit.
-/
namespace RecordModel.Sql

open RecordModel.Text RecordModel.Number

/-! ## Cutting a text -/

/-- A character in front of the units behind it; outside of quotes it may belong to their first
word. -/
def attach (quote : Option Char) (c : Char) : List (List Char) → List (List Char)
  | [] => [[c]]
  | [] :: us => [c] :: us
  | (d :: w) :: us =>
    if quote = none ∧ isNameChar c ∧ isNameChar d then (c :: d :: w) :: us
    else [c] :: (d :: w) :: us

/-- The words outside of quotes, and all other characters one by one, of a text that starts
inside the given quote. -/
def units (quote : Option Char) : List Char → List (List Char)
  | [] => []
  | c :: rest => attach quote c (units (quoteAfter quote c) rest)

theorem flatten_attach (quote : Option Char) (c : Char) (us : List (List Char)) :
    (attach quote c us).flatten = c :: us.flatten := by
  unfold attach
  split
  · rfl
  · rfl
  · split <;> rfl

theorem units_flatten (quote : Option Char) (cs : List Char) : (units quote cs).flatten = cs := by
  induction cs generalizing quote with
  | nil => rfl
  | cons c cs ih => rw [units, flatten_attach, ih]

/-- The units of a text begin with its first character. -/
theorem units_head (quote : Option Char) (c : Char) (cs : List Char) :
    ∃ w us, units quote (c :: cs) = (c :: w) :: us := by
  rw [units]
  unfold attach
  split
  · exact ⟨_, _, rfl⟩
  · exact ⟨_, _, rfl⟩
  · split <;> exact ⟨_, _, rfl⟩

/-- Characters that may not belong to one word. -/
def Apart (as bs : List Char) : Prop :=
  (∀ c ∈ as.getLast?, isNameChar c = false) ∨ ∀ d ∈ bs.head?, isNameChar d = false

theorem units_append {as bs : List Char} (quote : Option Char) (h : Apart as bs) :
    units quote (as ++ bs) = units quote as ++ units (as.foldl quoteAfter quote) bs := by
  induction as generalizing quote with
  | nil => rfl
  | cons c as ih =>
    rw [List.cons_append, units, units, List.foldl_cons]
    cases as with
    | nil =>
      cases bs with
      | nil => rfl
      | cons d bs =>
        obtain ⟨w, us, hunits⟩ := units_head (quoteAfter quote c) d bs
        have hno : ¬ (quote = none ∧ isNameChar c ∧ isNameChar d) := by
          rintro ⟨-, hc, hd⟩
          rcases h with h | h
          · rw [h c rfl] at hc
            cases hc
          · rw [h d rfl] at hd
            cases hd
        rw [List.nil_append, List.foldl_nil, hunits, attach, if_neg hno]
        rfl
    | cons d as =>
      have htail : Apart (d :: as) bs := h.imp_left fun h' e he => h' e (by simpa using he)
      obtain ⟨w, us, hunits⟩ := units_head (quoteAfter quote c) d as
      rw [ih _ htail, hunits, List.cons_append, attach, attach]
      split <;> rfl

theorem Back.not_name {cs : List Char} (h : Back cs) : ∀ c ∈ cs.getLast?, isNameChar c = false := by
  obtain ⟨c, hc, hapart⟩ := h
  intro d hd
  cases hc.symm.trans hd
  simp only [isApart, Bool.and_eq_true, Bool.not_eq_true'] at hapart
  exact hapart.2

theorem Front.not_name {cs : List Char} (h : Front cs) : ∀ c ∈ cs.head?, isNameChar c = false := by
  intro c hc
  have hapart := h c hc
  simp only [isApart, Bool.and_eq_true, Bool.not_eq_true'] at hapart
  exact hapart.2

theorem units_word {cs : List Char} (hne : cs ≠ []) (h : ∀ c ∈ cs, isNameChar c = true) :
    units none cs = [cs] := by
  induction cs with
  | nil => exact absurd rfl hne
  | cons c cs ih =>
    have hc := h c List.mem_cons_self
    have hquote : quoteAfter none c = none := by
      obtain ⟨h1, h2, -⟩ := ne_of_isNameChar hc
      simp [quoteAfter, h1, h2]
    rw [units, hquote]
    cases cs with
    | nil => rfl
    | cons d cs =>
      have hd := h d (by simp)
      rw [ih (by simp) fun e he => h e (List.mem_cons_of_mem _ he), attach, if_pos ⟨rfl, hc, hd⟩]

/-! ## What dialects have in common -/

/-- ILIKE is read as LIKE. -/
def readKeyword (u : List Char) : List Char := if u = "ILIKE".toList then "LIKE".toList else u

/-- The units of a text outside of quotes, with one keyword for matching. -/
def readUnits (cs : List Char) : List (List Char) := (units none cs).map readKeyword

/-- The units behind a number, which may have a sign. -/
def behindNumber : List (List Char) → Option (List (List Char))
  | ['-'] :: n :: us | n :: us => if n.all Char.isDigit then some us else none
  | [] => none

/-- The units behind a blank and a limit or an offset, if there is one in front. -/
def behindLimit : List (List Char) → Option (List (List Char))
  | [' '] :: word :: [' '] :: us =>
    if word = "LIMIT".toList ∨ word = "OFFSET".toList then behindNumber us else none
  | _ => none

/-- A unit in front of others, without a limit or an offset that it begins. -/
def place (u : List Char) (us : List (List Char)) : List (List Char) :=
  (behindLimit (u :: us)).getD (u :: us)

/-- What is left of a text, whatever the dialect: ILIKE is read as LIKE, and limits and offsets
are dropped. -/
def common (s : String) : String :=
  String.ofList ((readUnits s.toList).foldr place []).flatten

theorem readUnits_append {a b : String} (ha : a.toList.foldl quoteAfter none = none)
    (h : Apart a.toList b.toList) :
    readUnits (a ++ b).toList = readUnits a.toList ++ readUnits b.toList := by
  rw [readUnits, String.toList_append, units_append none h, ha, List.map_append]
  rfl

theorem place_of_ne {u : List Char} (h : u ≠ [' ']) (us : List (List Char)) :
    place u us = u :: us := by
  unfold place behindLimit
  split
  · rename_i hu
    exact absurd (List.cons.inj hu).1 h
  · rfl

/-- A blank stays where no limit and no offset follows. -/
theorem place_blank {word : List Char} (hlimit : word ≠ "LIMIT".toList)
    (hoffset : word ≠ "OFFSET".toList) (us : List (List Char)) :
    place [' '] (word :: us) = [' '] :: word :: us := by
  have hword : ¬ (word = "LIMIT".toList ∨ word = "OFFSET".toList) := not_or.2 ⟨hlimit, hoffset⟩
  rw [place, behindLimit.eq_def]
  split
  · rename_i hu
    obtain ⟨rfl, -⟩ := List.cons.inj (List.cons.inj hu).2
    rw [if_neg hword]
    rfl
  · rfl

/-- A text without these words is left as it is. -/
theorem common_eq_self {s : String} (h : ∀ u ∈ units none s.toList,
    u ≠ "ILIKE".toList ∧ u ≠ "LIMIT".toList ∧ u ≠ "OFFSET".toList) : common s = s := by
  have hread : readUnits s.toList = units none s.toList := by
    rw [readUnits]
    conv_rhs => rw [← List.map_id (units none s.toList)]
    refine List.map_congr_left fun u hu => ?_
    rw [readKeyword, if_neg (h u hu).1, id]
  have hplace : ∀ us : List (List Char), (∀ u ∈ us, u ≠ "LIMIT".toList ∧ u ≠ "OFFSET".toList) →
      us.foldr place [] = us := by
    intro us hus
    induction us with
    | nil => rfl
    | cons u us ih =>
      rw [List.foldr_cons, ih fun v hv => hus v (List.mem_cons_of_mem u hv)]
      by_cases hu : u = [' ']
      · subst hu
        cases us with
        | nil => rfl
        | cons v us =>
          obtain ⟨hlimit, hoffset⟩ := hus v (by simp)
          exact place_blank hlimit hoffset us
      · exact place_of_ne hu us
  rw [common, hread, hplace _ fun u hu => (h u hu).2, units_flatten, String.ofList_toList]

/-! ## Texts of the same reading -/

/-- Neither text leaves a quote open, and with any text behind them they leave the same. -/
structure SameReading (a b : String) : Prop where
  left : a.toList.foldl quoteAfter none = none
  right : b.toList.foldl quoteAfter none = none
  read : ∀ us, (readUnits a.toList).foldr place us = (readUnits b.toList).foldr place us

namespace SameReading

variable {a b a' b' : String}

theorem common_eq (h : SameReading a b) : common a = common b := by
  rw [common, common, h.read]

theorem refl (h : a.toList.foldl quoteAfter none = none) : SameReading a a := ⟨h, h, fun _ => rfl⟩

theorem symm (h : SameReading a b) : SameReading b a :=
  ⟨h.right, h.left, fun us => (h.read us).symm⟩

theorem trans {c : String} (h : SameReading a b) (h' : SameReading b c) : SameReading a c :=
  ⟨h.left, h'.right, fun us => (h.read us).trans (h'.read us)⟩

theorem of_readUnits (ha : a.toList.foldl quoteAfter none = none)
    (hb : b.toList.foldl quoteAfter none = none)
    (h : readUnits a.toList = readUnits b.toList) : SameReading a b :=
  ⟨ha, hb, fun us => by rw [h]⟩

theorem append (h : SameReading a b) (h' : SameReading a' b') (ha : Apart a.toList a'.toList)
    (hb : Apart b.toList b'.toList) : SameReading (a ++ a') (b ++ b') := by
  refine ⟨?_, ?_, fun us => ?_⟩
  · rw [String.toList_append, List.foldl_append, h.left, h'.left]
  · rw [String.toList_append, List.foldl_append, h.right, h'.right]
  · rw [readUnits_append h.left ha, readUnits_append h.right hb, List.foldr_append,
      List.foldr_append, h'.read, h.read]

/-- Behind a text that ends with a blank or a mark. -/
theorem behind (h : SameReading a b) {front : String}
    (hfront : front.toList.foldl quoteAfter none = none) (hback : Back front.toList) :
    SameReading (front ++ a) (front ++ b) :=
  (refl hfront).append h (.inl hback.not_name) (.inl hback.not_name)

/-- In front of a text that starts with a blank or a mark. -/
theorem before (h : SameReading a b) {back : String}
    (hback : back.toList.foldl quoteAfter none = none) (hfront : Front back.toList) :
    SameReading (a ++ back) (b ++ back) :=
  h.append (refl hback) (.inr hfront.not_name) (.inr hfront.not_name)

theorem join {sep : String} (hsep : sep.toList.foldl quoteAfter none = none)
    (hfront : Front sep.toList) (hback : Back sep.toList) {ss ts : List String}
    (h : List.Forall₂ SameReading ss ts) : SameReading (join sep ss) (join sep ts) := by
  induction h with
  | nil => exact refl rfl
  | @cons s t ss ts hst hrest ih =>
    cases hrest with
    | nil => exact hst
    | @cons s' t' ss ts hst' hrest =>
      exact (hst.before hsep hfront).append ih (.inl (back_append hback s).not_name)
        (.inl (back_append hback t).not_name)

end SameReading

/-! ## Limits and offsets -/

theorem place_limit {word : List Char} (hword : word = "LIMIT".toList ∨ word = "OFFSET".toList)
    {n : List Char} (hn : n.all Char.isDigit) (us : List (List Char)) :
    place [' '] (word :: [' '] :: n :: us) = us := by
  rw [place, behindLimit, if_pos hword, behindNumber.eq_def]
  split
  · rename_i hu
    obtain ⟨rfl, -⟩ := List.cons.inj hu
    cases hn
  · rename_i hu
    obtain ⟨rfl, rfl⟩ := List.cons.inj hu
    rw [if_pos hn]
    rfl
  · rename_i hu
    cases hu

theorem place_signedLimit {word : List Char}
    (hword : word = "LIMIT".toList ∨ word = "OFFSET".toList) {n : List Char}
    (hn : n.all Char.isDigit) (us : List (List Char)) :
    place [' '] (word :: [' '] :: ['-'] :: n :: us) = us := by
  rw [place, behindLimit, if_pos hword, behindNumber, if_pos hn]
  rfl

theorem readUnits_natText (n : Nat) : readUnits (natText n).toList = [(natText n).toList] := by
  have hword : (natText n).toList ≠ "ILIKE".toList := by
    intro h
    have hdigit : 'I' ∈ (natText n).toList := by rw [h]; decide
    exact absurd (isDigit_of_mem_natText hdigit) (by decide)
  have hchars := fun c (hc : c ∈ (natText n).toList) =>
    isNameChar_of_isDigit (isDigit_of_mem_natText hc)
  rw [readUnits, units_word (natText_ne_nil n) hchars, List.map_singleton, readKeyword,
    if_neg hword]

/-- The text of a limit or an offset, with a number behind its word. -/
theorem readUnits_limit {word : String} (hword : word = "LIMIT" ∨ word = "OFFSET") (n : Nat) :
    readUnits (" " ++ (word ++ " " ++ natText n)).toList =
      [[' '], word.toList, [' '], (natText n).toList] := by
  have hclosed : (" " ++ (word ++ " ")).toList.foldl quoteAfter none = none := by
    rcases hword with rfl | rfl <;> rfl
  have hread : readUnits (" " ++ (word ++ " ")).toList = [[' '], word.toList, [' ']] := by
    rcases hword with rfl | rfl <;> rfl
  have hback := back_append (back_append (by decide : Back " ".toList) word) " "
  rw [← String.append_assoc, readUnits_append hclosed (.inl hback.not_name), hread,
    readUnits_natText]
  rfl

/-- A text that leaves nothing behind a blank, whatever follows. -/
structure Drops (s : String) : Prop where
  closed : (" " ++ s).toList.foldl quoteAfter none = none
  read : ∀ us, (readUnits (" " ++ s).toList).foldr place us = us

theorem drops_limit {word : String} (hword : word = "LIMIT" ∨ word = "OFFSET") (n : Nat) :
    Drops (word ++ " " ++ natText n) := by
  have hdigits : (natText n).toList.all Char.isDigit = true := List.all_eq_true.2 (digits_natText n)
  have hother {w : List Char} (hw : w.all Char.isDigit = false) : (natText n).toList ≠ w := by
    rintro rfl
    rw [hdigits] at hw
    cases hw
  have hwords : word.toList = "LIMIT".toList ∨ word.toList = "OFFSET".toList :=
    hword.imp (congrArg String.toList) (congrArg String.toList)
  refine ⟨?_, fun us => ?_⟩
  · have hfront : (" " ++ (word ++ " ")).toList.foldl quoteAfter none = none := by
      rcases hword with rfl | rfl <;> rfl
    rw [← String.append_assoc, String.toList_append, List.foldl_append, hfront,
      (lexes_natText n).closed]
  · have hblank : word.toList ≠ [' '] := by rcases hword with rfl | rfl <;> decide
    rw [readUnits_limit hword]
    simp only [List.foldr_cons, List.foldr_nil]
    rw [place_of_ne (hother rfl), place_blank (hother rfl) (hother rfl), place_of_ne hblank,
      place_limit hwords hdigits]

theorem drops_noLimit : Drops "LIMIT -1" := by
  refine ⟨rfl, fun us => ?_⟩
  have hread : readUnits (" " ++ "LIMIT -1").toList =
      [[' '], "LIMIT".toList, [' '], ['-'], ['1']] := rfl
  have hone : place ['1'] us = ['1'] :: us := place_of_ne (by decide) us
  have hsign (vs : List (List Char)) : place ['-'] vs = ['-'] :: vs := place_of_ne (by decide) vs
  have hlimit (vs : List (List Char)) : place "LIMIT".toList vs = "LIMIT".toList :: vs :=
    place_of_ne (by decide) vs
  rw [hread]
  simp only [List.foldr_cons, List.foldr_nil, hone, hsign]
  rw [place_blank (by decide) (by decide), hlimit, place_signedLimit (.inl rfl) rfl]

theorem Drops.sameReading {s a : String} (h : Drops s)
    (ha : a.toList.foldl quoteAfter none = none) : SameReading (a ++ (" " ++ s)) a := by
  have hblank : Apart a.toList (" " ++ s).toList := by
    refine .inr fun c hc => ?_
    rw [String.toList_append] at hc
    cases hc
    rfl
  refine ⟨?_, ha, fun us => ?_⟩
  · rw [String.toList_append, List.foldl_append, ha, h.closed]
  · rw [readUnits_append ha hblank, List.foldr_append, h.read]

/-- Several of them, with blanks between them. -/
theorem Drops.sameReading_join {ss : List String} (h : ∀ s ∈ ss, Drops s) {a : String}
    (ha : a.toList.foldl quoteAfter none = none) (hne : ss ≠ []) :
    SameReading (a ++ (" " ++ join " " ss)) a := by
  induction ss generalizing a with
  | nil => exact absurd rfl hne
  | cons s ss ih =>
    have hs := (h s List.mem_cons_self).sameReading ha
    cases ss with
    | nil => exact hs
    | cons t ss =>
      have hrest := ih (fun u hu => h u (List.mem_cons_of_mem _ hu)) hs.left (by simp)
      have hjoin : a ++ (" " ++ join " " (s :: t :: ss)) =
          a ++ (" " ++ s) ++ (" " ++ join " " (t :: ss)) := by
        simp only [join, String.append_assoc]
      rw [hjoin]
      exact hrest.trans hs

/-- The tail of a limited query is dropped. -/
theorem drops_limitOffset (d : Dialect) (limit offset : Nat) :
    ∃ ss, d.limitOffsetSql limit offset = join " " ss ∧ ∀ s ∈ ss, Drops s := by
  obtain ⟨ss, htext, hss⟩ := limitOffsetSql_eq d limit offset
  refine ⟨ss, htext, fun s hs => ?_⟩
  have hlimit : "LIMIT" ++ " " = "LIMIT " := by decide
  have hoffset : "OFFSET" ++ " " = "OFFSET " := by decide
  rcases hss s hs with rfl | rfl | rfl
  · exact drops_noLimit
  · rw [← hlimit]
    exact drops_limit (.inl rfl) limit
  · rw [← hoffset]
    exact drops_limit (.inr rfl) offset

/-- A limited statement reads as the statement without its limit. -/
theorem sameReading_withTail {a : String} (ha : a.toList.foldl quoteAfter none = none)
    (d : Dialect) (limit offset : Nat) :
    SameReading (withClause a (d.limitOffsetSql limit offset)) a := by
  obtain ⟨ss, htext, hdrops⟩ := drops_limitOffset d limit offset
  unfold withClause
  split
  · exact .refl ha
  · rename_i hne
    have hss : ss ≠ [] := by
      rintro rfl
      exact hne (by rw [htext]; rfl)
    rw [String.append_assoc, htext]
    exact Drops.sameReading_join hdrops ha hss

end RecordModel.Sql
