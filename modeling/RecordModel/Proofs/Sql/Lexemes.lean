import Mathlib.Data.List.Forall2
import RecordModel.Proofs.Catalog.Reachable
import RecordModel.Proofs.Number.Digits
import RecordModel.Proofs.Sql.Expansion
import RecordModel.Text.Blank

/-!
# Lexemes of SQL

A database cuts the text of a statement into words, names between double quotes, texts between
single quotes, and marks, which are all other characters but blanks. A quote that is written
twice inside quotes stands for itself. `Lexes s ls` says that a text leaves no quote open and is
cut into the lexemes `ls`. It is kept by putting texts one behind the other, if one of the two
has a blank or a mark where they meet.

Results:
* `lexemesOf_append`: texts are cut piece by piece.
* `Lexes.append`, `Lexes.join`: so are texts that are put together.
* `lexes_quoteName`, `lexes_quoteText`: what is quoted is read back, whatever it holds.
-/
namespace RecordModel.Sql

open RecordModel.Text RecordModel.Number

inductive Lexeme where
  /-- A name between double quotes. -/
  | name (s : String)
  /-- A text between single quotes. -/
  | text (s : String)
  | word (s : String)
  | mark (c : Char)
  deriving DecidableEq

/-! ## Cutting a text -/

/-- A quote of either kind. -/
def isQuote (c : Char) : Bool := c == '\x27' || c == '\x22'

/-- What stands between two quotes. -/
def quotedLexeme (quote : Char) (cs : List Char) : Lexeme :=
  if quote = '\x22' then .name (String.ofList cs) else .text (String.ofList cs)

/-- Lexemes behind the characters of a word; no characters make no word. -/
def flush : List Char × List Lexeme → List Lexeme
  | ([], ls) => ls
  | (cs, ls) => .word (String.ofList cs) :: ls

/-- A character in front of a word or quoted text. -/
def push (c : Char) (p : List Char × List Lexeme) : List Char × List Lexeme := (c :: p.1, p.2)

/-- Cut a text that starts inside the given quote: the rest of the word or of the quoted text
at its beginning, and the lexemes behind it. -/
def cut : Option Char → List Char → List Char × List Lexeme
  | _, [] => ([], [])
  | none, c :: rest =>
    if isQuote c then ([], quotedLexeme c (cut (some c) rest).1 :: (cut (some c) rest).2)
    else if isNameChar c then push c (cut none rest)
    else if isAsciiBlank c then ([], flush (cut none rest))
    else ([], .mark c :: flush (cut none rest))
  | some quote, [c] => if c = quote then ([], []) else ([c], [])
  | some quote, c :: d :: rest =>
    if c = quote then
      if d = quote then push quote (cut (some quote) rest) else ([], flush (cut none (d :: rest)))
    else push c (cut (some quote) (d :: rest))

def lexemesOf (cs : List Char) : List Lexeme := flush (cut none cs)

/-- The lexemes of a text. -/
def lexemes (s : String) : List Lexeme := lexemesOf s.toList

/-! ## Where texts may meet -/

/-- A blank or a mark. -/
def isApart (c : Char) : Bool := !isQuote c && !isNameChar c

/-- Nothing, or a blank or mark first. -/
def Front (cs : List Char) : Prop := ∀ c ∈ cs.head?, isApart c = true

/-- A blank or mark at the end. -/
def Back (cs : List Char) : Prop := ∃ c ∈ cs.getLast?, isApart c = true

-- Decided on the list: characters are finite, and the instance for a quantifier over all of them
-- would try each one.
instance (cs : List Char) : Decidable (Front cs) :=
  decidable_of_iff (cs.head?.all isApart = true) (Option.all_eq_true isApart cs.head?)

instance (cs : List Char) : Decidable (Back cs) :=
  decidable_of_iff (cs.getLast?.any isApart = true) (Option.any_eq_true isApart cs.getLast?)

theorem cut_apart {c : Char} (h : isApart c = true) (cs : List Char) :
    cut none (c :: cs) = ([], lexemesOf [c] ++ lexemesOf cs) := by
  simp only [isApart, Bool.and_eq_true, Bool.not_eq_true'] at h
  by_cases hblank : isAsciiBlank c = true <;> simp [cut, lexemesOf, flush, h, hblank]

theorem cut_front {cs : List Char} (h : Front cs) : cut none cs = ([], lexemesOf cs) := by
  cases cs with
  | nil => rfl
  | cons c cs =>
    have hcut := cut_apart (h c rfl) cs
    rw [lexemesOf, hcut]
    rfl

theorem flush_append (cs : List Char) (ls ms : List Lexeme) :
    flush (cs, ls ++ ms) = flush (cs, ls) ++ ms := by
  cases cs <;> rfl

theorem quoteAfter_none {c : Char} (h : ¬ isQuote c = true) : quoteAfter none c = none := by
  simpa [quoteAfter, isQuote] using h

theorem quoteAfter_open {c : Char} (h : isQuote c = true) : quoteAfter none c = some c :=
  if_pos (by simpa [isQuote] using h)

theorem quoteAfter_close (quote : Char) : quoteAfter (some quote) quote = none := if_pos rfl

theorem quoteAfter_inside {c quote : Char} (h : c ≠ quote) :
    quoteAfter (some quote) c = some quote := if_neg h

theorem isQuote_of_foldl {quote : Option Char} (h : ∀ q ∈ quote, isQuote q = true)
    (cs : List Char) : ∀ q ∈ cs.foldl quoteAfter quote, isQuote q = true := by
  induction cs generalizing quote with
  | nil => exact h
  | cons c cs ih =>
    refine ih fun q hq => ?_
    cases quote with
    | none =>
      by_cases hc : isQuote c = true
      · rw [quoteAfter_open hc] at hq
        cases hq
        exact hc
      · rw [quoteAfter_none hc] at hq
        cases hq
    | some p =>
      by_cases hc : c = p
      · rw [hc, quoteAfter_close] at hq
        cases hq
      · rw [quoteAfter_inside hc] at hq
        cases hq
        exact h _ rfl

/-- A closing quote that is not doubled. -/
theorem cut_close {d quote : Char} (h : d ≠ quote) (rest : List Char) :
    cut (some quote) (quote :: d :: rest) = ([], lexemesOf (d :: rest)) := by
  rw [cut, if_pos rfl, if_neg h]
  rfl

theorem Front.not_quote {d quote : Char} {cs : List Char} (h : Front (d :: cs))
    (hq : isQuote quote = true) : d ≠ quote := by
  rintro rfl
  have hd := h d rfl
  rw [isApart, hq] at hd
  cases hd

/-- A text is cut up to where it ends outside quotes, if what follows does not go on with
its last word and does not double its last quote. -/
theorem cut_append {quote : Option Char} {as bs : List Char}
    (hq : ∀ q ∈ quote, isQuote q = true) (ha : as.foldl quoteAfter quote = none)
    (hb : Front bs) :
    cut quote (as ++ bs) = ((cut quote as).1, (cut quote as).2 ++ lexemesOf bs) := by
  have hnone : ∀ q ∈ (none : Option Char), isQuote q = true := by simp
  induction quote, as using cut.induct with
  | case1 quote =>
    cases quote with
    | none => exact cut_front hb
    | some q => cases ha
  | case2 c rest hc ih =>
    rw [List.foldl_cons, quoteAfter_open hc] at ha
    simp [cut, hc, ih (by simpa using hc) ha]
  | case3 c rest hc hn ih =>
    rw [List.foldl_cons, quoteAfter_none hc] at ha
    simp [cut, hc, hn, push, ih hnone ha]
  | case4 c rest hc hn hs ih =>
    rw [List.foldl_cons, quoteAfter_none hc] at ha
    simp [cut, hc, hn, hs, ih hnone ha, flush_append]
  | case5 c rest hc hn hs ih =>
    rw [List.foldl_cons, quoteAfter_none hc] at ha
    simp [cut, hc, hn, hs, ih hnone ha, flush_append]
  | case6 q =>
    -- the text ends with its closing quote
    cases bs with
    | nil => simp [cut, lexemesOf, flush]
    | cons d bs =>
      have hlast : cut (some q) [q] = ([], []) := by simp [cut]
      rw [List.singleton_append, cut_close (hb.not_quote (hq q rfl)), hlast]
      rfl
  | case7 q c hc =>
    rw [List.foldl_cons, quoteAfter_inside hc] at ha
    cases ha
  | case8 q rest ih =>
    have hquote := hq q rfl
    rw [List.foldl_cons, List.foldl_cons, quoteAfter_close, quoteAfter_open hquote] at ha
    simp [cut, push, ih hq ha]
  | case9 q d rest hd ih =>
    rw [List.foldl_cons, quoteAfter_close] at ha
    have hrest := ih hnone ha
    rw [List.cons_append] at hrest
    rw [List.cons_append, List.cons_append, cut_close hd, cut_close hd, lexemesOf, hrest,
      flush_append]
    rfl
  | case10 q c d rest hc ih =>
    rw [List.foldl_cons, quoteAfter_inside hc] at ha
    have hrest := ih hq ha
    rw [List.cons_append] at hrest
    simp [cut, hc, push, hrest]

/-- Texts are cut piece by piece, if the first leaves no quote open and one of the two has a
blank or a mark where they meet. -/
theorem lexemesOf_append {as bs : List Char} (ha : as.foldl quoteAfter none = none)
    (h : Back as ∨ Front bs) : lexemesOf (as ++ bs) = lexemesOf as ++ lexemesOf bs := by
  have hfront {cs ds : List Char} (hc : cs.foldl quoteAfter none = none) (hd : Front ds) :
      lexemesOf (cs ++ ds) = lexemesOf cs ++ lexemesOf ds := by
    rw [lexemesOf, cut_append (by simp) hc hd, flush_append]
    rfl
  rcases h with ⟨c, hc, hapart⟩ | hb
  · obtain ⟨cs, rfl⟩ := List.getLast?_eq_some_iff.1 hc
    have hnot : ¬ isQuote c = true := by
      intro hquote
      rw [isApart, hquote] at hapart
      cases hapart
    have hcs : cs.foldl quoteAfter none = none := by
      cases hquote : cs.foldl quoteAfter none with
      | none => rfl
      | some q =>
        rw [List.foldl_append, hquote] at ha
        have hcq : c ≠ q := fun he => hnot (he ▸ isQuote_of_foldl (by simp) cs q hquote)
        rw [List.foldl_cons, quoteAfter_inside hcq] at ha
        cases ha
    have hmark (ds : List Char) : Front (c :: ds) := by
      intro d hd
      cases hd
      exact hapart
    have hcons : lexemesOf (c :: bs) = lexemesOf [c] ++ lexemesOf bs := by
      rw [lexemesOf, cut_apart hapart]
      rfl
    rw [List.append_assoc, List.singleton_append, hfront hcs (hmark bs), hfront hcs (hmark []),
      hcons, List.append_assoc]
  · exact hfront ha hb

/-- The characters of a lexeme, without quotes. -/
def Lexeme.chars : Lexeme → List Char
  | name s | text s | word s => s.toList
  | mark c => [c]

theorem chars_flush {p : List Char × List Lexeme} {P : Char → Prop} (hword : ∀ c ∈ p.1, P c)
    (hrest : ∀ l ∈ p.2, ∀ c ∈ l.chars, P c) : ∀ l ∈ flush p, ∀ c ∈ l.chars, P c := by
  obtain ⟨cs, ls⟩ := p
  cases cs with
  | nil => exact hrest
  | cons => exact List.forall_mem_cons.2 ⟨by simpa [Lexeme.chars] using hword, hrest⟩

theorem chars_quotedLexeme (quote : Char) (cs : List Char) :
    (quotedLexeme quote cs).chars = cs := by
  unfold quotedLexeme
  split <;> exact String.toList_ofList

theorem chars_cut (quote : Option Char) (cs : List Char) :
    (∀ c ∈ (cut quote cs).1, c ∈ cs) ∧ ∀ l ∈ (cut quote cs).2, ∀ c ∈ l.chars, c ∈ cs := by
  have hbehind {as bs : List Char} {p : List Char × List Lexeme} (hsub : bs ⊆ as)
      (h : (∀ c ∈ p.1, c ∈ bs) ∧ ∀ l ∈ p.2, ∀ c ∈ l.chars, c ∈ bs) :
      (∀ c ∈ p.1, c ∈ as) ∧ ∀ l ∈ p.2, ∀ c ∈ l.chars, c ∈ as :=
    ⟨fun c hc => hsub (h.1 c hc), fun l hl c hc => hsub (h.2 l hl c hc)⟩
  induction quote, cs using cut.induct with
  | case1 quote => cases quote <;> simp [cut]
  | case2 d rest hd ih =>
    have hrest := hbehind (List.subset_cons_self d rest) ih
    rw [cut, if_pos hd]
    exact ⟨by simp, List.forall_mem_cons.2 ⟨by rw [chars_quotedLexeme]; exact hrest.1, hrest.2⟩⟩
  | case3 d rest hd hn ih =>
    have hrest := hbehind (List.subset_cons_self d rest) ih
    rw [cut, if_neg hd, if_pos hn]
    exact ⟨List.forall_mem_cons.2 ⟨List.mem_cons_self, hrest.1⟩, hrest.2⟩
  | case4 d rest hd hn hs ih =>
    have hrest := hbehind (List.subset_cons_self d rest) ih
    rw [cut, if_neg hd, if_neg hn, if_pos hs]
    exact ⟨by simp, chars_flush hrest.1 hrest.2⟩
  | case5 d rest hd hn hs ih =>
    have hrest := hbehind (List.subset_cons_self d rest) ih
    rw [cut, if_neg hd, if_neg hn, if_neg hs]
    exact ⟨by simp,
      List.forall_mem_cons.2 ⟨by simp [Lexeme.chars], chars_flush hrest.1 hrest.2⟩⟩
  | case6 q => simp [cut]
  | case7 q d hd => simp [cut, hd]
  | case8 q rest ih =>
    have hsub : rest ⊆ q :: q :: rest := List.subset_cons_of_subset q (List.subset_cons_self q rest)
    have hrest := hbehind hsub ih
    rw [cut, if_pos rfl, if_pos rfl]
    exact ⟨List.forall_mem_cons.2 ⟨List.mem_cons_self, hrest.1⟩, hrest.2⟩
  | case9 q d rest hd ih =>
    have hrest := hbehind (List.subset_cons_self q (d :: rest)) ih
    rw [cut_close hd]
    exact ⟨by simp, chars_flush hrest.1 hrest.2⟩
  | case10 q d e rest hd ih =>
    have hrest := hbehind (List.subset_cons_self d (e :: rest)) ih
    rw [cut, if_neg hd]
    exact ⟨List.forall_mem_cons.2 ⟨List.mem_cons_self, hrest.1⟩, hrest.2⟩

/-- The characters of lexemes are characters of the text. -/
theorem mem_of_mem_lexemes {s : String} {l : Lexeme} (h : l ∈ lexemes s) :
    ∀ c ∈ l.chars, c ∈ s.toList :=
  chars_flush (chars_cut none s.toList).1 (chars_cut none s.toList).2 l h

/-- The marks of a text are among its characters. -/
theorem mark_mem_lexemes {c : Char} {s : String} (h : .mark c ∈ lexemes s) : c ∈ s.toList :=
  mem_of_mem_lexemes h c List.mem_cons_self

/-! ## Texts and their lexemes -/

/-- A text that leaves no quote open, and its lexemes. -/
structure Lexes (s : String) (ls : List Lexeme) : Prop where
  closed : s.toList.foldl quoteAfter none = none
  lexemes : lexemes s = ls

instance (s : String) (ls : List Lexeme) : Decidable (Lexes s ls) :=
  decidable_of_iff (s.toList.foldl quoteAfter none = none ∧ lexemes s = ls)
    ⟨fun h => ⟨h.1, h.2⟩, fun h => ⟨h.closed, h.lexemes⟩⟩

namespace Lexes

variable {a b : String} {as bs : List Lexeme}

theorem append (ha : Lexes a as) (hb : Lexes b bs) (h : Back a.toList ∨ Front b.toList) :
    Lexes (a ++ b) (as ++ bs) := by
  refine ⟨?_, ?_⟩
  · rw [String.toList_append, List.foldl_append, ha.closed, hb.closed]
  · rw [← ha.lexemes, ← hb.lexemes, Sql.lexemes, String.toList_append,
      lexemesOf_append ha.closed h]
    rfl

/-- A text in front of one that starts with a blank or a mark. -/
theorem before (ha : Lexes a as) (hb : Lexes b bs) (h : Front b.toList) :
    Lexes (a ++ b) (as ++ bs) :=
  ha.append hb (.inr h)

/-- A text behind one that ends with a blank or a mark. -/
theorem behind (ha : Lexes a as) (hb : Lexes b bs) (h : Back a.toList) :
    Lexes (a ++ b) (as ++ bs) :=
  ha.append hb (.inl h)

end Lexes

theorem Back.append {bs : List Char} (h : Back bs) (as : List Char) : Back (as ++ bs) := by
  obtain ⟨c, hc, hapart⟩ := h
  exact ⟨c, by simp [List.getLast?_append, Option.mem_def.1 hc], hapart⟩

theorem back_append {b : String} (h : Back b.toList) (a : String) : Back (a ++ b).toList := by
  rw [String.toList_append]
  exact h.append a.toList

theorem front_append {a : String} (h : Front a.toList) (hne : a.toList ≠ []) (b : String) :
    Front (a ++ b).toList := by
  obtain ⟨c, cs, hcs⟩ := List.exists_cons_of_ne_nil hne
  rw [hcs] at h
  rw [String.toList_append, hcs]
  exact h

/-- Texts in a row, with a separator of blanks and marks between them. -/
theorem Lexes.join {sep : String} {ms : List Lexeme} (hsep : Lexes sep ms)
    (hfront : Front sep.toList) (hback : Back sep.toList) {ss : List String}
    {lss : List (List Lexeme)} (h : List.Forall₂ Lexes ss lss) :
    Lexes (join sep ss) (ms.intercalate lss) := by
  induction h with
  | nil => exact ⟨rfl, rfl⟩
  | @cons s ls ss lss hs hrest ih =>
    cases hrest with
    | nil => rwa [List.intercalate_singleton]
    | @cons t ms' ss lss ht hrest =>
      have hall := (hs.before hsep hfront).behind ih (back_append hback s)
      rwa [← List.intercalate_cons_cons] at hall

/-! ## Words and quoted texts -/

theorem lexes_word {s : String} (hne : s.toList ≠ []) (h : ∀ c ∈ s.toList, isNameChar c = true) :
    Lexes s [.word s] := by
  have hall : ∀ cs : List Char, (∀ c ∈ cs, isNameChar c = true) →
      cs.foldl quoteAfter none = none ∧ cut none cs = (cs, []) := by
    intro cs hcs
    induction cs with
    | nil => exact ⟨rfl, rfl⟩
    | cons c cs ih =>
      obtain ⟨ih1, ih2⟩ := ih fun d hd => hcs d (by simp [hd])
      have hc := hcs c (by simp)
      have hquote : ¬ isQuote c = true := by
        intro hq
        rcases Bool.or_eq_true_iff.1 hq with hq | hq <;> rw [eq_of_beq hq] at hc <;> cases hc
      rw [List.foldl_cons, quoteAfter_none hquote]
      exact ⟨ih1, by simp [cut, hquote, hc, ih2, push]⟩
  obtain ⟨hclosed, hcut⟩ := hall s.toList h
  refine ⟨hclosed, ?_⟩
  rw [lexemes, lexemesOf, hcut]
  cases hs : s.toList with
  | nil => exact absurd hs hne
  | cons c cs => rw [flush, ← hs, String.ofList_toList]; simp

theorem ne_of_isNameChar {c : Char} (h : isNameChar c = true) :
    c ≠ '\x27' ∧ c ≠ '\x22' ∧ c ≠ '?' := by
  refine ⟨?_, ?_, ?_⟩ <;> rintro rfl <;> exact absurd h (by decide)

theorem inert_of_isIdentifier {name : String} (h : isIdentifier name = true) : Inert name :=
  .of_forall fun c hc => ne_of_isNameChar (isNameChar_of_isIdentifier h c hc)

theorem lexes_identifier {name : String} (h : isIdentifier name = true) :
    Lexes name [.word name] := by
  refine lexes_word ?_ (isNameChar_of_isIdentifier h)
  intro hnil
  rw [isIdentifier, hnil] at h
  cases h

theorem isNameChar_of_isDigit {c : Char} (h : c.isDigit = true) : isNameChar c = true := by
  simp [isNameChar, Char.isAlphanum, h]

theorem lexes_natText (n : Nat) : Lexes (natText n) [.word (natText n)] :=
  lexes_word (natText_ne_nil n) fun _ hc => isNameChar_of_isDigit (isDigit_of_mem_natText hc)

theorem cut_inside {c quote : Char} (h : c ≠ quote) (rest : List Char) :
    cut (some quote) (c :: rest) = push c (cut (some quote) rest) := by
  cases rest <;> simp [cut, h, push]

theorem cut_escapeQuotes (quote : Char) (cs : List Char) :
    cut (some quote) (escapeQuotes quote cs ++ [quote]) = (cs, []) := by
  induction cs with
  | nil => simp [escapeQuotes, cut]
  | cons c cs ih =>
    rw [escapeQuotes]
    split
    · rename_i hc
      simp [cut, ih, push, hc]
    · rename_i hc
      rw [List.cons_append, cut_inside hc, ih]
      rfl

theorem lexemesOf_quoted {quote : Char} (h : isQuote quote = true) (cs : List Char) :
    lexemesOf (quote :: (escapeQuotes quote cs ++ [quote])) = [quotedLexeme quote cs] := by
  simp [lexemesOf, cut, h, cut_escapeQuotes, flush]

/-- A quoted name is read back, whatever it holds. -/
theorem lexes_quoteName (name : String) : Lexes (quoteName name) [.name name] := by
  refine ⟨(inert_quoteName name).closed, ?_⟩
  have hlist : (quoteName name).toList =
      '\x22' :: (escapeQuotes '\x22' name.toList ++ ['\x22']) := by simp [quoteName]
  rw [lexemes, hlist, lexemesOf_quoted rfl, quotedLexeme, if_pos rfl, String.ofList_toList]

/-- A quoted text is read back, whatever it holds. -/
theorem lexes_quoteText (s : String) : Lexes (quoteText s) [.text s] := by
  refine ⟨(inert_quoteText s).closed, ?_⟩
  have hlist : (quoteText s).toList =
      '\x27' :: (escapeQuotes '\x27' s.toList ++ ['\x27']) := by simp [quoteText]
  rw [lexemes, hlist, lexemesOf_quoted rfl, quotedLexeme, if_neg (by decide), String.ofList_toList]

end RecordModel.Sql
