import RecordModel.Proofs.Sql.Grammar
import RecordModel.Proofs.Sql.Lexemes
import RecordModel.Query.Where

/-!
# Texts of tokens

The tokens of a WHERE clause are written in a row, with a blank between two of them or
nothing. The text is cut into the symbols of the tokens again, and its placeholders are
those of the atoms, which are filled one by one while all other tokens stay.

Results:
* `scans_tokensText`: the text of tokens is cut into their symbols.
* `lexes_tokensText`: the text of tokens has the lexemes of the tokens.
* `TokensFill.text`: the placeholders in the text of tokens are filled atom by atom.
-/
namespace RecordModel

open RecordModel.Sql

/-- What stands between a token and the tokens behind it. -/
def gap (t : WhereToken) : List WhereToken → String
  | [] => ""
  | u :: _ => if t.spaced u then " " else ""

theorem gap_eq_empty_or_blank (t : WhereToken) (rest : List WhereToken) :
    gap t rest = "" ∨ gap t rest = " " := by
  cases rest with
  | nil => exact .inl rfl
  | cons u rest =>
    rw [gap]
    split
    · exact .inr rfl
    · exact .inl rfl

theorem tokensText_cons (t : WhereToken) (rest : List WhereToken) :
    tokensText (t :: rest) = t.text ++ gap t rest ++ tokensText rest := by
  cases rest with
  | nil => simp [tokensText, gap]
  | cons u rest => rfl

/-! ## Symbols -/

/-- The texts of the atoms, from left to right. -/
def atomsOf : List WhereToken → List String
  | [] => []
  | .atom sql :: rest => sql :: atomsOf rest
  | _ :: rest => atomsOf rest

/-- The symbols of tokens; `vs` are the values of the atoms, and may go on behind them. -/
def symbolsOf : List WhereToken → List Truth → List SqlSymbol
  | [], _ => []
  | .atom _ :: rest, vs => .value (vs.headD .unknown) :: symbolsOf rest vs.tail
  | .and :: rest, vs => .and :: symbolsOf rest vs
  | .or :: rest, vs => .or :: symbolsOf rest vs
  | .not :: rest, vs => .not :: symbolsOf rest vs
  | .opening :: rest, vs => .opening :: symbolsOf rest vs
  | .closing :: rest, vs => .closing :: symbolsOf rest vs

theorem atomsOf_append (ts us : List WhereToken) :
    atomsOf (ts ++ us) = atomsOf ts ++ atomsOf us := by
  induction ts with
  | nil => rfl
  | cons t ts ih => cases t <;> simp [atomsOf, ih]

theorem symbolsOf_append (ts us : List WhereToken) (vs : List Truth) :
    symbolsOf (ts ++ us) vs = symbolsOf ts vs ++ symbolsOf us (vs.drop (atomsOf ts).length) := by
  induction ts generalizing vs with
  | nil => rfl
  | cons t ts ih => cases t <;> simp [atomsOf, symbolsOf, ih]

theorem atoms_of_tokensText_empty {ts : List WhereToken} (h : tokensText ts = "") :
    ∀ sql ∈ atomsOf ts, sql = "" := by
  induction ts with
  | nil => simp [atomsOf]
  | cons t ts ih =>
    rw [tokensText_cons, String.append_eq_empty_iff, String.append_eq_empty_iff] at h
    obtain ⟨⟨ht, -⟩, hrest⟩ := h
    cases t with
    | atom sql =>
      intro s hs
      rcases List.mem_cons.1 hs with rfl | hs
      · exact ht
      · exact ih hrest s hs
    | and | or | not | opening | closing => exact ih hrest

/-- Behind every token but an opening parenthesis stands a blank, a mark or nothing. -/
theorem front_gap {t : WhereToken} (ht : t ≠ .opening) (rest : List WhereToken) :
    Front (gap t rest ++ tokensText rest).toList := by
  cases rest with
  | nil => simp [Front, gap, tokensText]
  | cons u rest =>
    by_cases hu : u = .closing
    · subst hu
      have hgap : gap t (.closing :: rest) = "" := by cases t <;> rfl
      rw [hgap, tokensText_cons]
      intro c hc
      simp only [String.empty_append, WhereToken.text, String.append_assoc,
        String.toList_append] at hc
      cases hc
      rfl
    · have hgap : gap t (u :: rest) = " " := by
        cases t <;> first | exact absurd rfl ht | (cases u <;> first | rfl | exact absurd rfl hu)
      rw [hgap]
      intro c hc
      simp only [String.toList_append] at hc
      cases hc
      rfl

/-- Behind every token but an opening parenthesis a word ends. -/
theorem wordEnds_gap {t : WhereToken} (ht : t ≠ .opening) (rest : List WhereToken) :
    WordEnds (gap t rest ++ tokensText rest).toList := by
  intro c hc
  have hapart := front_gap ht rest c hc
  simp only [isApart, Bool.and_eq_true, Bool.not_eq_true'] at hapart
  exact hapart.2

theorem scans_gap {atoms : List (String × Truth)} {rest : List WhereToken} {ss : List SqlSymbol}
    (h : Scans atoms (tokensText rest).toList ss) (t : WhereToken) :
    Scans atoms (gap t rest ++ tokensText rest).toList ss := by
  cases rest with
  | nil => exact h
  | cons u rest =>
    rw [gap]
    split
    · rw [String.toList_append]; exact .blank h
    · rw [String.toList_append]; exact h

theorem scans_tokensText (ts : List WhereToken) (vs : List Truth)
    (h : vs.length = (atomsOf ts).length) :
    Scans ((atomsOf ts).zip vs) (tokensText ts).toList (symbolsOf ts vs) := by
  induction ts generalizing vs with
  | nil => exact .done
  | cons t ts ih =>
    rw [tokensText_cons, String.append_assoc, String.toList_append]
    cases t with
    | atom sql =>
      cases vs with
      | nil => simp [atomsOf] at h
      | cons v vs =>
        have hlen : vs.length = (atomsOf ts).length := by simpa [atomsOf] using h
        exact .atom (wordEnds_gap (by simp) ts) (scans_gap (ih vs hlen) _)
    | and =>
      exact .keyword (show ("AND", _) ∈ keywords by simp [keywords]) (wordEnds_gap (by simp) ts)
        (scans_gap (ih vs h) _)
    | or =>
      exact .keyword (show ("OR", _) ∈ keywords by simp [keywords]) (wordEnds_gap (by simp) ts)
        (scans_gap (ih vs h) _)
    | not =>
      exact .keyword (show ("NOT", _) ∈ keywords by simp [keywords]) (wordEnds_gap (by simp) ts)
        (scans_gap (ih vs h) _)
    | opening => exact .opening (scans_gap (ih vs h) _)
    | closing => exact .closing (scans_gap (ih vs h) _)

/-! ## Lexemes -/

/-- The lexemes of tokens are those of each token by itself, if the atoms leave no quote open. -/
theorem lexes_tokensText {ts : List WhereToken}
    (h : ∀ sql ∈ atomsOf ts, sql.toList.foldl quoteAfter none = none) :
    Lexes (tokensText ts) (ts.flatMap fun t => lexemes t.text) := by
  induction ts with
  | nil => exact ⟨rfl, rfl⟩
  | cons t ts ih =>
    have hts : ∀ sql ∈ atomsOf ts, sql.toList.foldl quoteAfter none = none := by
      intro sql hsql
      cases t with
      | atom => exact h sql (List.mem_cons_of_mem _ hsql)
      | and | or | not | opening | closing => exact h sql hsql
    have ht : Lexes t.text (lexemes t.text) := by
      refine ⟨?_, rfl⟩
      cases t with
      | atom sql => exact h sql List.mem_cons_self
      | and | or | not | opening | closing => rfl
    have hrest : Lexes (gap t ts ++ tokensText ts) (ts.flatMap fun t => lexemes t.text) := by
      rcases gap_eq_empty_or_blank t ts with hgap | hgap
      · rw [hgap, String.empty_append]
        exact ih hts
      · rw [hgap]
        exact (by decide : Lexes " " []).behind (ih hts) (by decide)
    rw [tokensText_cons, String.append_assoc]
    refine ht.append hrest ?_
    by_cases hopening : t = .opening
    · subst hopening
      exact .inl (by decide)
    · exact .inr (front_gap hopening ts)

/-! ## Placeholders -/

/-- Tokens, the arguments of their atoms, and the tokens with the marks of these. -/
inductive TokensFill (mark : Value → String) :
    List WhereToken → List Value → List WhereToken → Prop where
  | nil : TokensFill mark [] [] []
  | atom {sql sql' : String} {args vs : List Value} {ts us : List WhereToken} :
    Fills mark sql args sql' → TokensFill mark ts vs us →
      TokensFill mark (.atom sql :: ts) (args ++ vs) (.atom sql' :: us)
  | mark {t : WhereToken} {vs : List Value} {ts us : List WhereToken} : (∀ sql, t ≠ .atom sql) →
    TokensFill mark ts vs us → TokensFill mark (t :: ts) vs (t :: us)

namespace TokensFill

variable {mark : Value → String} {ts ts' us us' : List WhereToken} {vs vs' : List Value}

theorem append (h : TokensFill mark ts vs us) (h' : TokensFill mark ts' vs' us') :
    TokensFill mark (ts ++ ts') (vs ++ vs') (us ++ us') := by
  induction h with
  | nil => exact h'
  | atom hs _ ih => rw [List.append_assoc]; exact .atom hs ih
  | mark ht _ ih => exact .mark ht ih

/-- Tokens without an atom stay as they are. -/
theorem marks (h : ∀ t ∈ ts, ∀ sql, t ≠ .atom sql) : TokensFill mark ts [] ts := by
  induction ts with
  | nil => exact .nil
  | cons t ts ih => exact .mark (h t (by simp)) (ih fun u hu => h u (by simp [hu]))

theorem gap_eq (h : TokensFill mark ts vs us) (t : WhereToken) : gap t ts = gap t us := by
  cases h with
  | nil => rfl
  | atom => cases t <;> rfl
  | mark => cases t <;> rfl

theorem gap_atom (sql sql' : String) (rest : List WhereToken) :
    gap (.atom sql) rest = gap (.atom sql') rest := by
  cases rest with
  | nil => rfl
  | cons u rest => cases u <;> rfl

theorem inert_gap (t : WhereToken) (rest : List WhereToken) : Inert (gap t rest) := by
  cases rest with
  | nil => exact (by decide : Inert "")
  | cons u rest =>
    rw [gap]
    split <;> decide

theorem inert_mark {t : WhereToken} (ht : ∀ sql, t ≠ .atom sql) : Inert t.text := by
  cases t with
  | atom sql => exact absurd rfl (ht sql)
  | and | or | not | opening | closing => decide

theorem text (h : TokensFill mark ts vs us) : Fills mark (tokensText ts) vs (tokensText us) := by
  induction h with
  | nil => exact Inert.fills (by decide)
  | @atom sql sql' args vs ts us hs hrest ih =>
    have hgap : gap (.atom sql) ts = gap (.atom sql') us :=
      (hrest.gap_eq _).trans (gap_atom sql sql' us)
    rw [tokensText_cons, tokensText_cons, hgap]
    exact (hs.before (inert_gap _ us)).append ih
  | @mark t vs ts us ht hrest ih =>
    rw [tokensText_cons, tokensText_cons, hrest.gap_eq]
    exact ih.behind ((inert_mark ht).append (inert_gap t us))

end TokensFill

end RecordModel
