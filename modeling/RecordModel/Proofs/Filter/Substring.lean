import RecordModel.Proofs.Filter.Collation

/-!
# Substrings as patterns

An operator that looks for a substring binds its text between two percent signs. Of such a pattern
the database asks for a run of characters that its inside matches. A text matches itself, so no
text that holds the substring is missed. It is the only one that it matches if it has no percent
sign and no underscore; else it also matches what it becomes with other characters in their place.

Results:
* `likeMatches_around`: a pattern between percent signs asks for a run that its inside matches.
* `likeMatches_literal`: a text without wildcards matches itself only.
* `likeMatches_filled`: with wildcards, it matches what they are filled to.
* `Sql.operatorSql_like`: the texts with a substring are found, and no others just where it has no
  wildcards.
-/
namespace RecordModel

open RecordModel.Sql

/-! ## Patterns by their characters -/

/-- A percent sign in front asks for an end of the text. -/
theorem likeMatches_percent {p s : List Char} :
    likeMatches ('%' :: p) s = true ↔ ∃ t, t <:+ s ∧ likeMatches p t = true := by
  simp [likeMatches, List.any_eq_true, List.mem_tails]

/-- All other characters ask for one character. -/
theorem likeMatches_cons {c : Char} (h : c ≠ '%') {p s : List Char} :
    likeMatches (c :: p) s = true ↔
      ∃ d t, s = d :: t ∧ (c = '_' ∨ c = d) ∧ likeMatches p t = true := by
  by_cases hc : c = '_'
  · subst hc
    cases s <;> simp [likeMatches]
  · cases s <;> simp [likeMatches, hc]

/-- A percent sign at the end asks for a beginning of the text. -/
theorem likeMatches_snoc {p s : List Char} :
    likeMatches (p ++ ['%']) s = true ↔ ∃ t, t <+: s ∧ likeMatches p t = true := by
  induction p generalizing s with
  | nil =>
    have hend : likeMatches ['%'] s = true :=
      likeMatches_percent.2 ⟨[], List.nil_suffix, by simp [likeMatches]⟩
    exact iff_of_true hend ⟨[], List.nil_prefix, by simp [likeMatches]⟩
  | cons c p ih =>
    rw [List.cons_append]
    by_cases hc : c = '%'
    · -- both sides ask for a run somewhere in the text
      subst hc
      simp only [likeMatches_percent, ih]
      constructor
      · rintro ⟨u, hu, t, ht, hp⟩
        obtain ⟨w, htw, hw⟩ :=
          List.infix_iff_suffix_prefix.1 (List.infix_iff_prefix_suffix.2 ⟨u, ht, hu⟩)
        exact ⟨w, hw, t, htw, hp⟩
      · rintro ⟨w, hw, t, htw, hp⟩
        obtain ⟨u, ht, hu⟩ :=
          List.infix_iff_prefix_suffix.1 (List.infix_iff_suffix_prefix.2 ⟨w, htw, hw⟩)
        exact ⟨u, hu, t, ht, hp⟩
    · simp only [likeMatches_cons hc, ih]
      constructor
      · rintro ⟨d, s, rfl, hd, t, ht, hp⟩
        exact ⟨d :: t, List.prefix_cons_inj d |>.2 ht, d, t, rfl, hd, hp⟩
      · rintro ⟨_, hw, d, t, rfl, hd, hp⟩
        obtain ⟨rest, rfl⟩ := hw
        exact ⟨d, t ++ rest, rfl, hd, t, List.prefix_append t rest, hp⟩

/-- A pattern between percent signs asks for a run that its inside matches. -/
theorem likeMatches_around {p s : List Char} :
    likeMatches ('%' :: (p ++ ['%'])) s = true ↔ ∃ t, t <:+: s ∧ likeMatches p t = true := by
  simp only [likeMatches_percent, likeMatches_snoc]
  constructor
  · rintro ⟨u, hu, t, ht, hp⟩
    exact ⟨t, List.infix_iff_prefix_suffix.2 ⟨u, ht, hu⟩, hp⟩
  · rintro ⟨t, ht, hp⟩
    obtain ⟨u, htu, hu⟩ := List.infix_iff_prefix_suffix.1 ht
    exact ⟨u, hu, t, htu, hp⟩

/-! ## Texts as patterns -/

def isWildcard (c : Char) : Bool := c == '%' || c == '_'

/-- A text without wildcards matches itself only. -/
theorem likeMatches_literal {v t : List Char} (h : ∀ c ∈ v, isWildcard c = false) :
    likeMatches v t = true ↔ t = v := by
  induction v generalizing t with
  | nil => simp [likeMatches]
  | cons c v ih =>
    obtain ⟨hc, hv⟩ := List.forall_mem_cons.1 h
    obtain ⟨hpercent, hunderscore⟩ : c ≠ '%' ∧ c ≠ '_' := by simpa [isWildcard] using hc
    simp only [likeMatches_cons hpercent, ih hv, hunderscore, false_or]
    constructor
    · rintro ⟨d, t, rfl, rfl, rfl⟩
      rfl
    · rintro rfl
      exact ⟨c, v, rfl, rfl, rfl⟩

/-- A text with its wildcards filled, each with one character. -/
def filled (fill : Char → Char) (v : List Char) : List Char :=
  v.map fun c => if isWildcard c then fill c else c

theorem likeMatches_filled (fill : Char → Char) (v : List Char) :
    likeMatches v (filled fill v) = true := by
  induction v with
  | nil => rfl
  | cons c v ih =>
    by_cases hpercent : c = '%'
    · exact hpercent ▸ likeMatches_percent.2 ⟨filled fill v, List.suffix_cons _ _, ih⟩
    · refine (likeMatches_cons hpercent).2 ⟨_, _, rfl, ?_, ih⟩
      by_cases hunderscore : c = '_'
      · exact .inl hunderscore
      · exact .inr (by simp [isWildcard, hpercent, hunderscore])

theorem filled_id (v : List Char) : filled id v = v := by simp [filled]

/-- A text with wildcards is no part of what they are filled to with another character. -/
theorem not_infix_filled {v : List Char} (h : ∃ c ∈ v, isWildcard c = true) :
    ¬ v <:+: filled (fun _ => 'x') v := by
  intro hinfix
  have hsame : v = filled (fun _ => 'x') v := hinfix.eq_of_length (by simp [filled])
  obtain ⟨c, hc, hwild⟩ := h
  have hall : ∀ d ∈ filled (fun _ => 'x') v, isWildcard d = false := by
    intro d hd
    obtain ⟨e, -, rfl⟩ := List.mem_map.1 hd
    cases he : isWildcard e <;> simp [he]
    decide
  rw [← hsame] at hall
  rw [hall c hc] at hwild
  cases hwild

/-! ## Operators -/

namespace Sql

/-- What a comparison with a pattern says of a text, by the pattern that is bound. -/
def Fragment.answer (f : Fragment) (subject : String) : Option Bool :=
  match f.args with
  | [.text pattern] =>
    if f.sql = "LIKE ?" then some (likeMatches pattern.toList subject.toList)
    else if f.sql = "NOT LIKE ?" then some (!likeMatches pattern.toList subject.toList)
    else none
  | _ => none

theorem Fragment.answer_like (v s : String) :
    Fragment.answer ⟨"LIKE ?", [.text v]⟩ s = some (likeMatches v.toList s.toList) := by
  simp [Fragment.answer]

theorem Fragment.answer_notLike (v s : String) :
    Fragment.answer ⟨"NOT LIKE ?", [.text v]⟩ s = some (!likeMatches v.toList s.toList) := by
  simp [Fragment.answer]

/-- A text between percent signs. -/
def aroundText (v : String) : String := "%" ++ v ++ "%"

theorem likeMatches_aroundText {v s : String} :
    likeMatches (aroundText v).toList s.toList = true ↔
      ∃ t, t <:+: s.toList ∧ likeMatches v.toList t = true := by
  rw [← likeMatches_around, aroundText]
  simp

theorem likeMatches_of_infix {v s : String} (h : v.toList <:+: s.toList) :
    likeMatches (aroundText v).toList s.toList = true := by
  have hself := likeMatches_filled id v.toList
  rw [filled_id] at hself
  exact likeMatches_aroundText.2 ⟨v.toList, h, hself⟩

/-- What is bound for a text matches the texts that hold it, and no others, just where the text has
no wildcards. -/
theorem likeMatches_iff_infix (v : String) :
    (∀ s : String, likeMatches (aroundText v).toList s.toList = true ↔ v.toList <:+: s.toList) ↔
      ∀ c ∈ v.toList, isWildcard c = false := by
  constructor
  · intro h c hc
    by_contra hwild
    have hmatch : likeMatches (aroundText v).toList
        (String.ofList (filled (fun _ => 'x') v.toList)).toList = true := by
      refine likeMatches_aroundText.2 ⟨filled (fun _ => 'x') v.toList, ?_, likeMatches_filled _ _⟩
      rw [String.toList_ofList]
    have hinfix := (h _).1 hmatch
    rw [String.toList_ofList] at hinfix
    exact not_infix_filled ⟨c, hc, by simpa using hwild⟩ hinfix
  · intro h s
    simp only [likeMatches_aroundText, likeMatches_literal h, exists_eq_right]

/-- The operators for a substring take every text, and one of them says what the other denies. A
text that holds the substring is always found, and no other text is if and only if the substring
has no wildcards. -/
theorem operatorSql_like (d : Dialect) (v : String) :
    ∃ f g, d.operatorSql .like (.text v) = .ok f ∧ d.operatorSql .notLike (.text v) = .ok g ∧
      (∀ s, v.toList <:+: s.toList → f.answer s = some true ∧ g.answer s = some false) ∧
      ((∀ s, f.answer s = some (decide (v.toList <:+: s.toList)) ∧
          g.answer s = some (!decide (v.toList <:+: s.toList))) ↔
        ∀ c ∈ v.toList, isWildcard c = false) := by
  refine ⟨⟨"LIKE ?", [.text (aroundText v)]⟩, ⟨"NOT LIKE ?", [.text (aroundText v)]⟩, rfl, rfl,
    ?_, ?_⟩
  · intro s hs
    rw [Fragment.answer_like, Fragment.answer_notLike, likeMatches_of_infix hs]
    exact ⟨rfl, rfl⟩
  · simp only [Fragment.answer_like, Fragment.answer_notLike, ← likeMatches_iff_infix v]
    constructor
    · intro h s
      have hsame := Option.some.inj (h s).1
      rw [hsame, decide_eq_true_iff]
    · intro h s
      have hsame : likeMatches (aroundText v).toList s.toList =
          decide (v.toList <:+: s.toList) := by
        rw [Bool.eq_iff_iff, decide_eq_true_iff]
        exact h s
      rw [hsame]
      exact ⟨rfl, rfl⟩

/-- Fifty percent are also found in five hundred. -/
theorem fifty_percent_found :
    ∃ f g, Dialect.sqlite.operatorSql .like (.text "50%") = .ok f ∧
      Dialect.sqlite.operatorSql .notLike (.text "50%") = .ok g ∧
      ¬ "50%".toList <:+: "500".toList ∧ f.answer "500" = some true ∧ g.answer "500" = some false :=
  ⟨_, _, rfl, rfl, by decide, by decide +kernel, by decide +kernel⟩

end Sql

end RecordModel
