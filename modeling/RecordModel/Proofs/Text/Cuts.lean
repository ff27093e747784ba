import Mathlib.Data.List.DropRight
import RecordModel.Text.Blank
import RecordModel.Text.Pieces

/-!
# Texts that were put together

Trimming takes blanks off that were set around a text, cutting into words finds the words that
blanks were set between, and cutting into lines finds the lines that were joined. Whoever reads
line by line and neither minds an empty line nor a carriage return at the end of a line may take
the pieces between the line feeds for the lines.

Results:
* `trimChars_blanks`, `Solid.trimChars_eq`: what trimming gives.
* `wordsFrom_word`: a word in front of blanks is found.
* `splitAll_intercalate`: cutting undoes joining.
* `foldlM_lines`: lines and pieces are the same to such a reader.
-/
namespace RecordModel.Text

/-! ## Blanks around a text -/

def Blanks (cs : List Char) : Prop := ∀ c ∈ cs, isBlank c = true

/-- A text with something else than blanks at both ends. -/
structure Solid (cs : List Char) : Prop where
  head : ∃ c rest, cs = c :: rest ∧ isBlank c = false
  last : ∃ front c, cs = front ++ [c] ∧ isBlank c = false

theorem Blanks.nil : Blanks [] := by simp [Blanks]

theorem Blanks.append {a b : List Char} (ha : Blanks a) (hb : Blanks b) : Blanks (a ++ b) :=
  List.forall_mem_append.2 ⟨ha, hb⟩

theorem trimStart_blanks {g cs : List Char} (h : Blanks g) : trimStart (g ++ cs) = trimStart cs :=
  List.dropWhile_append_of_pos h

theorem trimEnd_blanks {cs g : List Char} (h : Blanks g) : trimEnd (cs ++ g) = trimEnd cs := by
  unfold trimEnd
  rw [List.reverse_append, List.dropWhile_append_of_pos]
  intro c hc
  exact h c (List.mem_reverse.1 hc)

theorem trimChars_blanks {front cs back : List Char} (hfront : Blanks front)
    (hback : Blanks back) : trimChars (front ++ cs ++ back) = trimChars cs := by
  rw [trimChars, List.append_assoc, trimStart_blanks hfront, trimStart, List.dropWhile_append]
  split
  · rename_i hnil
    have hcs : cs.dropWhile isBlank = [] := List.isEmpty_iff.1 hnil
    have hb : trimStart (back ++ []) = [] := trimStart_blanks hback
    rw [List.append_nil, trimStart] at hb
    rw [hb, trimChars, trimStart, hcs]
  · rw [trimEnd_blanks hback, trimChars, trimStart]

theorem trimChars_of_blanks {cs : List Char} (h : Blanks cs) : trimChars cs = [] := by
  have hblanks : trimChars (cs ++ [] ++ []) = trimChars [] := trimChars_blanks h .nil
  rwa [List.append_nil, List.append_nil] at hblanks

theorem Solid.trimChars_eq {cs : List Char} (h : Solid cs) : trimChars cs = cs := by
  obtain ⟨c, rest, hc, hhead⟩ := h.head
  obtain ⟨front, d, hd, hlast⟩ := h.last
  rw [trimChars, hc, trimStart_of_head hhead, ← hc, hd, trimEnd_append_solid hlast]

theorem Solid.trimChars_behind {front cs : List Char} (h : Solid cs) (hfront : Blanks front) :
    trimChars (front ++ cs) = cs := by
  have hblanks : trimChars (front ++ cs ++ []) = trimChars cs := trimChars_blanks hfront .nil
  rwa [List.append_nil, h.trimChars_eq] at hblanks

theorem Solid.trimChars_before {cs back : List Char} (h : Solid cs) (hback : Blanks back) :
    trimChars (cs ++ back) = cs := by
  have hblanks : trimChars ([] ++ cs ++ back) = trimChars cs := trimChars_blanks .nil hback
  rwa [List.nil_append, h.trimChars_eq] at hblanks

theorem Solid.append {a mid b : List Char} (ha : Solid a) (hb : Solid b) :
    Solid (a ++ mid ++ b) := by
  obtain ⟨c, rest, rfl, hhead⟩ := ha.head
  obtain ⟨front, d, rfl, hlast⟩ := hb.last
  exact ⟨⟨c, _, by simp; rfl, hhead⟩, ⟨_, d, by rw [← List.append_assoc], hlast⟩⟩

theorem trimEnd_cons {c : Char} (h : isBlank c = false) (cs : List Char) :
    trimEnd (c :: cs) = c :: trimEnd cs := by
  have hlast : [c].dropWhile isBlank = [c] := List.dropWhile_cons_of_neg (by simp [h])
  unfold trimEnd
  rw [List.reverse_cons, List.dropWhile_append]
  split
  · rename_i hnil
    rw [List.isEmpty_iff.1 hnil, hlast]
    rfl
  · simp

/-- There is nothing left to trim. -/
theorem trimChars_trimChars (cs : List Char) : trimChars (trimChars cs) = trimChars cs := by
  have hagain (cs : List Char) : trimEnd (trimEnd cs) = trimEnd cs := by
    rw [trimEnd, trimEnd, List.reverse_reverse, List.dropWhile_idempotent]
  unfold trimChars
  cases hcs : trimStart cs with
  | nil => rfl
  | cons c rest =>
    have hc : isBlank c = false := by
      have hhead := List.head?_dropWhile_not isBlank cs
      rw [← trimStart, hcs] at hhead
      simpa using hhead
    rw [trimEnd_cons hc, trimStart_of_head hc, trimEnd_cons hc, hagain]

/-- A word holds no blank at all. -/
structure IsWord (cs : List Char) : Prop where
  ne_nil : cs ≠ []
  solid : ∀ c ∈ cs, isBlank c = false

theorem IsWord.toSolid {cs : List Char} (h : IsWord cs) : Solid cs := by
  constructor
  · obtain ⟨c, rest, rfl⟩ := List.exists_cons_of_ne_nil h.ne_nil
    exact ⟨c, rest, rfl, h.solid c (by simp)⟩
  · exact ⟨_, _, (List.dropLast_concat_getLast h.ne_nil).symm,
      h.solid _ (List.getLast_mem h.ne_nil)⟩

/-! ## Words -/

theorem wordsFrom_blanks {g cs : List Char} (h : Blanks g) :
    wordsFrom [] (g ++ cs) = wordsFrom [] cs := by
  induction g with
  | nil => rfl
  | cons c g ih =>
    obtain ⟨hc, hg⟩ := List.forall_mem_cons.1 h
    rw [List.cons_append, wordsFrom, if_pos hc, if_pos List.isEmpty_nil, ih hg]

/-- The current word grows by every character that is not blank. -/
theorem wordsFrom_append {word w cs : List Char} (h : ∀ c ∈ w, isBlank c = false) :
    wordsFrom word (w ++ cs) = wordsFrom (w.reverse ++ word) cs := by
  induction w generalizing word with
  | nil => rfl
  | cons c w ih =>
    obtain ⟨hc, hw⟩ := List.forall_mem_cons.1 h
    rw [List.cons_append, wordsFrom, if_neg (by simp [hc]), ih hw, List.reverse_cons,
      List.append_assoc, List.singleton_append]

theorem wordsFrom_word {w cs : List Char} (hw : IsWord w)
    (hcs : ∀ c ∈ cs.head?, isBlank c = true) : wordsFrom [] (w ++ cs) = w :: wordsFrom [] cs := by
  have hne : w.reverse.isEmpty = false := by simpa using hw.ne_nil
  rw [wordsFrom_append hw.solid, List.append_nil]
  cases cs with
  | nil => simp [wordsFrom, hw.ne_nil]
  | cons c cs =>
    have hc : isBlank c = true := hcs c rfl
    simp [wordsFrom, hc, hne]

theorem words_blanks {g cs : List Char} (h : Blanks g) :
    words (String.ofList (g ++ cs)) = words (String.ofList cs) := by
  rw [words, words, String.toList_ofList, String.toList_ofList, wordsFrom_blanks h]

/-! ## Lines -/

theorem splitAll_append {sep : Char} {piece rest : List Char} (h : sep ∉ piece) :
    splitAll sep (piece ++ sep :: rest) = piece :: splitAll sep rest := by
  induction piece with
  | nil => rw [List.nil_append, splitAll, if_pos rfl]
  | cons c piece ih =>
    rw [List.mem_cons, not_or] at h
    rw [List.cons_append, splitAll, if_neg (Ne.symm h.1), ih h.2]

theorem splitAll_intercalate {sep : Char} {pieces : List (List Char)} (hne : pieces ≠ [])
    (h : ∀ piece ∈ pieces, sep ∉ piece) : splitAll sep ([sep].intercalate pieces) = pieces := by
  induction pieces with
  | nil => exact absurd rfl hne
  | cons piece pieces ih =>
    obtain ⟨hpiece, hpieces⟩ := List.forall_mem_cons.1 h
    cases pieces with
    | nil => rw [List.intercalate_singleton, splitAll_of_not_mem hpiece]
    | cons next pieces =>
      rw [List.intercalate_cons_cons, List.append_assoc, List.singleton_append,
        splitAll_append hpiece, ih (List.cons_ne_nil _ _) hpieces]

/-- A reader that passes over an empty line and over a carriage return at the end of a line reads
the same in the lines of a text as in the pieces between its line feeds. -/
theorem foldlM_lines {σ ε : Type} {read : σ → List Char → Except ε σ}
    (hempty : ∀ s, read s [] = .ok s) (hreturn : ∀ s line, read s (dropReturn line) = read s line)
    (text : List Char) (s : σ) :
    (lines text).foldlM read s = (splitAll '\n' text).foldlM read s := by
  obtain ⟨front, last, hpieces⟩ : ∃ front last, splitAll '\n' text = front ++ [last] :=
    ⟨_, _, (List.dropLast_concat_getLast (splitAll_ne_nil '\n' text)).symm⟩
  have hfront : (front.map dropReturn).foldlM read s = front.foldlM read s := by
    rw [List.foldlM_map]
    simp only [hreturn]
  rw [lines, hpieces]
  -- an empty last piece is no line of its own
  cases last with
  | nil =>
    simp only [List.dropLast_concat, List.getLast?_concat, hfront, List.foldlM_append,
      List.foldlM_cons, List.foldlM_nil, hempty]
    exact (bind_pure _).symm
  | cons c last => simp [hfront]

end RecordModel.Text
