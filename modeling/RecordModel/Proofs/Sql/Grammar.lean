import RecordModel.Catalog.Name
import RecordModel.Proofs.Filter.Truth

/-!
# Reading boolean SQL

How the text of a WHERE clause is read. First the text is cut into symbols (`Scans`):
keywords, parentheses and atoms, an atom being the whole text of a comparison. Then the
symbols are read with NOT before AND before OR, and with parentheses (`Reads`), each atom
having a truth value. Both are relations, as a grammar is; both are functional.

Results:
* `Reads.unique`: symbols have at most one value. A stack machine (`step`) that keeps, for
  each open parenthesis, the disjunction so far and the run at hand, computes it.
* `Scans.unique`: a text whose atoms begin with a quote is cut in one way only.
* `ClauseReads.unique`: so a clause has at most one value.
-/
namespace RecordModel.Sql

inductive SqlSymbol where
  | value (b : Truth)
  | and
  | or
  | not
  | opening
  | closing
  deriving DecidableEq

/-- What binds tighter than OR, than AND, and than NOT. -/
inductive Precedence where
  | disjunction
  | conjunction
  | factor

/-- The grammar of boolean SQL, with the value of each phrase. -/
inductive Reads : Precedence → List SqlSymbol → Truth → Prop where
  | value (b : Truth) : Reads .factor [.value b] b
  | group {ss : List SqlSymbol} {b : Truth} :
    Reads .disjunction ss b → Reads .factor (.opening :: ss ++ [.closing]) b
  | not {ss : List SqlSymbol} {b : Truth} : Reads .factor ss b → Reads .factor (.not :: ss) b.not
  | factor {ss : List SqlSymbol} {b : Truth} : Reads .factor ss b → Reads .conjunction ss b
  | and {ss ts : List SqlSymbol} {a b : Truth} :
    Reads .conjunction ss a → Reads .factor ts b → Reads .conjunction (ss ++ .and :: ts) (a.and b)
  | conjunction {ss : List SqlSymbol} {b : Truth} :
    Reads .conjunction ss b → Reads .disjunction ss b
  | or {ss ts : List SqlSymbol} {a b : Truth} :
    Reads .disjunction ss a → Reads .conjunction ts b →
      Reads .disjunction (ss ++ .or :: ts) (a.or b)

/-! ## Symbols have one value -/

/-- What is known inside one pair of parentheses: the disjunction of the runs behind, the
run at hand, and whether an odd number of NOT is pending. -/
structure Frame where
  sum : Truth
  run : Truth
  flip : Bool

namespace Frame

def fresh : Frame := ⟨.fails, .holds, false⟩

/-- An operand joins the run at hand. -/
def operand (f : Frame) (b : Truth) : Frame :=
  { f with run := f.run.and (if f.flip then b.not else b), flip := false }

def total (f : Frame) : Truth := f.sum.or f.run

end Frame

/-- One symbol; the frames of the parentheses around stand on the stack. -/
def step : Frame × List Frame → SqlSymbol → Frame × List Frame
  | (f, stack), .value b => (f.operand b, stack)
  | (f, stack), .and => (f, stack)
  | (f, stack), .or => (⟨f.total, .holds, false⟩, stack)
  | (f, stack), .not => ({ f with flip := !f.flip }, stack)
  | (f, stack), .opening => (.fresh, f :: stack)
  | (f, outer :: stack), .closing => (outer.operand f.total, stack)
  | (f, []), .closing => (f, [])

/-- What the machine does on a phrase: a factor is an operand, a conjunction multiplies the
run, and a disjunction is the total of its parentheses. -/
def Computes : Precedence → List SqlSymbol → Truth → Prop
  | .factor, ss, b => ∀ f stack, ss.foldl step (f, stack) = (f.operand b, stack)
  | .conjunction, ss, b => ∀ f stack, f.flip = false →
    ss.foldl step (f, stack) = ({ f with run := f.run.and b }, stack)
  | .disjunction, ss, b => ∃ sum run, sum.or run = b ∧ ∀ stack,
    ss.foldl step (.fresh, stack) = (⟨sum, run, false⟩, stack)

theorem Frame.operand_of_flip {f : Frame} (h : f.flip = false) (b : Truth) :
    f.operand b = { f with run := f.run.and b } := by
  obtain ⟨sum, run, flip⟩ := f
  cases h
  rfl

theorem Reads.computes {p : Precedence} {ss : List SqlSymbol} {b : Truth} (h : Reads p ss b) :
    Computes p ss b := by
  induction h with
  | value b => intro f stack; rfl
  | group _ ih =>
    obtain ⟨sum, run, hb, hfold⟩ := ih
    intro f stack
    have hopening : step (f, stack) .opening = (.fresh, f :: stack) := rfl
    rw [List.cons_append, List.foldl_cons, hopening, List.foldl_append, hfold, ← hb]
    rfl
  | @not ss b _ ih =>
    intro f stack
    rw [List.foldl_cons, step, ih]
    obtain ⟨sum, run, flip⟩ := f
    cases flip <;> simp [Frame.operand]
  | factor _ ih =>
    intro f stack hf
    rw [ih, Frame.operand_of_flip hf]
  | @and ss ts a b _ _ ih1 ih2 =>
    intro f stack hf
    have hoperand := Frame.operand_of_flip (f := { f with run := f.run.and a }) hf b
    rw [List.foldl_append, ih1 f stack hf, List.foldl_cons, step, ih2, hoperand, Truth.and_assoc]
  | @conjunction ss b _ ih =>
    refine ⟨.fails, b, Truth.fails_or b, fun stack => ?_⟩
    rw [ih .fresh stack rfl]
    simp [Frame.fresh]
  | @or ss ts a b _ _ ih1 ih2 =>
    obtain ⟨sum, run, ha, hfold⟩ := ih1
    refine ⟨a, b, rfl, fun stack => ?_⟩
    rw [List.foldl_append, hfold, List.foldl_cons, step, ih2 _ _ rfl]
    simp [Frame.total, ha]

theorem Reads.unique {ss : List SqlSymbol} {a b : Truth} (ha : Reads .disjunction ss a)
    (hb : Reads .disjunction ss b) : a = b := by
  obtain ⟨s, r, hsr, hs⟩ := ha.computes
  obtain ⟨s', r', hsr', hs'⟩ := hb.computes
  have heq := (hs []).symm.trans (hs' [])
  simp only [Prod.mk.injEq, Frame.mk.injEq, and_true] at heq
  rw [← hsr, ← hsr', heq.1, heq.2]

/-! ## Texts -/

/-- The keywords and their symbols. -/
def keywords : List (String × SqlSymbol) := [("AND", .and), ("OR", .or), ("NOT", .not)]

/-- A word ends in front of a text that goes on with no further word character. -/
def WordEnds (cs : List Char) : Prop := ∀ c ∈ cs.head?, isNameChar c = false

/-- A text is cut into symbols; `atoms` are the texts of the atoms still to come and their
values, in order. -/
inductive Scans : List (String × Truth) → List Char → List SqlSymbol → Prop where
  | done : Scans [] [] []
  | blank {atoms : List (String × Truth)} {cs : List Char} {ss : List SqlSymbol} :
    Scans atoms cs ss → Scans atoms (' ' :: cs) ss
  | opening {atoms : List (String × Truth)} {cs : List Char} {ss : List SqlSymbol} :
    Scans atoms cs ss → Scans atoms ('(' :: cs) (.opening :: ss)
  | closing {atoms : List (String × Truth)} {cs : List Char} {ss : List SqlSymbol} :
    Scans atoms cs ss → Scans atoms (')' :: cs) (.closing :: ss)
  | keyword {atoms : List (String × Truth)} {cs : List Char} {ss : List SqlSymbol} {word : String}
    {s : SqlSymbol} : (word, s) ∈ keywords → WordEnds cs → Scans atoms cs ss →
      Scans atoms (word.toList ++ cs) (s :: ss)
  | atom {atoms : List (String × Truth)} {cs : List Char} {ss : List SqlSymbol} {text : String}
    {b : Truth} : WordEnds cs → Scans atoms cs ss →
      Scans ((text, b) :: atoms) (text.toList ++ cs) (.value b :: ss)

/-- The atom begins with a quote, as a quoted table name does. -/
def Quoted (text : String) : Prop := ∃ cs, text.toList = '\x22' :: cs

/-! ## Texts are cut in one way -/

/-- One cut after the other; `pending` is what the word at hand still needs. -/
def scan : List Char → List (String × Truth) → List Char → Option (List SqlSymbol)
  | [], _, [] => some []
  | _ :: _, _, [] => none
  | p :: pending, atoms, c :: cs => if c = p then scan pending atoms cs else none
  | [], atoms, c :: cs =>
    if c = ' ' then scan [] atoms cs
    else if c = '(' then (scan [] atoms cs).map (.opening :: ·)
    else if c = ')' then (scan [] atoms cs).map (.closing :: ·)
    else if c = 'A' then (scan ['N', 'D'] atoms cs).map (.and :: ·)
    else if c = 'O' then (scan ['R'] atoms cs).map (.or :: ·)
    else if c = 'N' then (scan ['O', 'T'] atoms cs).map (.not :: ·)
    else match atoms with
      | [] => none
      | (text, b) :: atoms => (scan text.toList.tail atoms cs).map (.value b :: ·)

theorem scan_pending (pending : List Char) (atoms : List (String × Truth)) (cs : List Char) :
    scan pending atoms (pending ++ cs) = scan [] atoms cs := by
  induction pending with
  | nil => rfl
  | cons p pending ih => rw [List.cons_append, scan, if_pos rfl, ih]

theorem Scans.computes {atoms : List (String × Truth)} {cs : List Char} {ss : List SqlSymbol}
    (hq : ∀ a ∈ atoms, Quoted a.1) (h : Scans atoms cs ss) : scan [] atoms cs = some ss := by
  induction h with
  | done => rfl
  | blank _ ih => simp [scan, ih hq]
  | opening _ ih => simp [scan, ih hq]
  | closing _ ih => simp [scan, ih hq]
  | @keyword atoms cs ss word s hw _ _ ih =>
    simp only [keywords, List.mem_cons, Prod.mk.injEq, List.not_mem_nil, or_false] at hw
    rcases hw with ⟨rfl, rfl⟩ | ⟨rfl, rfl⟩ | ⟨rfl, rfl⟩
    · show scan [] atoms ('A' :: 'N' :: 'D' :: cs) = _
      simp [scan, ih hq]
    · show scan [] atoms ('O' :: 'R' :: cs) = _
      simp [scan, ih hq]
    · show scan [] atoms ('N' :: 'O' :: 'T' :: cs) = _
      simp [scan, ih hq]
  | @atom atoms cs ss text b _ _ ih =>
    obtain ⟨ds, hds⟩ := hq _ (List.mem_cons_self ..)
    have hpending := scan_pending ds atoms cs
    rw [ih fun a ha => hq a (List.mem_cons_of_mem _ ha)] at hpending
    rw [hds, List.cons_append, scan]
    simp [hds, hpending]

theorem Scans.unique {atoms : List (String × Truth)} {cs : List Char} {ss ts : List SqlSymbol}
    (hq : ∀ a ∈ atoms, Quoted a.1) (h : Scans atoms cs ss) (h' : Scans atoms cs ts) : ss = ts :=
  Option.some.inj ((h.computes hq).symm.trans (h'.computes hq))

/-! ## Clauses -/

/-- A clause has a value; without a clause every row counts. -/
def ClauseReads (atoms : List (String × Truth)) (clause : String) (b : Truth) : Prop :=
  if clause = "" then b = .holds
  else ∃ cs ss, clause = "WHERE " ++ String.ofList cs ∧ Scans atoms cs ss ∧ Reads .disjunction ss b

theorem ClauseReads.unique {atoms : List (String × Truth)} {clause : String} {a b : Truth}
    (hq : ∀ x ∈ atoms, Quoted x.1) (ha : ClauseReads atoms clause a)
    (hb : ClauseReads atoms clause b) : a = b := by
  unfold ClauseReads at ha hb
  split at ha
  · rename_i hc
    rw [if_pos hc] at hb
    rw [ha, hb]
  · rename_i hc
    rw [if_neg hc] at hb
    obtain ⟨cs, ss, hcs, hscan, hread⟩ := ha
    obtain ⟨ds, ts, hds, hscan', hread'⟩ := hb
    have he : cs = ds := by
      have h := congrArg String.toList (hcs.symm.trans hds)
      simpa using h
    subst he
    rw [hscan.unique hq hscan'] at hread
    exact hread.unique hread'

end RecordModel.Sql
