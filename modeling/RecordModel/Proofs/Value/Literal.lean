import RecordModel.Proofs.Calendar.Notation
import RecordModel.Proofs.Number.Shortest
import RecordModel.Proofs.Schema.Statements
import RecordModel.Proofs.Value.Imprint

/-!
# What the default of a column denotes

The default of a field stands as a literal in the definition of its column. A database reads a
constant there: a number, a truth value, or a text between single quotes in which a quote is
written twice. Read as a value of the field's type it should be the default that was declared.
It is for all values but two kinds. The floats that are no number have no constant of SQL, and
the literal of a date and time leaves out the fraction of its second.

Results:
* `unquote?_eq_some`: a quoted text is read exactly if all quotes inside it are doubled.
* `literal_reads`: the literal of a finite value is a constant, and what it is read as.
* `literal_denotes_iff`: which values the literals of defaults denote.
-/
namespace RecordModel

open RecordModel.Text RecordModel.Number RecordModel.Calendar

namespace Sql

/-! ## Constants -/

/-- A constant of SQL. -/
inductive Constant where
  /-- An optional sign and digits, perhaps with a point among them. -/
  | numeral (cs : List Char)
  | truth (b : Bool)
  | quoted (s : String)
  deriving DecidableEq

/-- Is the text a numeral? -/
def isNumeral (cs : List Char) : Bool :=
  let digits := (takeSign cs).2
  !(digits.takeWhile isDigit).isEmpty &&
    match digits.dropWhile isDigit with
    | [] => true
    | '.' :: fraction => !fraction.isEmpty && fraction.all isDigit
    | _ => false

/-- The text in front of the closing quote, which is the last character, each doubled quote
taken for one. -/
def unquote? : List Char → Option (List Char)
  | [] => none
  | [c] => if c = '\x27' then some [] else none
  | c :: d :: rest =>
    if c = '\x27' then
      if d = '\x27' then (unquote? rest).map ('\x27' :: ·) else none
    else (unquote? (d :: rest)).map (c :: ·)

/-- The constant that a whole text is. -/
def readConstant? (s : String) : Option Constant :=
  match s.toList with
  | '\x27' :: rest => (unquote? rest).map fun cs => .quoted (String.ofList cs)
  | cs =>
    if s = "TRUE" then some (.truth true)
    else if s = "FALSE" then some (.truth false)
    else if isNumeral cs then some (.numeral cs)
    else none

/-- What a column of a type makes of a constant. -/
def Constant.value? : DataType → Constant → Option Value
  | .integer, numeral cs => (int64OfText? cs).map .integer
  | .float, numeral cs => (Binary64.ofText? cs).map .float
  | _, numeral _ => none
  | _, truth b => some (.boolean b)
  | type, quoted s => (type.coerce (.text s)).toOption

/-! ## Reading them -/

theorem unquote?_escapeQuotes (cs : List Char) :
    unquote? (escapeQuotes '\x27' cs ++ ['\x27']) = some cs := by
  induction cs with
  | nil => rfl
  | cons c cs ih =>
    rw [escapeQuotes]
    split
    · rename_i hc
      rw [List.cons_append, List.cons_append, unquote?, if_pos rfl, if_pos rfl, ih, hc]
      rfl
    · rename_i hc
      obtain ⟨d, ds, hds⟩ : ∃ d ds, escapeQuotes '\x27' cs ++ ['\x27'] = d :: ds :=
        List.exists_cons_of_ne_nil (by simp)
      rw [hds] at ih
      rw [List.cons_append, hds, unquote?, if_neg hc, ih]
      rfl

/-- A quoted text is read exactly if all quotes inside it are doubled. -/
theorem unquote?_eq_some {cs text : List Char} :
    unquote? cs = some text ↔ cs = escapeQuotes '\x27' text ++ ['\x27'] := by
  constructor
  · intro h
    induction cs using unquote?.induct generalizing text with
    | case1 => cases h
    | case2 =>
      cases h
      rfl
    | case3 c hc =>
      rw [unquote?, if_neg hc] at h
      cases h
    | case4 rest ih =>
      rw [unquote?, if_pos rfl, if_pos rfl] at h
      obtain ⟨inner, hinner, rfl⟩ := Option.map_eq_some_iff.1 h
      rw [ih hinner]
      rfl
    | case5 d rest hd =>
      rw [unquote?, if_pos rfl, if_neg hd] at h
      cases h
    | case6 c d rest hc ih =>
      rw [unquote?, if_neg hc] at h
      obtain ⟨inner, hinner, rfl⟩ := Option.map_eq_some_iff.1 h
      rw [ih hinner, escapeQuotes, if_neg hc, List.cons_append]
  · rintro rfl
    exact unquote?_escapeQuotes text

theorem readConstant?_quoteText (s : String) : readConstant? (quoteText s) = some (.quoted s) := by
  have htext : (quoteText s).toList = '\x27' :: (escapeQuotes '\x27' s.toList ++ ['\x27']) := by
    simp [quoteText]
  unfold readConstant?
  rw [htext]
  show (unquote? _).map _ = _
  rw [unquote?_eq_some.2 rfl, Option.map_some, String.ofList_toList]

theorem isNumeral_decimal (negative : Bool) {whole fraction : List Char} (hwhole : Digits whole)
    (hne : whole ≠ []) (hfraction : Digits fraction) :
    isNumeral ((signText negative).toList ++ decimalText whole fraction) = true := by
  have hwholeNe : whole.isEmpty = false := List.isEmpty_eq_false_iff.2 hne
  have hsign : takeSign ((signText negative).toList ++ decimalText whole fraction) =
      (negative, decimalText whole fraction) :=
    takeSign_signText negative (head_decimalText hwhole hne fraction)
  obtain ⟨htake, hdrop⟩ := takeWhile_digits hwhole (head_pointText fraction)
  unfold isNumeral
  rw [hsign]
  dsimp only
  rw [decimalText, htake, hdrop, hwholeNe]
  cases fraction with
  | nil => rfl
  | cons c cs => exact List.all_eq_true.2 hfraction

/-- A sign and digits with a point are a numeral, and nothing else. -/
theorem readConstant?_decimal (negative : Bool) {s : String} {whole fraction : List Char}
    (hwhole : Digits whole) (hne : whole ≠ []) (hfraction : Digits fraction)
    (hs : s.toList = (signText negative).toList ++ decimalText whole fraction) :
    readConstant? s = some (.numeral s.toList) := by
  have hnumeral : isNumeral s.toList = true := by
    rw [hs]
    exact isNumeral_decimal negative hwhole hne hfraction
  -- the first character tells it from the other constants
  obtain ⟨c, cs, hcs, hc⟩ : ∃ c cs, s.toList = c :: cs ∧ (c = '-' ∨ isDigit c = true) := by
    rw [hs]
    cases negative with
    | true => exact ⟨_, _, rfl, .inl rfl⟩
    | false =>
      obtain ⟨c, cs, hcs, hc⟩ := exists_cons_decimalText hwhole hne fraction
      exact ⟨c, cs, hcs, .inr hc⟩
  have hne {d : Char} (hminus : d ≠ '-') (hdigit : isDigit d = false) : c ≠ d := by
    rintro rfl
    rcases hc with hc | hc
    · exact hminus hc
    · rw [hdigit] at hc
      cases hc
  have htrue : s ≠ "TRUE" := by
    rintro rfl
    exact hne (d := 'T') (by decide) (by decide) (List.cons.inj hcs).1.symm
  have hfalse : s ≠ "FALSE" := by
    rintro rfl
    exact hne (d := 'F') (by decide) (by decide) (List.cons.inj hcs).1.symm
  unfold readConstant?
  split
  · rename_i heq
    rw [hcs] at heq
    exact absurd (List.cons.inj heq).1 (hne (by decide) (by decide))
  · rw [if_neg htrue, if_neg hfalse, if_pos hnumeral]

end Sql

/-! ## Literals -/

theorem DataType.coerce_of_convert? {type : DataType} {v w : Value}
    (h : type.isCompatible v = false) (hw : type.convert? v = some w) : type.coerce v = .ok w := by
  rw [coerce, h, if_neg Bool.false_ne_true, hw]

namespace Value

open RecordModel.Sql

/-- The type of which the value is one; null and lists have none. -/
def type? : Value → Option DataType
  | integer _ => some .integer
  | float _ => some .float
  | text _ => some .text
  | boolean _ => some .boolean
  | date _ => some .date
  | dateTime _ => some .dateTime
  | _ => none

/-- Not one of the floats that are no number. -/
def IsFinite : Value → Prop
  | float .nan => False
  | float (.infinity _) => False
  | _ => True

/-- Not a date and time with a fraction of a second. -/
def IsWhole : Value → Prop
  | dateTime t => t.time.nanosecond = 0
  | _ => True

/-- What the literal of the value keeps of it. -/
def kept : Value → Value
  | dateTime t => dateTime t.wholeSecond
  | v => v

/-- The literal is a constant, and a column of the type takes it for a value equal to this one. -/
def Denotes (type : DataType) (v : Value) : Prop :=
  ∃ k w, readConstant? v.literal = some k ∧ k.value? type = some w ∧ w.same v = true

/-- A quoted text is taken for what the type converts it to. -/
theorem value?_quoted {type : DataType} {s : String} {w : Value}
    (h : type.coerce (.text s) = .ok w) : (Constant.quoted s).value? type = some w := by
  have hvalue : (Constant.quoted s).value? type = (type.coerce (.text s)).toOption := by
    cases type <;> rfl
  rw [hvalue, h]
  rfl

/-- A printed date or time holds no quote, so none needs to be doubled. -/
theorem readConstant?_printParts (r : Reading) {parts : List Part}
    (h : ∀ p ∈ parts, isPlainPart p = true) :
    readConstant? ("'" ++ printParts r parts ++ "'") = some (.quoted (printParts r parts)) := by
  rw [← (plainText_printParts r h).quoteText_eq]
  exact readConstant?_quoteText _

/-- The literal of a finite value is a constant, and what it is read as. -/
theorem literal_reads {type : DataType} {v : Value} (htype : v.type? = some type)
    (hfinite : v.IsFinite) :
    ∃ k, readConstant? v.literal = some k ∧ k.value? type = some v.kept := by
  cases v with
  | null => cases htype
  | list items => cases htype
  | integer i =>
    cases htype
    have htext : (intText i.toInt).toList = (signText (i.toInt < 0)).toList ++
        decimalText (natText i.toInt.natAbs).toList [] := by
      rw [toList_intText, decimalText]
      exact congrArg _ (List.append_nil _).symm
    refine ⟨_, readConstant?_decimal _ (digits_natText _) (natText_ne_nil _) (by simp [Digits]) htext,
      ?_⟩
    exact congrArg (Option.map _) (int64OfText?_intText i)
  | float f =>
    cases htype
    cases f with
    | nan => cases hfinite
    | infinity => cases hfinite
    | finite negative magnitude =>
      obtain ⟨whole, fraction, hwhole, hne, hfraction, htext, -⟩ :=
        magnitudeText_decimal magnitude.representable
      refine ⟨_, readConstant?_decimal negative hwhole hne hfraction ?_, ?_⟩
      · rw [literal, Binary64.text, String.toList_append, htext]
      · exact congrArg (Option.map _) (Binary64.ofText?_text negative magnitude)
  | text s =>
    cases htype
    exact ⟨_, readConstant?_quoteText s, rfl⟩
  | boolean b =>
    cases htype
    cases b with
    | true => exact ⟨.truth true, rfl, rfl⟩
    | false => exact ⟨.truth false, rfl, rfl⟩
  | date d =>
    cases htype
    refine ⟨.quoted d.text, ?_, value?_quoted ?_⟩
    · exact readConstant?_printParts _ (by decide)
    · exact DataType.coerce_of_convert? rfl (congrArg (Option.map _) d.scan_text)
  | dateTime t =>
    cases htype
    refine ⟨.quoted t.text, ?_, value?_quoted ?_⟩
    · exact readConstant?_printParts _ (by decide)
    · exact DataType.coerce_of_convert? rfl (congrArg (Option.map _) t.scan_text)

/-- The floats that are no number are written as words. -/
theorem literal_of_not_finite {v : Value} (h : ¬ v.IsFinite) : v.literal ∈ ["NaN", "inf", "-inf"] := by
  cases v with
  | float f =>
    cases f with
    | nan => decide
    | infinity negative => cases negative <;> decide
    | finite => exact absurd trivial h
  | _ => exact absurd trivial h

/-- The words are no constants, and all other literals are. -/
theorem readConstant?_literal_iff {type : DataType} {v : Value} (htype : v.type? = some type) :
    (∃ k, readConstant? v.literal = some k) ↔ v.IsFinite := by
  constructor
  · rintro ⟨k, hk⟩
    by_contra hfinite
    have hnone : ∀ s ∈ ["NaN", "inf", "-inf"], readConstant? s = none := by decide
    rw [hnone _ (literal_of_not_finite hfinite)] at hk
    cases hk
  · intro hfinite
    obtain ⟨k, hk, -⟩ := literal_reads htype hfinite
    exact ⟨k, hk⟩

theorem literal_ne_empty {type : DataType} {v : Value} (htype : v.type? = some type) :
    v.literal ≠ "" := by
  intro hempty
  by_cases hfinite : v.IsFinite
  · obtain ⟨k, hk⟩ := (readConstant?_literal_iff htype).2 hfinite
    rw [hempty] at hk
    cases hk
  · have hword := literal_of_not_finite hfinite
    rw [hempty] at hword
    exact absurd hword (by decide)

/-- A default stands behind the rest of the definition of a column. -/
theorem columnDefinition_default {type : DataType} {v : Value} (htype : v.type? = some type)
    (d : Dialect) {f : Field} (h : f.default = some v) :
    d.columnDefinition f =
      d.columnDefinition { f with default := none } ++ " DEFAULT " ++ v.literal := by
  have hdefault : Dialect.defaultSql f = v.literal := by
    rw [Dialect.defaultSql, h]
    rfl
  have hsome : ¬ v.literal.isEmpty = true := by
    rw [String.isEmpty_iff]
    exact literal_ne_empty htype
  have hnone : d.columnDefinition { f with default := none } = d.typeSql f
      ++ (if Dialect.isNotNull f && !f.primaryKey then " NOT NULL" else "")
      ++ (if f.unique && !f.primaryKey then " UNIQUE" else "") := by
    cases d <;> exact String.append_empty
  rw [hnone, Dialect.columnDefinition, hdefault, if_neg hsome, ← String.append_assoc]

/-- The literal of a finite value denotes it exactly if it keeps all of it. -/
theorem denotes_iff {type : DataType} {v : Value} (htype : v.type? = some type)
    (hfinite : v.IsFinite) : Denotes type v ↔ v.kept.same v = true := by
  obtain ⟨k, hk, hvalue⟩ := literal_reads htype hfinite
  constructor
  · rintro ⟨k', w, hk', hvalue', hsame⟩
    rw [hk] at hk'
    cases hk'
    rw [hvalue] at hvalue'
    cases hvalue'
    exact hsame
  · exact fun hsame => ⟨k, v.kept, hk, hvalue, hsame⟩

theorem kept_same_iff {v : Value} : v.kept.same v = true ↔ v.IsWhole := by
  cases v with
  | dateTime t =>
    rw [kept, same, decide_eq_true_eq]
    refine ⟨fun h => ?_, fun h => ?_⟩
    · rw [IsWhole, ← h]
      rfl
    · have hzero : t.time.nanosecond = 0 := h
      cases t with
      | mk date time =>
        cases time with
        | mk hour minute second nanosecond inRange =>
          cases hzero
          rfl
  | _ => exact ⟨fun _ => trivial, fun _ => same_iff_imprint_eq.2 rfl⟩

/-- The default of a field is the last part of the definition of its column. The literal there is
a constant for all values of the six types but the floats that are no number, and it denotes the
value for all of those but the date-times with a fraction of a second. -/
theorem literal_denotes_iff {type : DataType} {v : Value} (htype : v.type? = some type) :
    (∀ (d : Dialect) (f : Field), f.default = some v →
      d.columnDefinition f =
        d.columnDefinition { f with default := none } ++ " DEFAULT " ++ v.literal) ∧
    ((∃ k, readConstant? v.literal = some k) ↔ v.IsFinite) ∧
    (Denotes type v ↔ v.IsFinite ∧ v.IsWhole) := by
  refine ⟨fun d f hf => columnDefinition_default htype d hf, readConstant?_literal_iff htype, ?_⟩
  constructor
  · intro h
    have hfinite : v.IsFinite := by
      obtain ⟨k, -, hk, -⟩ := h
      exact (readConstant?_literal_iff htype).1 ⟨k, hk⟩
    exact ⟨hfinite, kept_same_iff.1 ((denotes_iff htype hfinite).1 h)⟩
  · rintro ⟨hfinite, hwhole⟩
    exact (denotes_iff htype hfinite).2 (kept_same_iff.2 hwhole)

/-- The leap second at the end of a day in a year with a sign. -/
def leapSecond : DateTime := ⟨⟨-44, 3, 15, by decide⟩, 23, 59, 60, 0, by decide⟩

theorem leapSecond_denoted :
    (dateTime leapSecond).literal = "'-0044-03-15 23:59:60'" ∧
      Denotes .dateTime (dateTime leapSecond) :=
  ⟨by decide +kernel, (literal_denotes_iff (v := dateTime leapSecond) rfl).2.2.2 ⟨trivial, rfl⟩⟩

/-- Half a second after a minute has begun. -/
def halfSecond : DateTime := ⟨⟨2016, 3, 1, by decide⟩, 12, 34, 56, 500000000, by decide⟩

/-- The half second is left out, and `not a number` is no constant. -/
theorem halfSecond_not_denoted :
    ((dateTime halfSecond).literal = "'2016-03-01 12:34:56'" ∧
      ¬ Denotes .dateTime (dateTime halfSecond)) ∧
    ((float .nan).literal = "NaN" ∧ ¬ Denotes .float (float .nan)) := by
  refine ⟨⟨by decide +kernel, fun h => ?_⟩, rfl, ?_⟩
  · have hwhole := kept_same_iff.1 ((denotes_iff (v := dateTime halfSecond) rfl trivial).1 h)
    cases hwhole
  · rintro ⟨k, w, hk, -⟩
    cases hk

end Value

end RecordModel
