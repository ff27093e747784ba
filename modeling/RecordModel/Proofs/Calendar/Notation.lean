import Mathlib.Data.Nat.Digits.Defs
import RecordModel.Calendar.Notation
import RecordModel.Proofs.Number.Digits

/-!
# Written dates and times read back

A pattern is printed part by part and scanned part by part. A part that stands for two digits is
scanned as it was printed, whatever is behind it. A year takes all the digits that follow, and a
blank all the blanks, so behind these a pattern needs something else. `isClear` says that it
has it, and then the numbers that a pattern prints are those that it scans.

Results:
* `scanPart_printPart`: one part of a clear pattern is scanned as it was printed.
* `scanParts_printed`: a whole clear pattern gives back the numbers that it prints.
* `Date.scan_text`: the text of a date reads back as that date.
* `DateTime.scan_text`: the text of a date and time reads back as its whole second.
-/
namespace RecordModel.Calendar

open RecordModel.Text RecordModel.Number

/-! ## Padded numbers -/

theorem isBlank_of_isDigit {c : Char} (h : isDigit c = true) : isBlank c = false := by
  have hbounds := Char.isDigit_iff_toNat.1 h
  have hlow : 48 ≤ c.toNat := hbounds.1
  have hhigh : c.toNat ≤ 57 := hbounds.2
  simp only [isBlank, Bool.or_eq_false_iff, Bool.and_eq_false_iff, beq_eq_false_iff_ne,
    decide_eq_false_iff_not]
  omega

theorem digits_padded (width n : Nat) : Digits (padded width n) :=
  (digits_zeros _).append (digits_natText n)

theorem padded_ne_nil (width n : Nat) : padded width n ≠ [] :=
  List.append_ne_nil_of_right_ne_nil _ (natText_ne_nil n)

theorem digitsValue_padded (width n : Nat) : digitsValue (padded width n) = n := by
  rw [padded, digitsValue_zeros_append, digitsValue_natText]

theorem length_padded {width n : Nat} (hw : 0 < width) (hn : n < tenPow width) :
    (padded width n).length = width := by
  have hlength : (natText n).toList.length ≤ width := by
    rw [toList_natText]
    exact Nat.toDigits_length 10 n width hw hn
  rw [padded, List.length_append, List.length_replicate]
  omega

/-- A padded number starts with a digit, whatever is behind it. -/
theorem exists_cons_padded (width n : Nat) (rest : List Char) :
    ∃ c cs, padded width n ++ rest = c :: cs ∧ isDigit c = true := by
  obtain ⟨c, cs, hcs⟩ := List.exists_cons_of_ne_nil (padded_ne_nil width n)
  exact ⟨c, cs ++ rest, by rw [hcs, List.cons_append],
    digits_padded width n c (hcs ▸ List.mem_cons_self)⟩

theorem trimStart_padded (width n : Nat) (rest : List Char) :
    trimStart (padded width n ++ rest) = padded width n ++ rest := by
  obtain ⟨c, cs, hcs, hc⟩ := exists_cons_padded width n rest
  rw [hcs, trimStart_of_head (isBlank_of_isDigit hc)]

/-! ## Scanning a number -/

/-- Digits are scanned whole if they are as many as the scanner takes, or no digit follows. -/
theorem scanDigits_digits {width : Nat} {digits rest : List Char} (hdigits : Digits digits)
    (hne : digits ≠ []) (hwidth : digits.length ≤ width)
    (hend : digits.length = width ∨ ∀ c ∈ rest.head?, isDigit c = false) :
    scanDigits width (digits ++ rest) = some (digitsValue digits, rest) := by
  have hhead : ∀ c ∈ (rest.take (width - digits.length)).head?, isDigit c = false := by
    intro c hc
    rcases hend with hall | hrest
    · rw [hall, Nat.sub_self, List.take_zero] at hc
      cases hc
    · refine hrest c ?_
      rw [List.head?_take] at hc
      split at hc
      · cases hc
      · exact hc
  unfold scanDigits
  dsimp only
  rw [List.take_append, List.take_of_length_le hwidth, (takeWhile_digits hdigits hhead).1,
    List.isEmpty_eq_false_iff.2 hne, if_neg Bool.false_ne_true, List.drop_left]

theorem scanNumber_padded {n : Nat} (hn : n < 100) (rest : List Char) :
    scanNumber 2 (padded 2 n ++ rest) = some (n, rest) := by
  have hlength : (padded 2 n).length = 2 := length_padded (by decide) hn
  rw [scanNumber, trimStart_padded, scanDigits_digits (digits_padded 2 n) (padded_ne_nil 2 n)
    hlength.le (.inl hlength), digitsValue_padded]

theorem scanYear_minus (cs : List Char) :
    scanYear ('-' :: cs) = (scanDigits cs.length cs).map fun p => (-(p.1 : Int), p.2) := rfl

theorem scanYear_plus (cs : List Char) :
    scanYear ('+' :: cs) = (scanDigits cs.length cs).map fun p => ((p.1 : Int), p.2) := rfl

theorem scanYear_digit {c : Char} (h : isDigit c = true) (cs : List Char) :
    scanYear (c :: cs) = (scanDigits 4 (c :: cs)).map fun p => ((p.1 : Int), p.2) := by
  unfold scanYear
  rw [trimStart_of_head (isBlank_of_isDigit h)]
  split
  · rename_i heq
    cases heq
    exact absurd h (by decide)
  · rename_i heq
    cases heq
    exact absurd h (by decide)
  · rfl

/-- A year is scanned as it was printed, if no digit follows. -/
theorem scanYear_yearText (year : Int) {rest : List Char}
    (hrest : ∀ c ∈ rest.head?, isDigit c = false) :
    scanYear (yearText year ++ rest) = some (year, rest) := by
  have hscan {width n : Nat} (hwidth : (padded 4 n).length ≤ width) :
      scanDigits width (padded 4 n ++ rest) = some (n, rest) := by
    rw [scanDigits_digits (digits_padded 4 n) (padded_ne_nil 4 n) hwidth (.inr hrest),
      digitsValue_padded]
  unfold yearText
  split
  · rename_i hplain
    have hsmall : year.toNat < 10000 := by omega
    have hlength : (padded 4 year.toNat).length = 4 := length_padded (by decide) hsmall
    have hyear : (year.toNat : Int) = year := by omega
    obtain ⟨c, cs, hcs, hc⟩ := exists_cons_padded 4 year.toNat rest
    rw [hcs, scanYear_digit hc, ← hcs, hscan hlength.le, Option.map_some, hyear]
  · have hlength : (padded 4 year.natAbs).length ≤ (padded 4 year.natAbs ++ rest).length := by
      rw [List.length_append]
      omega
    split
    · have hyear : -(year.natAbs : Int) = year := by omega
      rw [List.cons_append, scanYear_minus, hscan hlength, Option.map_some, hyear]
    · have hyear : (year.natAbs : Int) = year := by omega
      rw [List.cons_append, scanYear_plus, hscan hlength, Option.map_some, hyear]

/-! ## Patterns -/

/-- May the part stand in front of the next one, or at the end? -/
def Part.isClear : Part → Option Part → Bool
  | .year, some (.mark c) => !isDigit c
  | .year, some .blank => true
  | .year, some _ => false
  | .blank, some (.mark c) => !isBlank c
  | .blank, some .blank => false
  | .blank, some .fraction => false
  | .fraction, _ => false
  | _, _ => true

/-- Is every part told apart from the one behind it, and none a fraction? -/
def isClear : List Part → Bool
  | [] => true
  | part :: parts => part.isClear parts.head? && isClear parts

/-- All numbers but the year and the nanosecond have two digits at most. -/
structure Reading.Short (r : Reading) : Prop where
  month : r.month < 100
  day : r.day < 100
  hour : r.hour < 100
  minute : r.minute < 100
  second : r.second < 100

/-- A reading with the number of one part taken over from another one. -/
def Reading.take (r source : Reading) : Part → Reading
  | .year => { r with year := source.year }
  | .month => { r with month := source.month }
  | .day => { r with day := source.day }
  | .hour => { r with hour := source.hour }
  | .minute => { r with minute := source.minute }
  | .second => { r with second := source.second }
  | .fraction => { r with nanosecond := source.nanosecond }
  | .mark _ => r
  | .blank => r

variable {source : Reading}

theorem exists_cons_yearText (year : Int) (rest : List Char) :
    ∃ c cs, yearText year ++ rest = c :: cs ∧ isBlank c = false := by
  unfold yearText
  split
  · obtain ⟨c, cs, hcs, hc⟩ := exists_cons_padded 4 year.toNat rest
    exact ⟨c, cs, hcs, isBlank_of_isDigit hc⟩
  · refine ⟨_, _, rfl, ?_⟩
    split <;> decide

/-- No digit stands behind a year. -/
theorem head_behind_year {parts : List Part} (h : Part.year.isClear parts.head? = true) :
    ∀ c ∈ (parts.flatMap (printPart source)).head?, isDigit c = false := by
  intro c hc
  cases parts with
  | nil => cases hc
  | cons part parts =>
    rw [List.flatMap_cons] at hc
    cases part with
    | mark d =>
      have hdigit : (!isDigit d) = true := h
      rw [Bool.not_eq_true'] at hdigit
      cases hc
      exact hdigit
    | blank =>
      cases hc
      decide
    | _ => cases h

/-- No blank stands behind a blank. -/
theorem head_behind_blank {parts : List Part} (h : Part.blank.isClear parts.head? = true) :
    ∀ c ∈ (parts.flatMap (printPart source)).head?, isBlank c = false := by
  have hnumber (n : Nat) (rest : List Char) :
      ∀ c ∈ (padded 2 n ++ rest).head?, isBlank c = false := by
    obtain ⟨d, ds, hds, hd⟩ := exists_cons_padded 2 n rest
    rw [hds]
    intro c hc
    cases hc
    exact isBlank_of_isDigit hd
  cases parts with
  | nil =>
    intro c hc
    cases hc
  | cons part parts =>
    rw [List.flatMap_cons]
    cases part with
    | year =>
      obtain ⟨d, ds, hds, hd⟩ := exists_cons_yearText source.year (parts.flatMap (printPart source))
      rw [printPart, hds]
      intro c hc
      cases hc
      exact hd
    | month | day | hour | minute | second => exact hnumber _ _
    | mark d =>
      have hblank : (!isBlank d) = true := h
      rw [Bool.not_eq_true'] at hblank
      intro c hc
      cases hc
      exact hblank
    | fraction => cases h
    | blank => cases h

/-- One part of a clear pattern is scanned as it was printed. -/
theorem scanPart_printPart (hshort : source.Short) {part : Part} {parts : List Part}
    (h : part.isClear parts.head? = true) (r : Reading) :
    scanPart r (printPart source part ++ parts.flatMap (printPart source)) part =
      some (r.take source part, parts.flatMap (printPart source)) := by
  cases part with
  | year => rw [printPart, scanPart, scanYear_yearText _ (head_behind_year h)]; rfl
  | month => rw [printPart, scanPart, scanNumber_padded hshort.month]; rfl
  | day => rw [printPart, scanPart, scanNumber_padded hshort.day]; rfl
  | hour => rw [printPart, scanPart, scanNumber_padded hshort.hour]; rfl
  | minute => rw [printPart, scanPart, scanNumber_padded hshort.minute]; rfl
  | second => rw [printPart, scanPart, scanNumber_padded hshort.second]; rfl
  | fraction => cases h
  | mark c => exact if_pos rfl
  | blank =>
    have hhead := @head_behind_blank source parts h
    -- the printed blank is skipped, and what follows starts with none
    show some (r, trimStart (parts.flatMap (printPart source))) = _
    cases hrest : parts.flatMap (printPart source) with
    | nil => rfl
    | cons c cs =>
      rw [hrest] at hhead
      rw [trimStart_of_head (hhead c rfl)]
      rfl

/-- A whole clear pattern gives back the numbers that it prints. -/
theorem scanParts_printed (hshort : source.Short) {parts : List Part} (h : isClear parts = true)
    (r : Reading) :
    scanParts r (parts.flatMap (printPart source)) parts =
      some (parts.foldl (fun r part => r.take source part) r) := by
  induction parts generalizing r with
  | nil => rfl
  | cons part parts ih =>
    rw [isClear, Bool.and_eq_true] at h
    rw [List.flatMap_cons, scanParts, scanPart_printPart hshort h.1]
    exact ih h.2 _

/-! ## Dates and times -/

/-- A month and a day of the calendar have two digits at most. -/
theorem Date.short (d : Date) : d.month < 100 ∧ d.day < 100 := by
  obtain ⟨-, -, hpos, hday⟩ := d.inCalendar
  have hmonth : d.month ≤ 12 ∧ daysIn d.year d.month ≤ 31 := by
    generalize d.month = month at hday
    unfold daysIn at hday ⊢
    split
    all_goals grind
  omega

theorem DateTime.reading_short (t : DateTime) : t.reading.Short := by
  obtain ⟨hour, minute, second, -⟩ := t.time.inRange
  exact ⟨t.date.short.1, t.date.short.2, hour.trans (by decide), minute.trans (by decide),
    second.trans_lt (by decide)⟩

theorem Time.of?_self (t : Time) : Time.of? t.hour t.minute t.second t.nanosecond = some t := by
  rw [Time.of?, dif_pos t.inRange]

theorem Date.scan_text (d : Date) : Date.scan d.text.toList = some d := by
  have hshort : Reading.Short { Reading.start with year := d.year, month := d.month, day := d.day } :=
    ⟨d.short.1, d.short.2, Nat.zero_lt_succ _, Nat.zero_lt_succ _, Nat.zero_lt_succ _⟩
  have hclear : isClear datePattern = true := rfl
  rw [Date.text, printParts, String.toList_ofList, Date.scan, scanParts_printed hshort hclear,
    Option.bind_some]
  exact d.of?_self

/-- A date and time without its fraction of a second. -/
def DateTime.wholeSecond (t : DateTime) : DateTime :=
  ⟨t.date, t.time.hour, t.time.minute, t.time.second, 0, by
    have h := t.time.inRange
    omega⟩

/-- The text of a date and time is read in the first pattern, and without the fraction. -/
theorem DateTime.scan_text (t : DateTime) : DateTime.scan t.text.toList = some t.wholeSecond := by
  have hclear : isClear dateTimePattern = true := rfl
  have hscan : DateTime.scanAs dateTimePattern t.text.toList = some t.wholeSecond := by
    rw [DateTime.text, printParts, String.toList_ofList, DateTime.scanAs,
      scanParts_printed t.reading_short hclear, Option.bind_some]
    show (Date.of? t.date.year t.date.month t.date.day).bind _ = _
    rw [t.date.of?_self, Option.bind_some]
    exact congrArg (Option.map _) t.wholeSecond.time.of?_self
  rw [DateTime.scan, dateTimePatterns, List.findSome?_cons, hscan]

end RecordModel.Calendar
