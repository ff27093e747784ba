import RecordModel.Calendar.Basic
import RecordModel.Number.Decimal
import RecordModel.Text.Blank

/-!
# Written dates and times

A pattern is a list of parts; one scanner and one printer serve all patterns. In
scanning, blanks may stand in front of a number, numbers need not be padded, a blank of
the pattern matches any run of blanks, and a year has at most four digits unless it is
signed. In printing, numbers are padded and years outside 0 to 9999 are signed.

Results:
* `scanParts_nil`: a pattern that is used up accepts the end of the text only.
-/
namespace RecordModel.Calendar

open RecordModel.Text RecordModel.Number

/-- One part of a pattern. -/
inductive Part where
  | year
  | month
  | day
  | hour
  | minute
  | second
  /-- Nothing, or a point and the digits of a fraction of a second. -/
  | fraction
  | mark (c : Char)
  | blank
  deriving DecidableEq

/-- `2016-03-01` -/
def datePattern : List Part := [.year, .mark '-', .month, .mark '-', .day]

def clockPattern : List Part := [.hour, .mark ':', .minute, .mark ':', .second]

/-- `2016-03-01 12:34:56`, the written form of a date and time. -/
def dateTimePattern : List Part := datePattern ++ .blank :: clockPattern

/-- `2016-03-01T12:34:56` -/
def joinedPattern : List Part := datePattern ++ .mark 'T' :: clockPattern

/-- `2016-03-01T12:34:56.789`, with the fraction of the second. -/
def exactPattern : List Part := joinedPattern ++ [.fraction]

/-- The patterns of a date and time that are tried, in this order. -/
def dateTimePatterns : List (List Part) :=
  [dateTimePattern, joinedPattern, dateTimePattern ++ [.fraction]]

/-- The numbers scanned so far. -/
structure Reading where
  year : Int
  month : Nat
  day : Nat
  hour : Nat
  minute : Nat
  second : Nat
  nanosecond : Nat

def Reading.start : Reading := ⟨0, 0, 0, 0, 0, 0, 0⟩

/-! ## Scanning -/

/-- At most `width` digits, at least one, and the rest. -/
def scanDigits (width : Nat) (cs : List Char) : Option (Nat × List Char) :=
  let digits := (cs.take width).takeWhile isDigit
  if digits.isEmpty then none else some (digitsValue digits, cs.drop digits.length)

/-- A number of at most `width` digits after any blanks. -/
def scanNumber (width : Nat) (cs : List Char) : Option (Nat × List Char) :=
  scanDigits width (trimStart cs)

/-- A year: four digits at most, or a sign and any number of digits. -/
def scanYear (cs : List Char) : Option (Int × List Char) :=
  match trimStart cs with
  | '-' :: rest => (scanDigits rest.length rest).map fun (n, rest) => (-n, rest)
  | '+' :: rest => (scanDigits rest.length rest).map fun (n, rest) => (n, rest)
  | rest => (scanDigits 4 rest).map fun (n, rest) => (n, rest)

/-- Digits of a fraction as nanoseconds; those beyond nine are dropped. -/
def scanFraction (cs : List Char) : Option (Nat × List Char) :=
  let digits := (cs.take 9).takeWhile isDigit
  if digits.isEmpty then none
  else
    some (digitsValue digits * tenPow (9 - digits.length), (cs.drop digits.length).dropWhile isDigit)

/-- Scan one part. -/
def scanPart (r : Reading) (cs : List Char) : Part → Option (Reading × List Char)
  | .year => (scanYear cs).map fun (n, rest) => ({ r with year := n }, rest)
  | .month => (scanNumber 2 cs).map fun (n, rest) => ({ r with month := n }, rest)
  | .day => (scanNumber 2 cs).map fun (n, rest) => ({ r with day := n }, rest)
  | .hour => (scanNumber 2 cs).map fun (n, rest) => ({ r with hour := n }, rest)
  | .minute => (scanNumber 2 cs).map fun (n, rest) => ({ r with minute := n }, rest)
  | .second => (scanNumber 2 cs).map fun (n, rest) => ({ r with second := n }, rest)
  | .fraction =>
    match cs with
    | '.' :: rest => (scanFraction rest).map fun (n, rest) => ({ r with nanosecond := n }, rest)
    | _ => some (r, cs)
  | .mark c =>
    match cs with
    | d :: rest => if c = d then some (r, rest) else none
    | [] => none
  | .blank => some (r, trimStart cs)

/-- Scan a whole text. -/
def scanParts (r : Reading) (cs : List Char) : List Part → Option Reading
  | [] => if cs.isEmpty then some r else none
  | part :: parts =>
    match scanPart r cs part with
    | some (r, rest) => scanParts r rest parts
    | none => none

def Date.scan (cs : List Char) : Option Date :=
  (scanParts .start cs datePattern).bind fun r => Date.of? r.year r.month r.day

/-- A date and time in one pattern. -/
def DateTime.scanAs (pattern : List Part) (cs : List Char) : Option DateTime :=
  (scanParts .start cs pattern).bind fun r =>
    (Date.of? r.year r.month r.day).bind fun date =>
      (Time.of? r.hour r.minute r.second r.nanosecond).map fun time => ⟨date, time⟩

/-- A date and time in the first pattern that fits. -/
def DateTime.scan (cs : List Char) : Option DateTime :=
  dateTimePatterns.findSome? fun pattern => DateTime.scanAs pattern cs

/-! ## Printing -/

/-- The digits of `n`, zeros in front up to `width`. -/
def padded (width n : Nat) : List Char :=
  let digits := (natText n).toList
  List.replicate (width - digits.length) '0' ++ digits

def yearText (year : Int) : List Char :=
  if 0 ≤ year ∧ year ≤ 9999 then padded 4 year.toNat
  else (if year < 0 then '-' else '+') :: padded 4 year.natAbs

/-- Nothing for a whole second, else 3, 6 or 9 digits after a point. -/
def fractionText (nanosecond : Nat) : List Char :=
  if nanosecond = 0 then []
  else if nanosecond % 1000000 = 0 then '.' :: padded 3 (nanosecond / 1000000)
  else if nanosecond % 1000 = 0 then '.' :: padded 6 (nanosecond / 1000)
  else '.' :: padded 9 nanosecond

def printPart (r : Reading) : Part → List Char
  | .year => yearText r.year
  | .month => padded 2 r.month
  | .day => padded 2 r.day
  | .hour => padded 2 r.hour
  | .minute => padded 2 r.minute
  | .second => padded 2 r.second
  | .fraction => fractionText r.nanosecond
  | .mark c => [c]
  | .blank => [' ']

def printParts (r : Reading) (parts : List Part) : String :=
  String.ofList (parts.flatMap (printPart r))

def Date.text (d : Date) : String :=
  printParts { Reading.start with year := d.year, month := d.month, day := d.day } datePattern

def DateTime.reading (t : DateTime) : Reading :=
  ⟨t.date.year, t.date.month, t.date.day, t.time.hour, t.time.minute, t.time.second,
    t.time.nanosecond⟩

/-- A date and time to the second. -/
def DateTime.text (t : DateTime) : String := printParts t.reading dateTimePattern

/-- A date and time with its fraction of a second. -/
def DateTime.exactText (t : DateTime) : String := printParts t.reading exactPattern

theorem scanParts_nil {r r' : Reading} {cs : List Char} :
    scanParts r cs [] = some r' ↔ cs = [] ∧ r = r' := by
  cases cs <;> simp [scanParts]

end RecordModel.Calendar
