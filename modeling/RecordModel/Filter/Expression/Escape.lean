/-!
# Escapes inside marked texts

A text marked with `E` writes quotes, backslashes and some blanks behind a backslash, and
may give a character by its number. A text marked with `U&` gives characters by their
numbers alone. Characters that are written as they are stand for themselves.

Results:
* `unescape_escape`: reading what `escape` writes gives the characters back.
-/
namespace RecordModel.Filter

/-! ## Characters by number -/

/-- The value of a digit in a base of at most sixteen. -/
def digitIn? (base : Nat) (c : Char) : Option Nat :=
  let value :=
    if '0' ≤ c ∧ c ≤ '9' then c.toNat - 48
    else if 'a' ≤ c ∧ c ≤ 'f' then c.toNat - 87
    else if 'A' ≤ c ∧ c ≤ 'F' then c.toNat - 55
    else 16
  if value < base then some value else none

/-- The number that digits in a base denote; none where some are no digits. -/
def numberIn? (base : Nat) (cs : List Char) : Option Nat :=
  cs.foldlM (fun n c => (digitIn? base c).map (base * n + ·)) 0

/-- The character of a number. -/
def charOf? (n : Nat) : Option Char := if n.isValidChar then some (Char.ofNat n) else none

/-- The character that exactly `count` digits of base sixteen give. -/
def charOfDigits? (count : Nat) (cs : List Char) : Option Char :=
  let digits := cs.take count
  if digits.length = count then (numberIn? 16 digits).bind charOf? else none

/-- The seven-bit character of a number, of which the lowest byte counts. -/
def asciiOf? (n : Nat) : Option Char :=
  if n % 256 < 128 then some (Char.ofNat (n % 256)) else none

/-! ## Texts marked with E -/

/-- The character that the escape `c` stands for, and how many characters of the rest
belong to it. -/
def escapeAt (c : Char) (rest : List Char) : Option (Char × Nat) :=
  match c with
  | 'b' => some ('\x08', 0)
  | 'f' => some ('\x0c', 0)
  | 'n' => some ('\n', 0)
  | 'r' => some ('\r', 0)
  | 't' => some ('\t', 0)
  | 'u' => (charOfDigits? 4 rest).map (·, 4)
  | 'U' => (charOfDigits? 8 rest).map (·, 8)
  | 'x' =>
    let digits := (rest.take 2).takeWhile fun d => (digitIn? 16 d).isSome
    if digits.isEmpty then some ('x', 0)
    else ((numberIn? 16 digits).bind asciiOf?).map (·, digits.length)
  | c =>
    if (digitIn? 8 c).isSome then
      let more := (rest.take 2).takeWhile fun d => (digitIn? 8 d).isSome
      ((numberIn? 8 (c :: more)).bind asciiOf?).map (·, more.length)
    else some (c, 0)

/-- The characters that the body of a text marked with `E` stands for. No escape may
stand for the character zero. -/
def unescape : List Char → Option (List Char)
  | [] => some []
  | '\\' :: c :: rest =>
    match escapeAt c rest with
    | some (d, count) => if d = '\x00' then none else (unescape (rest.drop count)).map (d :: ·)
    | none => none
  | '\x27' :: '\x27' :: rest => (unescape rest).map ('\x27' :: ·)
  | c :: rest => (unescape rest).map (c :: ·)
termination_by cs => cs.length
decreasing_by all_goals simp only [List.length_cons, List.length_drop]; omega

/-- The body of a text marked with `E`. -/
def escape : List Char → List Char
  | [] => []
  | '\x27' :: rest => '\\' :: '\x27' :: escape rest
  | '\\' :: rest => '\\' :: '\\' :: escape rest
  | '\n' :: rest => '\\' :: 'n' :: escape rest
  | '\t' :: rest => '\\' :: 't' :: escape rest
  | '\r' :: rest => '\\' :: 'r' :: escape rest
  | c :: rest => c :: escape rest

theorem unescape_escape (cs : List Char) : unescape (escape cs) = some cs := by
  fun_induction escape cs with
  | case1 => simp [unescape]
  | case2 rest ih => simp [unescape, escapeAt, digitIn?, ih]
  | case3 rest ih => simp [unescape, escapeAt, digitIn?, ih]
  | case4 rest ih => simp [unescape, escapeAt, ih]
  | case5 rest ih => simp [unescape, escapeAt, ih]
  | case6 rest ih => simp [unescape, escapeAt, ih]
  | case7 rest c hq hb _ _ _ ih =>
    rw [unescape] <;> simp_all

/-! ## Texts marked with U& -/

/-- The characters that the body of a text marked with `U&` stands for. -/
def unescapeNumbers : List Char → Option (List Char)
  | [] => some []
  | '\\' :: '\\' :: rest => (unescapeNumbers rest).map ('\\' :: ·)
  | '\\' :: '+' :: rest =>
    match charOfDigits? 6 rest with
    | some c => (unescapeNumbers (rest.drop 6)).map (c :: ·)
    | none => none
  | '\\' :: rest =>
    match charOfDigits? 4 rest with
    | some c => (unescapeNumbers (rest.drop 4)).map (c :: ·)
    | none => none
  | c :: rest => (unescapeNumbers rest).map (c :: ·)
termination_by cs => cs.length
decreasing_by all_goals simp only [List.length_cons, List.length_drop]; omega

/-- The digits of a number in base sixteen, as many as `width` at least. -/
def hexDigits (width n : Nat) : List Char :=
  let digits := (Nat.toDigits 16 n).map Char.toUpper
  List.replicate (width - digits.length) '0' ++ digits

/-- The body of a text marked with `U&`. -/
def escapeNumbers : List Char → List Char
  | [] => []
  | '\x27' :: rest => '\x27' :: '\x27' :: escapeNumbers rest
  | '\\' :: rest => '\\' :: '\\' :: escapeNumbers rest
  | c :: rest =>
    (if c.toNat < 128 then [c]
      else if c.toNat < 65536 then '\\' :: hexDigits 4 c.toNat
      else '\\' :: '+' :: hexDigits 6 c.toNat) ++ escapeNumbers rest

end RecordModel.Filter
