import RecordModel.Proofs.Number.Digits
import RecordModel.Proofs.Number.Rounding

/-!
# The shortest text reads back

The search for the shortest text tries finer and finer decimal grids. The finest of them has more
than one point in every step of the format, so that the search ends on a point in the interval
around the number; the text spells this point, reading gives it back, and as it lies in the
interval it is rounded to the number.

Results:
* `shortest_holds`: the search ends on a point in the interval.
* `magnitudeOfText?_decimal`: what digits with a point read as.
* `Binary64.ofText?_text`: the plain text of a finite number reads back as that number.
-/
namespace RecordModel.Number

/-! ## Powers -/

theorem twoPow_lt {m n : Nat} (h : m < n) : twoPow m < twoPow n := Nat.pow_lt_pow_right (by decide) h

theorem tenPow_pos (n : Nat) : 0 < tenPow n := Nat.pow_pos (by decide)

theorem tenPow_add (m n : Nat) : tenPow (m + n) = tenPow m * tenPow n := Nat.pow_add 10 m n

theorem twoPow_le_tenPow (n : Nat) : twoPow (3 * n) ≤ tenPow n := by
  have height : twoPow (3 * n) = 8 ^ n := Nat.pow_mul 2 3 n
  rw [height]
  exact Nat.pow_le_pow_left (by decide) n

/-! ## Points of a grid -/

/-- Whether a fraction lies in an interval does not depend on how it is written. -/
theorem Interval.holds_scale (i : Interval) (n d : Nat) {c : Nat} (hc : 0 < c) :
    i.holds (n * c) (d * c) = i.holds n d := by
  simp only [holds, ← Nat.mul_assoc, Nat.mul_le_mul_right_iff hc, Nat.mul_lt_mul_right hc]

/-- Is the point `point * 10 ^ exponent` in the interval? -/
def Interval.holdsPoint (i : Interval) (point : Nat) (exponent : Int) : Bool :=
  i.holds (point * (gridStep exponent).1) (gridStep exponent).2

/-- Zeros at the end of a point count in the exponent. -/
theorem Interval.holdsPoint_shift (i : Interval) (point j : Nat) (exponent : Int) :
    i.holdsPoint (point * tenPow j) exponent = i.holdsPoint point (exponent + j) := by
  unfold holdsPoint gridStep
  generalize unitsPerOne = units
  by_cases hwhole : 0 ≤ exponent
  · have hpower : (exponent + j).toNat = exponent.toNat + j := by omega
    have hsame : point * tenPow j * (4 * units * tenPow exponent.toNat) =
        point * (4 * units * (tenPow exponent.toNat * tenPow j)) := by ring
    rw [if_pos hwhole, if_pos (by omega), hpower, tenPow_add]
    exact congrArg (i.holds · 1) hsame
  · rw [if_neg hwhole]
    by_cases hreached : 0 ≤ exponent + j
    · have hpower : j = (exponent + j).toNat + (-exponent).toNat := by omega
      have hsame : point * tenPow j * (4 * units) = point * (4 * units *
          tenPow (exponent + j).toNat) * tenPow (-exponent).toNat := by
        rw [hpower, tenPow_add, ← hpower]
        ring
      rw [if_pos hreached, ← i.holds_scale _ 1 (tenPow_pos (-exponent).toNat), Nat.one_mul]
      exact congrArg (i.holds · _) hsame
    · have hpower : (-exponent).toNat = (-(exponent + j)).toNat + j := by omega
      have hsame : point * tenPow j * (4 * units) = point * (4 * units) * tenPow j := by ring
      rw [if_neg hreached, hpower, tenPow_add]
      dsimp only
      rw [hsame, i.holds_scale _ _ (tenPow_pos j)]

theorem gridStep_pos (exponent : Int) : 0 < (gridStep exponent).1 := by
  have hunits : 0 < 4 * unitsPerOne := Nat.mul_pos (by decide) (twoPow_pos _)
  unfold gridStep
  split
  · exact Nat.mul_pos hunits (tenPow_pos _)
  · exact hunits

/-- A grid whose step is shorter than the upper half of an interval has a point in it. -/
theorem gridPoint_isSome {tieUp : Bool} {i : Interval} {exponent : Int} (hlow : i.low ≤ i.value)
    (hstep : i.value * (gridStep exponent).2 + (gridStep exponent).1 <
      i.high * (gridStep exponent).2) : (gridPoint tieUp i exponent).isSome = true := by
  obtain ⟨n, d, hgrid⟩ : ∃ n d, gridStep exponent = (n, d) := ⟨_, _, rfl⟩
  have hn : 0 < n := by
    have hpos := gridStep_pos exponent
    rwa [hgrid] at hpos
  rw [hgrid] at hstep
  -- the point above the value lies behind it, and by less than a step
  have hupper : i.holds ((i.value * d / n + 1) * n) d = true := by
    have hbehind : i.value * d < (i.value * d / n + 1) * n := Nat.lt_mul_of_div_lt (by omega) hn
    have hnear : (i.value * d / n + 1) * n ≤ i.value * d + n := by
      rw [Nat.succ_mul]
      exact Nat.add_le_add_right (Nat.div_mul_le_self _ _) n
    have hstart : i.low * d ≤ i.value * d := Nat.mul_le_mul_right d hlow
    dsimp only at hstep
    unfold Interval.holds
    split <;> simp only [Bool.and_eq_true, decide_eq_true_eq] <;> omega
  unfold gridPoint
  rw [hgrid]
  dsimp only
  rw [hupper]
  split
  · split
    · rfl
    split
    · rfl
    split <;> rfl
  · split <;> rfl

/-- The search ends on a point if one of the grids that it may try has one. -/
theorem searchGrid_found {tieUp : Bool} {i : Interval} {fuel k : Nat} {start : Int} (hk : k < fuel)
    (hsome : (gridPoint tieUp i (start - k)).isSome = true) {point : Nat} {exponent : Int}
    (h : searchGrid tieUp i fuel start = (point, exponent)) :
    gridPoint tieUp i exponent = some point := by
  induction fuel generalizing start k with
  | zero => exact absurd hk (Nat.not_lt_zero k)
  | succ fuel ih =>
    rw [searchGrid] at h
    split at h
    · rename_i digits hdigits
      cases h
      exact hdigits
    · rename_i hnone
      -- the first grid has no point, so that it is a later one that has
      cases k with
      | zero =>
        rw [Int.natCast_zero, Int.sub_zero, hnone] at hsome
        cases hsome
      | succ k =>
        refine ih (k := k) (by omega) ?_ h
        have hshift : start - 1 - (k : Int) = start - ((k + 1 : Nat) : Int) := by omega
        rw [hshift]
        exact hsome

/-- The last grid that is tried is finer than the steps of the format. -/
theorem last_gridStep_lt {units : Nat} (h : Representable units) :
    (gridStep (topExponent units - 399)).1 <
      2 * spacing units * (gridStep (topExponent units - 399)).2 := by
  have hlog : units.log2 < 2098 := by
    by_cases hzero : units = 0
    · rw [hzero]; decide
    · exact (lt_twoPow_iff hzero).1 h.2
  obtain ⟨a, hne, ha, hexponent⟩ : ∃ a : Nat, a ≠ 0 ∧ 1 + 1074 < units.log2 - 52 + 3 * a ∧
      topExponent units - 399 = -(a : Int) := by
    refine ⟨(399 - topExponent units).toNat, ?_⟩
    unfold topExponent
    dsimp only
    split <;> omega
  rw [hexponent, gridStep, if_neg (by omega), Int.neg_neg, Int.toNat_natCast]
  dsimp only
  have hunits : 4 * unitsPerOne = 2 * twoPow (1 + 1074) := by
    have hone : twoPow 1 = 2 := rfl
    rw [twoPow_add, hone, ← Nat.mul_assoc, unitsPerOne]
  rw [hunits, Nat.mul_assoc]
  refine Nat.mul_lt_mul_of_pos_left ?_ (by decide)
  calc twoPow (1 + 1074) < twoPow (units.log2 - 52 + 3 * a) := twoPow_lt ha
    _ = spacing units * twoPow (3 * a) := twoPow_add _ _
    _ ≤ spacing units * tenPow a := Nat.mul_le_mul_left _ (twoPow_le_tenPow a)

/-- The search ends on a point that is rounded to the number. -/
theorem shortest_holds {tieUp : Bool} {units : Nat} (h : Representable units) {point : Nat}
    {exponent : Int} (hsearch : shortest tieUp units = (point, exponent)) :
    (Interval.around units).holdsPoint point exponent = true := by
  have hlast : (gridPoint tieUp (.around units) (topExponent units - (399 : Nat))).isSome = true := by
    refine gridPoint_isSome (Nat.sub_le _ _) ?_
    have hstep := last_gridStep_lt h
    have hexponent : topExponent units - (399 : Nat) = topExponent units - 399 := rfl
    rw [hexponent, Interval.around, Nat.add_mul]
    dsimp only
    omega
  exact gridPoint_fits (searchGrid_found (by decide) hlast hsearch)

/-! ## Decimals -/

/-- The least fraction in the interval around a number is not zero. -/
theorem Interval.around_low_pos {units : Nat} (h : Representable units) (hpos : 0 < units) :
    0 < (Interval.around units).low := by
  have hle : spacing units ≤ units := Nat.le_of_dvd hpos h.1
  unfold Interval.around
  dsimp only
  split <;> omega

/-- A decimal that is not zero and has so many places that it is settled first is below every
number of the format. -/
theorem places_le {mantissa places : Nat} (h : tenPow places ≤ 4 * (mantissa * unitsPerOne)) :
    places ≤ mantissa.log2 / 3 + 401 := by
  by_contra hfar
  have hmantissa : 4 * (mantissa * unitsPerOne) < twoPow (2 + (mantissa.log2 + 1 + 1074)) := by
    rw [twoPow_add, twoPow_add (mantissa.log2 + 1), unitsPerOne]
    have hfour : twoPow 2 = 4 := rfl
    rw [hfour]
    exact Nat.mul_lt_mul_of_pos_left
      (Nat.mul_lt_mul_of_pos_right (lt_twoPow_log2 mantissa) (twoPow_pos _)) (by decide)
  have hplaces : twoPow (2 + (mantissa.log2 + 1 + 1074)) ≤ tenPow places :=
    Nat.le_trans (twoPow_le (by omega)) (twoPow_le_tenPow places)
  omega

/-- A decimal in the interval around a number reads as that number. -/
theorem ofDecimal_eq {units mantissa places : Nat} (h : Representable units) (hpos : 0 < units)
    (hholds : (Interval.around units).holds (4 * (mantissa * unitsPerOne)) (tenPow places) = true)
    (negative : Bool) :
    Binary64.ofDecimal negative mantissa (-(places : Int)) = .finite negative ⟨units, h⟩ := by
  have hlow : tenPow places ≤ 4 * (mantissa * unitsPerOne) :=
    Nat.le_trans (Nat.le_mul_of_pos_left _ (Interval.around_low_pos h hpos))
      (Interval.bounds_of_holds hholds).1
  have hplaces := places_le hlow
  have hne : mantissa ≠ 0 := by
    rintro rfl
    rw [Nat.zero_mul] at hlow
    exact absurd (tenPow_pos places) (Nat.not_lt.2 hlow)
  have hratio : Binary64.ofUnits negative (mantissa * unitsPerOne) (tenPow places) =
      .finite negative ⟨units, h⟩ := by
    have hnearest := nearest_eq_of_holds h hpos (tenPow_pos places) hholds
    unfold Binary64.ofUnits
    simp only [hnearest, dif_pos h.2]
  unfold Binary64.ofDecimal
  rw [if_neg hne, if_neg (by omega), if_neg (by omega)]
  split
  · have hzero : places = 0 := by omega
    rw [hzero] at hratio ⊢
    have hone : mantissa * tenPow (-((0 : Nat) : Int)).toNat = mantissa := Nat.mul_one mantissa
    rw [Binary64.ofRatio, hone]
    exact hratio
  · rw [Int.neg_neg, Int.toNat_natCast]
    exact hratio

/-! ## Digits with a point -/

/-- A point and the digits behind it, or nothing. -/
def pointText (fraction : List Char) : List Char :=
  if fraction.isEmpty then [] else '.' :: fraction

/-- Digits, perhaps with a point among them. -/
def decimalText (whole fraction : List Char) : List Char := whole ++ pointText fraction

theorem head_pointText (fraction : List Char) :
    ∀ c ∈ (pointText fraction).head?, isDigit c = false := by
  intro c hc
  cases fraction with
  | nil => cases hc
  | cons d ds =>
    cases hc
    decide

theorem exists_cons_decimalText {whole : List Char} (hwhole : Digits whole) (hne : whole ≠ [])
    (fraction : List Char) :
    ∃ c cs, decimalText whole fraction = c :: cs ∧ isDigit c = true := by
  obtain ⟨c, cs, rfl⟩ := List.exists_cons_of_ne_nil hne
  exact ⟨c, cs ++ pointText fraction, rfl, hwhole c List.mem_cons_self⟩

theorem head_decimalText {whole : List Char} (hwhole : Digits whole) (hne : whole ≠ [])
    (fraction : List Char) : ∀ c ∈ (decimalText whole fraction).head?, isDigit c = true := by
  obtain ⟨d, ds, hds, hd⟩ := exists_cons_decimalText hwhole hne fraction
  rw [hds]
  intro c hc
  cases hc
  exact hd

/-- Zeros that are taken off the end of a number count in its exponent. -/
theorem dropZeros_eq {fuel digits : Nat} {exponent : Int} {digits' : Nat} {exponent' : Int}
    (h : dropZeros fuel digits exponent = (digits', exponent')) :
    ∃ j : Nat, digits = digits' * tenPow j ∧ exponent' = exponent + j := by
  induction fuel generalizing digits exponent with
  | zero =>
    cases h
    exact ⟨0, (Nat.mul_one _).symm, (Int.add_zero _).symm⟩
  | succ fuel ih =>
    rw [dropZeros] at h
    split at h
    · rename_i hzero
      obtain ⟨j, hdigits, hexponent⟩ := ih h
      refine ⟨j + 1, ?_, by omega⟩
      have hten : tenPow 1 = 10 := rfl
      rw [tenPow_add, hten, ← Nat.mul_assoc, ← hdigits]
      omega
    · cases h
      exact ⟨0, (Nat.mul_one _).symm, (Int.add_zero _).symm⟩

/-- The digits of a number with a point among them, or zeros on either side. -/
theorem toList_positionalText (digits : Nat) (exponent : Int) :
    ∃ whole fraction, Digits whole ∧ whole ≠ [] ∧ Digits fraction ∧
      (positionalText (natText digits) ((natText digits).length + exponent) false).toList =
        decimalText whole fraction ∧
      digitsValue (whole ++ fraction) = digits * tenPow exponent.toNat ∧
      fraction.length = (-exponent).toNat := by
  have hdigits := digits_natText digits
  have hvalue := digitsValue_natText digits
  have hne := natText_ne_nil digits
  obtain ⟨cs, hcs⟩ : ∃ cs, (natText digits).toList = cs := ⟨_, rfl⟩
  have hlength : (natText digits).length = cs.length := by rw [← hcs, String.length_toList]
  rw [hcs] at hdigits hvalue hne
  unfold positionalText
  dsimp only
  rw [hlength]
  split
  · -- zeros behind the digits
    rename_i hwhole
    refine ⟨cs ++ List.replicate exponent.toNat '0', [], hdigits.append (digits_zeros _), by simp [hne],
      by simp [Digits], ?_, ?_, ?_⟩
    · simp [decimalText, pointText, zeros, hcs]
    · rw [List.append_nil, digitsValue_append_zeros, hvalue]
    · rw [List.length_nil]
      omega
  split
  · -- the point among the digits
    rename_i hfraction hpoint
    refine ⟨cs.take ((cs.length : Int) + exponent).toNat, cs.drop ((cs.length : Int) + exponent).toNat,
      fun c hc => hdigits c (List.mem_of_mem_take hc), ?_,
      fun c hc => hdigits c (List.mem_of_mem_drop hc), ?_, ?_, ?_⟩
    · have hpos : ((cs.length : Int) + exponent).toNat ≠ 0 := by omega
      simp [hpos, hne]
    · have hsome : ¬ cs.length ≤ ((cs.length : Int) + exponent).toNat := by omega
      simp [decimalText, pointText, hcs, List.drop_eq_nil_iff, hsome]
    · have hzero : exponent.toNat = 0 := by omega
      have hone : tenPow 0 = 1 := rfl
      rw [List.take_append_drop, hvalue, hzero, hone, Nat.mul_one]
    · rw [List.length_drop]
      omega
  · -- zeros between the point and the digits
    rename_i hfraction hpoint
    refine ⟨['0'], List.replicate (-((cs.length : Int) + exponent)).toNat '0' ++ cs, digits_zeros 1,
      List.cons_ne_nil _ _, (digits_zeros _).append hdigits, ?_, ?_, ?_⟩
    · simp [decimalText, pointText, zeros, hcs, hne]
    · have hzero : exponent.toNat = 0 := by omega
      have hone : tenPow 0 = 1 := rfl
      have hfront : ['0'] = List.replicate 1 '0' := rfl
      rw [hfront, digitsValue_zeros_append, digitsValue_zeros_append, hvalue, hzero, hone, Nat.mul_one]
    · rw [List.length_append, List.length_replicate]
      omega

/-! ## Reading -/

/-- A text that begins with a digit is none of the words for special numbers. -/
theorem lowered_ne {c d : Char} {cs word : List Char} (hc : isDigit c = true)
    (hd : isDigit d = false) : lowered (c :: cs) ≠ d :: word := by
  intro h
  have hbounds := Char.isDigit_iff_toNat.1 hc
  have hlower : c.toLower = c := by
    refine dif_neg fun hupper => ?_
    have hge : 'A'.toNat ≤ c.toNat := hupper.1
    have hle : c.toNat ≤ '9'.toNat := hbounds.2
    exact absurd (Nat.le_trans hge hle) (by decide)
  have hhead : c.toLower = d := (List.cons.inj h).1
  rw [hlower] at hhead
  rw [hhead, hd] at hc
  cases hc

/-- Digits with a point read as the decimal that they spell. -/
theorem magnitudeOfText?_decimal (negative : Bool) {whole fraction : List Char}
    (hwhole : Digits whole) (hne : whole ≠ []) (hfraction : Digits fraction) :
    magnitudeOfText? negative (decimalText whole fraction) =
      some (.ofDecimal negative (digitsValue (whole ++ fraction)) (-(fraction.length : Int))) := by
  have hword {d : Char} {word : List Char} (hd : isDigit d = false) :
      lowered (decimalText whole fraction) ≠ d :: word := by
    obtain ⟨c, cs, hcs, hc⟩ := exists_cons_decimalText hwhole hne fraction
    rw [hcs]
    exact lowered_ne hc hd
  have hwholeNe : whole.isEmpty = false := List.isEmpty_eq_false_iff.2 hne
  obtain ⟨htake, hdrop⟩ := takeWhile_digits hwhole (head_pointText fraction)
  unfold magnitudeOfText?
  dsimp only
  rw [if_neg (not_or.2 ⟨hword (by decide), hword (by decide)⟩), if_neg (hword (by decide)),
    decimalText, htake, hdrop]
  cases fraction with
  | nil => simp [pointText, hwholeNe, exponentOfText?]
  | cons c cs =>
    obtain ⟨htail, hend⟩ := @takeWhile_digits (c :: cs) [] hfraction (by simp)
    rw [List.append_nil] at htail hend
    simp [pointText, htail, hend, hwholeNe, exponentOfText?]

/-- The plain text of a magnitude, and what it reads as. -/
theorem magnitudeText_decimal {units : Nat} (h : Representable units) :
    ∃ whole fraction, Digits whole ∧ whole ≠ [] ∧ Digits fraction ∧
      (magnitudeText .plain units).toList = decimalText whole fraction ∧
      ∀ negative, Binary64.ofDecimal negative (digitsValue (whole ++ fraction))
        (-(fraction.length : Int)) = .finite negative ⟨units, h⟩ := by
  by_cases hzero : units = 0
  · subst hzero
    refine ⟨['0'], [], digits_zeros 1, List.cons_ne_nil _ _, by simp [Digits], ?_, fun _ => ?_⟩
    · rfl
    · rfl
  have hpos : 0 < units := Nat.pos_of_ne_zero hzero
  obtain ⟨point, exponent, hsearch⟩ : ∃ point exponent, shortest Layout.plain.tieUp units =
      (point, exponent) := ⟨_, _, rfl⟩
  obtain ⟨digits, places, hdrop⟩ : ∃ digits places, dropZeros 20 point exponent =
      (digits, places) := ⟨_, _, rfl⟩
  obtain ⟨j, rfl, rfl⟩ := dropZeros_eq hdrop
  have hholds := shortest_holds h hsearch
  rw [Interval.holdsPoint_shift] at hholds
  obtain ⟨whole, fraction, hwhole, hne, hfraction, htext, hvalue, hlength⟩ :=
    toList_positionalText digits (exponent + j)
  refine ⟨whole, fraction, hwhole, hne, hfraction, ?_, fun negative => ?_⟩
  · rw [← htext, magnitudeText, if_neg hzero, hsearch]
    dsimp only
    rw [hdrop]
    rfl
  · rw [hvalue, hlength]
    refine ofDecimal_eq h hpos ?_ negative
    rw [← hholds, Interval.holdsPoint, gridStep]
    generalize unitsPerOne = one
    split
    · rename_i hwhole
      have hzero : (-(exponent + (j : Int))).toNat = 0 := by omega
      have hone : tenPow 0 = 1 := rfl
      have hsame : 4 * (digits * tenPow (exponent + j).toNat * one) =
          digits * (4 * one * tenPow (exponent + j).toNat) := by ring
      rw [hzero, hone, hsame]
    · rename_i hbroken
      have hzero : (exponent + (j : Int)).toNat = 0 := by omega
      have hone : tenPow 0 = 1 := rfl
      have hsame : 4 * (digits * 1 * one) = digits * (4 * one) := by ring
      rw [hzero, hone, hsame]

theorem Binary64.ofText?_text (negative : Bool) (magnitude : Magnitude) :
    ofText? ((finite negative magnitude).text .plain).toList = some (finite negative magnitude) := by
  obtain ⟨whole, fraction, hwhole, hne, hfraction, htext, hvalue⟩ :=
    magnitudeText_decimal magnitude.representable
  rw [text, String.toList_append, htext, ofText?,
    takeSign_signText negative (head_decimalText hwhole hne fraction)]
  dsimp only
  rw [magnitudeOfText?_decimal negative hwhole hne hfraction, hvalue]

end RecordModel.Number
