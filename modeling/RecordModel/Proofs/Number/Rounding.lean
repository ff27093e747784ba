import Mathlib.Tactic.Ring
import RecordModel.Number.Shortest

/-!
# Rounding inside of an interval

Around each number of the format lies the interval of the fractions that round to it. It reaches
half a step up and half a step down, but for a power of two, whose steps below are half as wide;
its ends belong to it if the significand is even, as ties go to the even neighbour.

Results:
* `roundHalfEven_eq`: the whole number that a fraction is rounded to.
* `nearest_eq_of_holds`: a fraction in the interval around a number is rounded to it.
-/
namespace RecordModel.Number

/-! ## Whole numbers -/

/-- A fraction at most one half away from a whole number is rounded to it, and if it is exactly
one half away, the number is even. -/
theorem roundHalfEven_eq {n d k : Nat} (hd : 0 < d) (hlow : 2 * (k * d) ≤ 2 * n + d)
    (hhigh : 2 * n ≤ 2 * (k * d) + d)
    (htie : k % 2 = 1 → 2 * (k * d) < 2 * n + d ∧ 2 * n < 2 * (k * d) + d) :
    roundHalfEven n d = k := by
  have hmod := Nat.div_add_mod n d
  unfold roundHalfEven
  dsimp only
  by_cases hbelow : n < k * d
  · obtain ⟨j, rfl⟩ : ∃ j, k = j + 1 := ⟨k - 1, by
      have hk : k ≠ 0 := by rintro rfl; omega
      omega⟩
    have hstep : (j + 1) * d = j * d + d := Nat.succ_mul j d
    have hquot : n / d = j := Nat.div_eq_of_lt_le (by omega) (by omega)
    rw [hquot, Nat.mul_comm d j] at hmod
    rw [hquot]
    split
    · omega
    split
    · rfl
    split <;> omega
  · have hstep : (k + 1) * d = k * d + d := Nat.succ_mul k d
    have hquot : n / d = k := Nat.div_eq_of_lt_le (by omega) (by omega)
    rw [hquot, Nat.mul_comm d k] at hmod
    rw [hquot]
    split
    · rfl
    split
    · omega
    split <;> omega

/-! ## Binary logarithms -/

theorem log2_eq_of_bounds {n l : Nat} (hlow : twoPow l ≤ n) (hhigh : n < twoPow (l + 1)) :
    n.log2 = l := by
  have hne : n ≠ 0 := Nat.ne_of_gt (Nat.lt_of_lt_of_le (twoPow_pos l) hlow)
  have hlt : n.log2 < l + 1 := (lt_twoPow_iff hne).1 hhigh
  have hge : ¬ n.log2 < l := fun h => Nat.not_lt_of_le hlow ((lt_twoPow_iff hne).2 h)
  omega

theorem twoPow_log2_le {n : Nat} (h : n ≠ 0) : twoPow n.log2 ≤ n := Nat.log2_self_le h

/-- The number behind a multiple of a step, if that does not reach a further multiple. -/
theorem add_le_of_dvd {s a b : Nat} (ha : s ∣ a) (hb : s ∣ b) (h : a < b) : a + s ≤ b := by
  obtain ⟨i, rfl⟩ := ha
  obtain ⟨j, rfl⟩ := hb
  have hij : i + 1 ≤ j := Nat.lt_of_mul_lt_mul_left h
  calc s * i + s = s * (i + 1) := (Nat.mul_succ s i).symm
    _ ≤ s * j := Nat.mul_le_mul_left s hij

/-! ## Steps -/

section Steps

variable {u n d : Nat}

/-- A number is rounded to a multiple of the step around its whole part. -/
theorem nearest_eq_of_step {s k : Nat} (hd : 0 < d) (hs : 0 < s) (hstep : spacing (n / d) = s)
    (hlow : 2 * (k * (d * s)) ≤ 2 * n + d * s) (hhigh : 2 * n ≤ 2 * (k * (d * s)) + d * s)
    (htie : k % 2 = 1 → 2 * (k * (d * s)) < 2 * n + d * s ∧ 2 * n < 2 * (k * (d * s)) + d * s) :
    nearest n d = k * s := by
  unfold nearest
  dsimp only
  rw [hstep, roundHalfEven_eq (Nat.mul_pos hd hs) hlow hhigh htie]

theorem spacing_dvd_twoPow (u : Nat) : spacing u ∣ twoPow (u.log2 + 1) := twoPow_dvd (by omega)

/-- Above a number, and not a whole step away, the step is that of the number. -/
theorem spacing_above (hu : Representable u) (hpos : 0 < u) (hd : 0 < d) (hlow : u * d ≤ n)
    (hhigh : n < (u + spacing u) * d) : spacing (n / d) = spacing u := by
  have hle : u ≤ n / d := (Nat.le_div_iff_mul_le hd).2 hlow
  have hlt : n / d < u + spacing u := Nat.div_lt_of_lt_mul (Nat.mul_comm _ _ ▸ hhigh)
  have htop : u + spacing u ≤ twoPow (u.log2 + 1) :=
    add_le_of_dvd hu.1 (spacing_dvd_twoPow u) (lt_twoPow_log2 u)
  have hlog : (n / d).log2 = u.log2 :=
    log2_eq_of_bounds (Nat.le_trans (twoPow_log2_le (Nat.ne_of_gt hpos)) hle)
      (Nat.lt_of_lt_of_le hlt htop)
  rw [spacing, spacing, hlog]

/-- Below a number, and at most a step away, the step is that of the number, but for a power of
two whose step is not the least. -/
theorem spacing_below (hu : Representable u) (hd : 0 < d)
    (hpower : ¬ (1 < spacing u ∧ u = twoPow 52 * spacing u)) (hhigh : n < u * d)
    (hlow : u * d ≤ n + spacing u * d) : spacing (n / d) = spacing u := by
  have hlt : n / d < u := Nat.div_lt_of_lt_mul (Nat.mul_comm _ _ ▸ hhigh)
  have hne : u ≠ 0 := Nat.ne_of_gt (Nat.zero_lt_of_lt hlt)
  by_cases hleast : u.log2 ≤ 52
  · have hlog : (n / d).log2 ≤ 52 := by
      by_cases hzero : n / d = 0
      · rw [hzero]; decide
      · have hbound := (lt_twoPow_iff hzero).1 (Nat.lt_trans hlt (lt_twoPow_log2 u))
        omega
    rw [spacing, spacing, Nat.sub_eq_zero_of_le hlog, Nat.sub_eq_zero_of_le hleast]
  · obtain ⟨e, he⟩ : ∃ e, u.log2 = 52 + (e + 1) := ⟨u.log2 - 53, by omega⟩
    have hstep : spacing u = twoPow (e + 1) := by rw [spacing, he]; congr 1; omega
    have hbottom : twoPow u.log2 = twoPow 52 * spacing u := by rw [he, twoPow_add, hstep]
    have hgt : 1 < spacing u := by
      rw [hstep]
      exact Nat.one_lt_two_pow (Nat.succ_ne_zero e)
    have hlower : twoPow u.log2 + spacing u ≤ u := by
      refine add_le_of_dvd ?_ hu.1 ?_
      · rw [hbottom]; exact Nat.dvd_mul_left _ _
      · refine Nat.lt_of_le_of_ne (twoPow_log2_le hne) fun heq => hpower ⟨hgt, ?_⟩
        rw [← hbottom, heq]
    have hle : twoPow u.log2 ≤ n / d := by
      rw [Nat.le_div_iff_mul_le hd]
      have hmul := Nat.mul_le_mul_right d hlower
      rw [Nat.add_mul] at hmul
      omega
    have hlog : (n / d).log2 = u.log2 :=
      log2_eq_of_bounds hle (Nat.lt_trans hlt (lt_twoPow_log2 u))
    rw [spacing, spacing, hlog]

/-- Below a power of two whose step is not the least, the step is half as wide. -/
theorem spacing_below_power (hd : 0 < d) (hstep : 1 < spacing u)
    (hpower : u = twoPow 52 * spacing u) (hhigh : n < u * d)
    (hlow : u * d ≤ n + spacing u * d) : 2 * spacing (n / d) = spacing u := by
  obtain ⟨e, he⟩ : ∃ e, u.log2 = 52 + (e + 1) := by
    refine ⟨u.log2 - 53, ?_⟩
    by_contra h
    have hzero : u.log2 - 52 = 0 := by omega
    rw [spacing, hzero] at hstep
    exact absurd hstep (by decide)
  have hspacing : spacing u = twoPow (e + 1) := by rw [spacing, he]; congr 1; omega
  have hu : u = twoPow (52 + (e + 1)) := by rw [twoPow_add, ← hspacing]; exact hpower
  have hlt : n / d < u := Nat.div_lt_of_lt_mul (Nat.mul_comm _ _ ▸ hhigh)
  have hhalf : u = twoPow (52 + e) + twoPow (52 + e) := by
    rw [hu, ← Nat.two_mul]
    exact Nat.pow_succ'
  have hle : twoPow (52 + e) ≤ n / d := by
    have hsmall : spacing u ≤ twoPow (52 + e) := hspacing ▸ twoPow_le (by omega)
    have hmul := Nat.mul_le_mul_right d hsmall
    rw [Nat.le_div_iff_mul_le hd]
    rw [hhalf, Nat.add_mul, ← hhalf] at hlow
    omega
  have hlog : (n / d).log2 = 52 + e := log2_eq_of_bounds hle (hu ▸ hlt)
  rw [hspacing, spacing, hlog, Nat.add_sub_cancel_left]
  exact Nat.pow_succ'.symm

end Steps

/-! ## Intervals -/

/-- A fraction in an interval lies between its ends, and only in a closed one on them. -/
theorem Interval.bounds_of_holds {i : Interval} {n d : Nat} (h : i.holds n d = true) :
    i.low * d ≤ n ∧ n ≤ i.high * d ∧ (i.closed = false → i.low * d < n ∧ n < i.high * d) := by
  unfold Interval.holds at h
  split at h
  · rename_i hclosed
    simp only [Bool.and_eq_true, decide_eq_true_eq] at h
    exact ⟨h.1, h.2, fun hopen => by rw [hclosed] at hopen; cases hopen⟩
  · simp only [Bool.and_eq_true, decide_eq_true_eq] at h
    exact ⟨h.1.le, h.2.le, fun _ => h⟩

/-- The interval around a number, in multiples of its step. -/
theorem Interval.around_bounds {k s n d : Nat} (hs : spacing (k * s) = s) (hpos : 0 < s)
    (h : (Interval.around (k * s)).holds (4 * n) d = true) :
    2 * n ≤ 2 * (k * (d * s)) + d * s ∧ 2 * (k * (d * s)) ≤ 2 * n + d * s ∧
      (k % 2 = 1 → 2 * (k * (d * s)) < 2 * n + d * s ∧ 2 * n < 2 * (k * (d * s)) + d * s) ∧
      (1 < s ∧ k = twoPow 52 → 4 * (k * (d * s)) ≤ 4 * n + d * s) := by
  obtain ⟨hlow, hhigh, hopen⟩ := Interval.bounds_of_holds h
  have hproduct : k * s * d = k * (d * s) := by ring
  have hpower : k * s = twoPow 52 * s ↔ k = twoPow 52 := Nat.mul_left_inj (Nat.ne_of_gt hpos)
  have hends (below : Nat) : (4 * (k * s) - below) * d = 4 * (k * (d * s)) - below * d ∧
      (4 * (k * s) + 2 * s) * d = 4 * (k * (d * s)) + 2 * (d * s) := by
    constructor
    · rw [Nat.sub_mul, Nat.mul_assoc, hproduct]
    · rw [Nat.add_mul, Nat.mul_assoc, hproduct]
      ring
  have hcommS : s * d = d * s := Nat.mul_comm s d
  have hdouble : 2 * s * d = 2 * (d * s) := by ring
  have hclosed : (Interval.around (k * s)).closed = false ↔ k % 2 = 1 := by
    rw [Interval.around]
    dsimp only
    rw [hs, Nat.mul_div_cancel k hpos]
    simp
  rw [hclosed] at hopen
  simp only [Interval.around, hs, hpower] at hlow hhigh hopen
  rw [(hends 0).2] at hhigh hopen
  rw [(hends _).1] at hlow hopen
  split at hlow
  · rename_i hedge
    rw [if_pos hedge] at hopen
    refine ⟨by omega, by omega, fun hodd => ?_, fun _ => by omega⟩
    have hstrict := hopen hodd
    omega
  · rename_i hedge
    rw [if_neg hedge] at hopen
    refine ⟨by omega, by omega, fun hodd => ?_, fun h => absurd h hedge⟩
    have hstrict := hopen hodd
    omega

/-- A fraction in the interval around a number is rounded to it. -/
theorem nearest_eq_of_holds {u n d : Nat} (hu : Representable u) (hpos : 0 < u) (hd : 0 < d)
    (h : (Interval.around u).holds (4 * n) d = true) : nearest n d = u := by
  obtain ⟨s, hs⟩ : ∃ s, spacing u = s := ⟨_, rfl⟩
  have hspos : 0 < s := hs ▸ spacing_pos u
  obtain ⟨k, rfl⟩ : ∃ k, u = k * s := hs ▸ exists_eq_mul_left_of_dvd hu.1
  have hS : 0 < d * s := Nat.mul_pos hd hspos
  have hproduct : k * s * d = k * (d * s) := by ring
  obtain ⟨hhigh, hlow, htie, hpower⟩ := Interval.around_bounds hs hspos h
  by_cases habove : k * s * d ≤ n
  · refine nearest_eq_of_step hd hspos ((spacing_above hu hpos hd habove ?_).trans hs) hlow hhigh htie
    rw [hs, Nat.add_mul, hproduct, Nat.mul_comm s d]
    omega
  · rw [Nat.not_le] at habove
    by_cases hedge : 1 < s ∧ k = twoPow 52
    · -- the steps below a power of two are half as wide, and it is twice as many of them
      have hbelow := spacing_below_power hd (hs.symm ▸ hedge.1)
        (by rw [hs, hedge.2]) habove (by rw [hs, hproduct, Nat.mul_comm s d]; omega)
      obtain ⟨t, ht⟩ : ∃ t, spacing (n / d) = t := ⟨_, rfl⟩
      rw [ht, hs] at hbelow
      have hhalf : d * s = 2 * (d * t) := by rw [← hbelow]; ring
      have hcount : 2 * k * (d * t) = k * (d * s) := by rw [hhalf]; ring
      have hnear := hpower hedge
      have htwice := nearest_eq_of_step (k := 2 * k) hd (ht ▸ spacing_pos _) ht
        (by rw [hcount]; omega) (by rw [hcount]; omega) (by omega)
      rw [htwice, ← hbelow]
      ring
    · have hnot : ¬ (1 < spacing (k * s) ∧ k * s = twoPow 52 * spacing (k * s)) := by
        rw [hs]
        exact fun hboth => hedge ⟨hboth.1, Nat.eq_of_mul_eq_mul_right hspos hboth.2⟩
      refine nearest_eq_of_step hd hspos ((spacing_below hu hd hnot habove ?_).trans hs) hlow hhigh
        htie
      rw [hs, hproduct, Nat.mul_comm s d]
      omega

end RecordModel.Number
