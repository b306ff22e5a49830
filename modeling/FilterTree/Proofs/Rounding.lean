import FilterTree.Proofs.Doubles

/-!
# How far rounding is off

What a computation with numbers of 64 bits has to do with one with reals is said here for one
operation at a time. A product, a quotient, a root, or a sum of what is not negative is computed as
a significand with a bit for the half and a bit for the rest, which say where the exact result is
(`Locates`). Rounding goes to the nearest, so the number that comes out is off by at most one part
in 2^53 (`Near`), as long as the exact result is far from the least and the greatest numbers
(`Inside`). That is what carries all operations (`near_round`): each of them has only to say where
its result is.

Numbers of 64 bits stand for reals in one of two ways, as a zero or with a significand of full
length (`Stands`). A number of neither kind has no place in what follows.
-/

namespace FilterTree.Numeral

open Float.Model (UnpackedFloat)
open Float.Model.UnpackedFloat

/-! ## Rounding a real -/

/-- A significand with a bit for the half and a bit for the rest says where a real is. -/
structure Locates (em : ExtendedMantissa) (x : ℝ) : Prop where
  low : em.mantissa ≤ x
  high : x < em.mantissa + 1
  round : em.roundBit ↔ em.mantissa + 1 / 2 ≤ x
  sticky : em.stickyBit ↔ x ≠ em.mantissa ∧ x ≠ em.mantissa + 1 / 2

theorem mantissa_ofMantissaAndAccuracy {m : Nat} {accuracy : Accuracy} :
    (ExtendedMantissa.ofMantissaAndAccuracy m accuracy).mantissa = m := by
  rcases accuracy with _ | _ | _ | _ <;> rfl

namespace Locates

variable {em : ExtendedMantissa} {x : ℝ} {m : Nat}

theorem exact (m : Nat) : Locates (.ofMantissaAndAccuracy m .exact) m where
  low := le_rfl
  high := lt_add_one _
  round := by
    refine iff_of_false Bool.false_ne_true ?_
    show ¬ (m : ℝ) + 1 / 2 ≤ m
    linarith
  sticky := iff_of_false Bool.false_ne_true fun h => h.1 rfl

theorem below (hlow : m < x) (hhigh : x < m + 1 / 2) :
    Locates (.ofMantissaAndAccuracy m (.inexact .lt)) x where
  low := hlow.le
  high := by
    show x < (m : ℝ) + 1
    linarith
  round := iff_of_false Bool.false_ne_true hhigh.not_ge
  sticky := iff_of_true rfl ⟨hlow.ne', hhigh.ne⟩

theorem half (m : Nat) : Locates (.ofMantissaAndAccuracy m (.inexact .eq)) (m + 1 / 2) where
  low := by
    show (m : ℝ) ≤ m + 1 / 2
    linarith
  high := by
    show (m : ℝ) + 1 / 2 < m + 1
    linarith
  round := iff_of_true rfl le_rfl
  sticky := iff_of_false Bool.false_ne_true fun h => h.2 rfl

theorem above (hlow : m + 1 / 2 < x) (hhigh : x < m + 1) :
    Locates (.ofMantissaAndAccuracy m (.inexact .gt)) x where
  low := by
    show (m : ℝ) ≤ x
    linarith
  high := hhigh
  round := iff_of_true rfl hlow.le
  sticky := iff_of_true rfl ⟨by
    show x ≠ (m : ℝ)
    linarith, hlow.ne'⟩

theorem quotient {a d : Nat} (hd : 0 < d) :
    Locates (.ofMantissaAndAccuracy (a / d) (accuracyOfFraction (a % d) d)) ((a : ℝ) / d) := by
  have hlt : a % d < d := Nat.mod_lt a hd
  generalize hr : a % d = r at hlt
  generalize hq : a / d = q
  have hd' : (0 : ℝ) < d := Nat.cast_pos.mpr hd
  have hx : (a : ℝ) / d = q + r / d := by
    rw [div_eq_iff hd'.ne', add_mul, div_mul_cancel₀ _ hd'.ne', ← hq, ← hr]
    exact_mod_cast (Nat.div_add_mod' a d).symm
  have hone : (r : ℝ) / d < 1 := by
    rw [div_lt_one hd']
    exact_mod_cast hlt
  rw [hx, accuracyOfFraction]
  split
  · next hzero =>
      rw [hzero, Nat.cast_zero, zero_div, add_zero]
      exact .exact q
  · next hne =>
      have hpos : 0 < (r : ℝ) / d := div_pos (by exact_mod_cast Nat.pos_of_ne_zero hne) hd'
      cases hc : compare (2 * r) d with
      | lt =>
          have hless : (r : ℝ) / d < 1 / 2 := by
            rw [div_lt_div_iff₀ hd' two_pos, mul_comm, one_mul]
            exact_mod_cast compare_lt_iff_lt.mp hc
          exact .below (by linarith) (by linarith)
      | eq =>
          have heq : (r : ℝ) / d = 1 / 2 := by
            rw [div_eq_div_iff hd'.ne' two_ne_zero, mul_comm, one_mul]
            exact_mod_cast compare_eq_iff_eq.mp hc
          rw [heq]
          exact .half q
      | gt =>
          have hmore : 1 / 2 < (r : ℝ) / d := by
            rw [div_lt_div_iff₀ two_pos hd', one_mul, mul_comm]
            exact_mod_cast compare_gt_iff_gt.mp hc
          exact .above (by linarith) (by linarith)

theorem root (n : Nat) : Locates (.ofMantissaAndAccuracy n.sqrt
    (if n - n.sqrt * n.sqrt = 0 then .exact
      else .inexact (if n - n.sqrt * n.sqrt ≤ n.sqrt then .lt else .gt))) √(n : ℝ) := by
  obtain ⟨r, hr⟩ : ∃ r, n = n.sqrt * n.sqrt + r := ⟨_, (Nat.add_sub_cancel' (Nat.sqrt_le n)).symm⟩
  have hrest : r ≤ n.sqrt + n.sqrt := by have := Nat.sqrt_le_add n; omega
  generalize n.sqrt = q at hr hrest ⊢
  have hsub : n - q * q = r := by omega
  have hq : (0 : ℝ) ≤ q := by positivity
  have hn : (n : ℝ) = q * q + r := by exact_mod_cast hr
  rw [hsub]
  split
  · next hzero =>
      rw [hn, hzero, Nat.cast_zero, add_zero, Real.sqrt_mul_self hq]
      exact .exact q
  · next hne =>
      have hpos : (0 : ℝ) < r := by exact_mod_cast Nat.pos_of_ne_zero hne
      split
      · next hless =>
          have hless : (r : ℝ) ≤ q := by exact_mod_cast hless
          refine .below ?_ ?_
          · rw [Real.lt_sqrt hq, hn]
            nlinarith
          · rw [Real.sqrt_lt' (by positivity), hn]
            nlinarith
      · next hmore =>
          have hmore : (q : ℝ) + 1 ≤ r := by exact_mod_cast Nat.lt_of_not_le hmore
          have hrest : (r : ℝ) ≤ q + q := by exact_mod_cast hrest
          refine .above ?_ ?_
          · rw [Real.lt_sqrt (by positivity), hn]
            nlinarith
          · rw [Real.sqrt_lt' (by positivity), hn]
            nlinarith

theorem shiftRightOne (h : Locates em x) : Locates em.shiftRightOne (x / 2) := by
  obtain ⟨hlow, hhigh, hround, hsticky⟩ := h
  obtain ⟨m, round, sticky⟩ := em
  dsimp only at hlow hhigh hround hsticky
  have hcut : (m : ℝ) = 2 * (m / 2 : Nat) + (m % 2 : Nat) := by
    exact_mod_cast (Nat.div_add_mod m 2).symm
  have hrest : (round || sticky) = true ↔ x ≠ m := by
    rw [Bool.or_eq_true, hround, hsticky]
    constructor
    · rintro (h | h)
      · rintro rfl
        linarith
      · exact h.1
    · intro hne
      by_cases hhalf : x = m + 1 / 2
      · exact .inl hhalf.ge
      · exact .inr ⟨hne, hhalf⟩
  -- the last bit becomes the bit for the half, and the rest is what was not a significand alone
  have hbit : m % 2 = 0 ∧ (m : ℝ) = 2 * (m / 2 : Nat) ∨
      m % 2 = 1 ∧ (m : ℝ) = 2 * (m / 2 : Nat) + 1 := by
    rcases Nat.mod_two_eq_zero_or_one m with hb | hb
    · exact .inl ⟨hb, by rw [hcut, hb, Nat.cast_zero, add_zero]⟩
    · exact .inr ⟨hb, by rw [hcut, hb, Nat.cast_one]⟩
  refine ⟨?_, ?_, ?_, hrest.trans ?_⟩
  · show ((m / 2 : Nat) : ℝ) ≤ x / 2
    rcases hbit with ⟨-, hm⟩ | ⟨-, hm⟩ <;> linarith
  · show x / 2 < ((m / 2 : Nat) : ℝ) + 1
    rcases hbit with ⟨-, hm⟩ | ⟨-, hm⟩ <;> linarith
  · show (m % 2 != 0) = true ↔ ((m / 2 : Nat) : ℝ) + 1 / 2 ≤ x / 2
    rcases hbit with ⟨hb, hm⟩ | ⟨hb, hm⟩ <;> rw [hb]
    · exact iff_of_false (by decide) (by linarith)
    · exact iff_of_true (by decide) (by linarith)
  · show x ≠ m ↔ x / 2 ≠ ((m / 2 : Nat) : ℝ) ∧ x / 2 ≠ ((m / 2 : Nat) : ℝ) + 1 / 2
    rcases hbit with ⟨-, hm⟩ | ⟨-, hm⟩
    · exact ⟨fun hne => ⟨fun heq => hne (by linarith), fun heq => by linarith⟩,
        fun hne heq => hne.1 (by linarith)⟩
    · exact ⟨fun hne => ⟨fun heq => by linarith, fun heq => hne (by linarith)⟩,
        fun hne heq => hne.2 (by linarith)⟩

theorem shiftRight (h : Locates em x) (k : Nat) : Locates (em >>> k) (x / 2 ^ k) := by
  induction k with
  | zero =>
      rw [pow_zero, div_one]
      exact h
  | succ k ih =>
      rw [pow_succ, ← div_div]
      exact ih.shiftRightOne

/-- What is rounded to is off by at most a half. -/
theorem near (h : Locates em x) : |em.roundedMantissa - x| ≤ 1 / 2 := by
  obtain ⟨hlow, hhigh, hround, hsticky⟩ := h
  obtain ⟨m, round, sticky⟩ := em
  dsimp only at hlow hhigh hround hsticky
  rw [abs_le]
  cases round
  · have hless : ¬ (m : ℝ) + 1 / 2 ≤ x := mt hround.mpr Bool.false_ne_true
    cases sticky <;> simp only [ExtendedMantissa.roundedMantissa, ExtendedMantissa.accuracy,
      Accuracy.roundToNearestEven] <;> constructor <;> linarith
  · have hmore : (m : ℝ) + 1 / 2 ≤ x := hround.mp rfl
    cases sticky
    · have hhalf : x = m + 1 / 2 := by
        by_contra hne
        exact Bool.false_ne_true (hsticky.mpr ⟨by linarith, hne⟩)
      simp only [ExtendedMantissa.roundedMantissa, ExtendedMantissa.accuracy,
        Accuracy.roundToNearestEven]
      rcases Nat.mod_two_eq_zero_or_one m with hb | hb <;> rw [hb] <;> push_cast <;>
        constructor <;> linarith
    · simp only [ExtendedMantissa.roundedMantissa, ExtendedMantissa.accuracy,
        Accuracy.roundToNearestEven]
      push_cast
      constructor <;> linarith

/-- What is rounded to has full length, or is one more than can have it. -/
theorem bounds (h : Locates em x) (hlow : 2 ^ 52 ≤ x) (hhigh : x < 2 ^ 53) :
    2 ^ 52 ≤ em.roundedMantissa ∧ em.roundedMantissa ≤ 2 ^ 53 := by
  obtain ⟨hbelow, habove⟩ := abs_le.mp h.near
  have hless : (2 : ℝ) ^ 52 < (em.roundedMantissa + 1 : Nat) := by push_cast; linarith
  have hmore : (em.roundedMantissa : ℝ) < (2 ^ 53 + 1 : Nat) := by push_cast; linarith
  exact ⟨Nat.le_of_lt_succ (by exact_mod_cast hless), Nat.le_of_lt_succ (by exact_mod_cast hmore)⟩

end Locates

/-! ## Rounding to 64 bits -/

/-- A number is off from a real by at most one part in 2^53. -/
def Near (z x : ℝ) : Prop := |z - x| ≤ 2⁻¹ ^ 53 * |x|

/-- A magnitude that is far from the least and the greatest numbers of 64 bits. -/
def Inside (x : ℝ) : Prop := 2 ^ (-1000 : ℤ) ≤ |x| ∧ |x| ≤ 2 ^ (1000 : ℤ)

section

variable {s : Sign} {m : Nat} {e : Int} {accuracy : Accuracy} {x v : ℝ}

/-- Rounding comes near what it rounds. -/
theorem near_round (hx : Locates (.ofMantissaAndAccuracy m accuracy) x) (hm : 2 ^ 52 ≤ m)
    (hv : x * 2 ^ e = v) (hin : Inside v) :
    ∃ z : ℚ, Normal s z (roundWithAccuracy .binary64 s m e accuracy) ∧ Near z v := by
  have hmx := hx.low
  have hxm := hx.high
  rw [mantissa_ofMantissaAndAccuracy] at hmx hxm
  obtain ⟨k, hk⟩ : ∃ k, m.log2 = 52 + k :=
    ⟨m.log2 - 52, by have := (Nat.le_log2 (by omega)).mpr hm; omega⟩
  have hlow : 2 ^ (52 + k) ≤ m := hk ▸ Nat.log2_self_le (by omega)
  have hhigh : m < 2 ^ (53 + k) := by
    rw [show 53 + k = m.log2 + 1 by omega]
    exact Nat.lt_log2_self
  have hlow' : (2 : ℝ) ^ (52 + k) ≤ x := le_trans (by exact_mod_cast hlow) hmx
  have hhigh' : x < (2 : ℝ) ^ (53 + k) := lt_of_lt_of_le hxm (by exact_mod_cast hhigh)
  have hscale : ∀ n : Nat, (2 : ℝ) ^ n * 2 ^ e = 2 ^ ((n : ℤ) + e) := fun n => by
    rw [zpow_add₀ two_ne_zero, zpow_natCast]
  have hunit : (0 : ℝ) < 2 ^ e := by positivity
  have hvlow : (2 : ℝ) ^ ((52 + k : Nat) + e) ≤ v := by
    rw [← hscale, ← hv]
    exact mul_le_mul_of_nonneg_right hlow' hunit.le
  have hvhigh : v < (2 : ℝ) ^ ((53 + k : Nat) + e) := by
    rw [← hscale, ← hv]
    exact mul_lt_mul_of_pos_right hhigh' hunit
  have hvpos : 0 < v := lt_of_lt_of_le (by positivity) hvlow
  rw [Inside, abs_of_pos hvpos] at hin
  have hleast := (zpow_lt_zpow_iff_right₀ one_lt_two).mp (hin.1.trans_lt hvhigh)
  have hgreatest := (zpow_le_zpow_iff_right₀ one_lt_two).mp (hvlow.trans hin.2)
  have hrest : (2 : ℝ) ^ 52 ≤ x / 2 ^ k ∧ x / 2 ^ k < 2 ^ 53 := by
    rw [le_div_iff₀ (by positivity), div_lt_iff₀ (by positivity), ← pow_add, ← pow_add]
    exact ⟨hlow', hhigh'⟩
  -- the significand that is kept is the nearest to what is left of the real
  have hkept := hx.shiftRight k
  obtain ⟨hrlow, hrhigh⟩ := hkept.bounds hrest.1 hrest.2
  have hnear := hkept.near
  generalize hr : (ExtendedMantissa.ofMantissaAndAccuracy m accuracy >>> k).roundedMantissa = r
    at hnear hrlow hrhigh
  refine ⟨_, normal_roundWithAccuracy hlow hhigh (by omega) (by omega) hr hrlow hrhigh, ?_⟩
  have hsplit : (r : ℝ) * 2 ^ (e + k) - v = (r - x / 2 ^ k) * 2 ^ (e + k) := by
    rw [← hv, zpow_add₀ two_ne_zero, zpow_natCast]
    field_simp
  rw [Near, abs_of_pos hvpos]
  push_cast
  rw [hsplit, abs_mul, abs_of_pos (by positivity : (0 : ℝ) < 2 ^ (e + k))]
  calc |(r : ℝ) - x / 2 ^ k| * 2 ^ (e + k) ≤ 1 / 2 * 2 ^ (e + k) :=
        mul_le_mul_of_nonneg_right hnear (by positivity)
    _ = 2⁻¹ ^ 53 * 2 ^ ((52 + k : Nat) + e) := by
        rw [← hscale, zpow_add₀ two_ne_zero, zpow_natCast, pow_add]
        norm_num
        ring
    _ ≤ 2⁻¹ ^ 53 * v := mul_le_mul_of_nonneg_left hvlow (by positivity)

end

theorem round_of_long {s : Sign} {m : Nat} {e : Int} (hm : 2 ^ 52 ≤ m) :
    UnpackedFloat.round .binary64 s m e = roundWithAccuracy .binary64 s m e .exact := by
  have hlog : 52 ≤ m.log2 := (Nat.le_log2 (by omega)).mpr hm
  unfold UnpackedFloat.round decreaseExponent
  dsimp only
  rw [targetExponent_eq, show (e - max ((m.log2 : ℤ) + 1 + e - 53) (-1074)).toNat = 0 by omega,
    Nat.shiftLeft_zero, Nat.cast_zero, sub_zero]

/-- A short significand is kept. -/
theorem normal_of_short {s : Sign} {m : Nat} {e : Int} (hm : 0 < m) (hlog : m.log2 ≤ 52)
    (he : -1022 ≤ e + m.log2) (he' : e ≤ 970) :
    Normal s (m * 2 ^ e) (UnpackedFloat.round .binary64 s m e) := by
  have hwhole : nearestWhole m = m := by
    rw [nearestWhole_eq_self_iff, spacing, Nat.sub_eq_zero_of_le hlog]
    exact one_dvd m
  have hnormal := normal_nearest (s := s) hm he (by omega)
  rwa [hwhole] at hnormal

namespace Normal

variable {s t : Sign} {v w : ℚ} {x y : UnpackedFloat}

theorem pos (hx : Normal s v x) : 0 < v := by
  obtain @⟨m, e, hm, -, -, -, -, rfl⟩ := hx
  positivity

theorem bounds (hx : Normal s v x) : (2 : ℝ) ^ (-1022 : ℤ) ≤ v ∧ (v : ℝ) < 2 ^ (1024 : ℤ) := by
  obtain @⟨m, e, hm, hlow, hhigh, he, he', rfl⟩ := hx
  push_cast
  constructor
  · calc (2 : ℝ) ^ (-1022 : ℤ) = 2 ^ 52 * 2 ^ (-1074 : ℤ) := by
          rw [← zpow_natCast, ← zpow_add₀ two_ne_zero]
          norm_num
      _ ≤ m * 2 ^ e := mul_le_mul (by exact_mod_cast hlow)
          (zpow_le_zpow_right₀ one_le_two he) (by positivity) (by positivity)
  · calc (m : ℝ) * 2 ^ e < 2 ^ 53 * 2 ^ e :=
          mul_lt_mul_of_pos_right (by exact_mod_cast hhigh) (by positivity)
      _ ≤ 2 ^ 53 * 2 ^ (971 : ℤ) :=
          mul_le_mul_of_nonneg_left (zpow_le_zpow_right₀ one_le_two he') (by positivity)
      _ = 2 ^ (1024 : ℤ) := by
          rw [← zpow_natCast, ← zpow_add₀ two_ne_zero]
          norm_num

theorem mul (hx : Normal s v x) (hy : Normal t w y) (hin : Inside (v * w : ℝ)) :
    ∃ z, Normal (s * t) z (UnpackedFloat.mul .binary64 x y) ∧ Near z (v * w) := by
  obtain ⟨hlow, hhigh, -, -, rfl⟩ := hx
  obtain ⟨hlow', hhigh', -, -, rfl⟩ := hy
  refine near_round (.exact _) ?_ ?_ hin
  · calc 2 ^ 52 ≤ 2 ^ 52 * 2 ^ 52 := by norm_num
      _ ≤ _ := Nat.mul_le_mul hlow hlow'
  · push_cast
    rw [zpow_add₀ two_ne_zero]
    ring

theorem add (hx : Normal .positive v x) (hy : Normal .positive w y) (hin : Inside (v + w : ℝ)) :
    ∃ z, Normal .positive z (UnpackedFloat.add .binary64 x y) ∧ Near z (v + w) := by
  obtain @⟨m, e, hm, hlow, hhigh, -, -, rfl⟩ := hx
  obtain @⟨n, f, hn, hlow', hhigh', -, -, rfl⟩ := hy
  obtain ⟨i, hi⟩ : ∃ i : ℕ, e = min e f + i := ⟨(e - min e f).toNat, by omega⟩
  obtain ⟨j, hj⟩ : ∃ j : ℕ, f = min e f + j := ⟨(f - min e f).toNat, by omega⟩
  have hlong : 2 ^ 52 ≤ m * 2 ^ i + n * 2 ^ j :=
    (hlow.trans (Nat.le_mul_of_pos_right m (Nat.two_pow_pos i))).trans (Nat.le_add_right _ _)
  have hadd : UnpackedFloat.add .binary64 (.finite .positive m e hm) (.finite .positive n f hn) =
      roundWithAccuracy .binary64 .positive (m * 2 ^ i + n * 2 ^ j) (min e f) .exact := by
    unfold UnpackedFloat.add decreaseExponent
    dsimp only
    rw [show (e - min e f).toNat = i by omega, show (f - min e f).toNat = j by omega,
      Nat.shiftLeft_eq, Nat.shiftLeft_eq]
    unfold UnpackedFloat.normalize
    rw [show Sign.apply .positive (m * 2 ^ i : ℕ) + Sign.apply .positive (n * 2 ^ j : ℕ) =
      ((m * 2 ^ i + n * 2 ^ j : ℕ) : ℤ) from rfl, Int.compare_eq_gt.mpr (by omega)]
    dsimp only
    rw [Int.toNat_natCast, round_of_long hlong]
  rw [hadd]
  refine near_round (.exact _) hlong ?_ hin
  push_cast
  rw [add_mul, mul_assoc, mul_assoc, ← zpow_natCast, ← zpow_natCast, ← zpow_add₀ two_ne_zero,
    ← zpow_add₀ two_ne_zero, add_comm (i : ℤ), add_comm (j : ℤ), ← hi, ← hj]

theorem div (hx : Normal s v x) (hy : Normal t w y) (hin : Inside (v / w : ℝ)) :
    ∃ z, Normal (s / t) z (UnpackedFloat.div .binary64 x y) ∧ Near z (v / w) := by
  obtain @⟨m, e, hm, hlow, hhigh, -, -, rfl⟩ := hx
  obtain @⟨n, f, hn, hlow', hhigh', -, -, rfl⟩ := hy
  have hlog : m.log2 = 52 := (Nat.log2_eq_iff hm.ne').mpr ⟨hlow, hhigh⟩
  have hlog' : n.log2 = 52 := (Nat.log2_eq_iff hn.ne').mpr ⟨hlow', hhigh'⟩
  have hvalue : ((m * 2 ^ e : ℚ) : ℝ) / ((n * 2 ^ f : ℚ) : ℝ) = (m : ℝ) / n * 2 ^ (e - f) := by
    push_cast
    rw [zpow_sub₀ two_ne_zero]
    field_simp
  rw [hvalue] at hin ⊢
  have hn' : (0 : ℝ) < n := Nat.cast_pos.mpr hn
  have hexponent : -1001 < e - f := by
    have hratio : (m : ℝ) / n < 2 := by
      rw [div_lt_iff₀ hn']
      exact_mod_cast (by omega : m < 2 * n)
    have hlt : (2 : ℝ) ^ (-1000 : ℤ) < 2 ^ (1 + (e - f)) := by
      rw [zpow_one_add₀ two_ne_zero]
      refine hin.1.trans_lt ?_
      rw [abs_of_nonneg (by positivity)]
      exact mul_lt_mul_of_pos_right hratio (by positivity)
    have := (zpow_lt_zpow_iff_right₀ one_lt_two).mp hlt
    omega
  have hcore : divCore .binary64 m e n f =
      (m * 2 ^ 53 / n, e - f - 53, accuracyOfFraction (m * 2 ^ 53 % n) n) := by
    have htarget : min (e - f) (Float.Model.Format.binary64.targetExponent
        (Float.Model.totalExponent m e - Float.Model.totalExponent n f)) = e - f - 53 := by
      show min (e - f) (max ((m.log2 : ℤ) + 1 + e - (n.log2 + 1 + f) - 53) (-1074)) = _
      omega
    unfold divCore
    dsimp only
    rw [htarget, show (e - f - (e - f - 53)).toNat = 53 by omega, Nat.shiftLeft_eq]
  show ∃ z, Normal (s / t) z (let (q, e, a) := divCore .binary64 m e n f
    roundWithAccuracy .binary64 (s / t) q e a) ∧ _
  rw [hcore]
  refine near_round (Locates.quotient hn) ?_ ?_ hin
  · rw [Nat.le_div_iff_mul_le hn]
    calc 2 ^ 52 * n ≤ 2 ^ 52 * 2 ^ 53 := Nat.mul_le_mul_left _ hhigh'.le
      _ ≤ m * 2 ^ 53 := Nat.mul_le_mul_right _ hlow
  · push_cast
    rw [zpow_sub₀ two_ne_zero]
    field_simp
    norm_num

theorem inside_sqrt (hx : Normal s v x) : Inside √(v : ℝ) := by
  obtain ⟨hlow, hhigh⟩ := hx.bounds
  rw [Inside, abs_of_nonneg (Real.sqrt_nonneg _)]
  constructor
  · refine Real.le_sqrt_of_sq_le (le_trans ?_ hlow)
    rw [← zpow_natCast, ← zpow_mul]
    exact zpow_le_zpow_right₀ one_le_two (by norm_num)
  · rw [Real.sqrt_le_left (by positivity), ← zpow_natCast, ← zpow_mul]
    exact hhigh.le.trans (zpow_le_zpow_right₀ one_le_two (by norm_num))

theorem sqrt (hx : Normal .positive v x) :
    ∃ z, Normal .positive z (UnpackedFloat.sqrt .binary64 x) ∧ Near z √(v : ℝ) := by
  have hin := hx.inside_sqrt
  obtain @⟨m, e, hm, hlow, hhigh, he, he', rfl⟩ := hx
  have hlog : m.log2 = 52 := (Nat.log2_eq_iff hm.ne').mpr ⟨hlow, hhigh⟩
  -- the exponent is split in two, and what is left over goes to the significand
  obtain ⟨h, b, hb, hsplit⟩ : ∃ h : ℤ, ∃ b : ℕ, b < 2 ∧ e = 2 * h + b :=
    ⟨e / 2, (e % 2).toNat, by omega, by omega⟩
  have hcore : sqrtCore .binary64 m e = ((m * 2 ^ (52 + b)).sqrt, h - 26,
      if m * 2 ^ (52 + b) - (m * 2 ^ (52 + b)).sqrt * (m * 2 ^ (52 + b)).sqrt = 0 then .exact
      else .inexact (if m * 2 ^ (52 + b) - (m * 2 ^ (52 + b)).sqrt * (m * 2 ^ (52 + b)).sqrt ≤
        (m * 2 ^ (52 + b)).sqrt then .lt else .gt)) := by
    have htarget : min (e.ediv 2) (Float.Model.Format.binary64.targetExponent
        ((Float.Model.totalExponent m e + 1).ediv 2)) = h - 26 := by
      show min (e / 2) (max (((m.log2 : ℤ) + 1 + e + 1) / 2 - 53) (-1074)) = _
      omega
    unfold sqrtCore
    dsimp only
    rw [htarget, show (e - 2 * (h - 26)).toNat = 52 + b by omega, Nat.shiftLeft_eq]
  show ∃ z, Normal .positive z (let (q, e, a) := sqrtCore .binary64 m e
    roundWithAccuracy .binary64 .positive q e a) ∧ _
  rw [hcore]
  have hvalue : √((m * 2 ^ (52 + b) : ℕ) : ℝ) * 2 ^ (h - 26) = √((m * 2 ^ e : ℚ) : ℝ) := by
    have hsq : (2 : ℝ) ^ (h - 26) = √(2 ^ (2 * (h - 26))) := by
      rw [mul_comm, zpow_mul, zpow_ofNat, Real.sqrt_sq (by positivity)]
    rw [hsq, ← Real.sqrt_mul (by positivity)]
    congr 1
    push_cast
    rw [hsplit, mul_assoc, ← zpow_natCast, ← zpow_add₀ two_ne_zero]
    congr 2
    push_cast
    ring
  refine near_round (.root _) ?_ hvalue hin
  rw [Nat.le_sqrt]
  calc 2 ^ 52 * 2 ^ 52 ≤ m * 2 ^ 52 := Nat.mul_le_mul_right _ hlow
    _ ≤ m * 2 ^ (52 + b) := Nat.mul_le_mul_left _ (Nat.pow_le_pow_right two_pos (by omega))

theorem lt_iff (hx : Normal .positive v x) (hy : Normal .positive w y) :
    x.lt y = true ↔ v < w := by
  obtain @⟨m, e, hm, hlow, hhigh, -, -, rfl⟩ := hx
  obtain @⟨n, f, hn, hlow', hhigh', -, -, rfl⟩ := hy
  -- a greater exponent outweighs every significand
  have hless : ∀ {m n : Nat} {e f : Int}, m < 2 ^ 53 → 2 ^ 52 ≤ n → e < f →
      (m : ℚ) * 2 ^ e < n * 2 ^ f := by
    intro m n e f hm hn hlt
    calc (m : ℚ) * 2 ^ e < 2 ^ 53 * 2 ^ e :=
          mul_lt_mul_of_pos_right (by exact_mod_cast hm) (by positivity)
      _ = 2 ^ 52 * 2 ^ (e + 1) := by rw [zpow_add_one₀ two_ne_zero]; ring
      _ ≤ n * 2 ^ f := mul_le_mul (by exact_mod_cast hn)
          (zpow_le_zpow_right₀ one_le_two hlt) (by positivity) (by positivity)
  have hlevel : (toLex ((1 : ℤ), toLex (e, (m : ℤ))) < toLex ((1 : ℤ), toLex (f, (n : ℤ)))) ↔
      e < f ∨ e = f ∧ m < n := by
    rw [Prod.Lex.toLex_lt_toLex, Prod.Lex.toLex_lt_toLex]
    simp
  rw [UnpackedFloat.lt_iff]
  simp only [level, Option.some.injEq, exists_and_left, exists_eq_left']
  rw [hlevel]
  rcases lt_trichotomy e f with h | rfl | h
  · exact iff_of_true (by simp [h]) (hless hhigh hlow' h)
  · rw [mul_lt_mul_iff_left₀ (by positivity)]
    simp
  · refine iff_of_false ?_ (hless hhigh' hlow h).not_gt
    simp [h.not_gt, h.ne']

end Normal

/-! ## What numbers of 64 bits stand for -/

/-- A real of a sign and a magnitude. -/
def signed : Sign → ℝ → ℝ
  | .positive, x => x
  | .negative, x => -x

theorem abs_signed {s : Sign} {x : ℝ} : |signed s x| = |x| := by
  cases s
  · exact abs_neg x
  · rfl

theorem signed_mul {s t : Sign} {x y : ℝ} : signed (s * t) (x * y) = signed s x * signed t y := by
  cases s <;> cases t
  · exact (neg_mul_neg x y).symm
  · exact (neg_mul x y).symm
  · exact (mul_neg x y).symm
  · rfl

theorem signed_div {s t : Sign} {x y : ℝ} : signed (s / t) (x / y) = signed s x / signed t y := by
  cases s <;> cases t
  · exact (neg_div_neg_eq x y).symm
  · exact (neg_div y x).symm
  · exact (div_neg x).symm
  · rfl

theorem inside_signed {s : Sign} {x : ℝ} : Inside (signed s x) ↔ Inside x := by
  rw [Inside, Inside, abs_signed]

theorem signed_ne_zero {s : Sign} {x : ℝ} (h : 0 < x) : signed s x ≠ 0 := by
  rw [← abs_ne_zero, abs_signed]
  exact abs_ne_zero.mpr h.ne'

theorem Near.signed {s : Sign} {z x : ℝ} (h : Near z x) :
    Near (Numeral.signed s z) (Numeral.signed s x) := by
  cases s
  · show |-z - -x| ≤ _ * |-x|
    rwa [neg_sub_neg, abs_sub_comm, abs_neg]
  · exact h

theorem near_self (x : ℝ) : Near x x := by
  rw [Near, sub_self, abs_zero]
  positivity

/-- A zero, or a number with a significand of full length, stands for a real. -/
inductive Stands : UnpackedFloat → ℝ → Prop
  | zero {s : Sign} : Stands (.zero s) 0
  | normal {s : Sign} {v : ℚ} {u : UnpackedFloat} (h : Normal s v u) : Stands u (signed s v)

namespace Stands

variable {x y : UnpackedFloat} {a b : ℝ}

theorem unpack_pack (h : Stands x a) : (Float.Model.pack x).unpack = x := by
  cases h with
  | zero => exact unpack_packedZero
  | normal h => exact h.unpack_pack

theorem of_near {s : Sign} (h : ∃ z : ℚ, Normal s z x ∧ Near z a) :
    ∃ c, Stands x c ∧ Near c (signed s a) := by
  obtain ⟨z, hz, hnear⟩ := h
  exact ⟨_, .normal hz, hnear.signed⟩

theorem mul (hx : Stands x a) (hy : Stands y b) (hin : a * b = 0 ∨ Inside (a * b)) :
    ∃ c, Stands (.mul .binary64 x y) c ∧ Near c (a * b) := by
  cases hx with
  | zero =>
      rw [zero_mul]
      cases hy with
      | zero => exact ⟨0, .zero, near_self 0⟩
      | normal hy =>
          obtain ⟨-, -, -, -, -⟩ := hy
          exact ⟨0, .zero, near_self 0⟩
  | @normal s v _ hx =>
      cases hy with
      | zero =>
          obtain ⟨-, -, -, -, -⟩ := hx
          rw [mul_zero]
          exact ⟨0, .zero, near_self 0⟩
      | @normal t w _ hy =>
          have hv : (0 : ℝ) < v := by exact_mod_cast hx.pos
          have hw : (0 : ℝ) < w := by exact_mod_cast hy.pos
          have hin := hin.resolve_left (mul_ne_zero (signed_ne_zero hv) (signed_ne_zero hw))
          rw [← signed_mul] at hin ⊢
          exact of_near (hx.mul hy (inside_signed.mp hin))

theorem div (hx : Stands x a) (hy : Stands y b) (hb : b ≠ 0) (hin : a / b = 0 ∨ Inside (a / b)) :
    ∃ c, Stands (.div .binary64 x y) c ∧ Near c (a / b) := by
  cases hy with
  | zero => exact absurd rfl hb
  | @normal t w _ hy =>
      cases hx with
      | zero =>
          obtain ⟨-, -, -, -, -⟩ := hy
          rw [zero_div]
          exact ⟨0, .zero, near_self 0⟩
      | @normal s v _ hx =>
          have hv : (0 : ℝ) < v := by exact_mod_cast hx.pos
          have hin := hin.resolve_left (div_ne_zero (signed_ne_zero hv) hb)
          rw [← signed_div] at hin ⊢
          exact of_near (hx.div hy (inside_signed.mp hin))

/-- What is not below zero has no sign, or is a zero. -/
theorem not_neg (hx : Stands x a) (ha : 0 ≤ a) :
    (a = 0 ∧ ∃ s, x = .zero s) ∨ ∃ v : ℚ, a = v ∧ Normal .positive v x := by
  cases hx with
  | @zero s => exact .inl ⟨rfl, s, rfl⟩
  | @normal s v _ hx =>
      cases s with
      | positive => exact .inr ⟨v, rfl, hx⟩
      | negative =>
          have hv : (0 : ℝ) < v := by exact_mod_cast hx.pos
          exact absurd (neg_nonneg.mp ha) hv.not_ge

theorem sqrt (hx : Stands x a) (ha : 0 ≤ a) :
    ∃ c, Stands (.sqrt .binary64 x) c ∧ Near c √a := by
  rcases hx.not_neg ha with ⟨rfl, s, rfl⟩ | ⟨v, rfl, hv⟩
  · rw [Real.sqrt_zero]
    exact ⟨0, .zero, near_self 0⟩
  · exact of_near hv.sqrt

theorem add (hx : Stands x a) (hy : Stands y b) (ha : 0 ≤ a) (hb : 0 ≤ b)
    (hin : a + b = 0 ∨ Inside (a + b)) :
    ∃ c, Stands (.add .binary64 x y) c ∧ Near c (a + b) := by
  rcases hx.not_neg ha with ⟨rfl, s, rfl⟩ | ⟨v, rfl, hv⟩
  · rw [zero_add]
    refine ⟨b, ?_, near_self b⟩
    rcases hy.not_neg hb with ⟨rfl, t, rfl⟩ | ⟨w, rfl, hw⟩
    · cases s <;> cases t <;> exact .zero
    · obtain ⟨-, -, -, -, -⟩ := hw
      exact hy
  · rcases hy.not_neg hb with ⟨rfl, t, rfl⟩ | ⟨w, rfl, hw⟩
    · rw [add_zero]
      refine ⟨v, ?_, near_self _⟩
      obtain ⟨-, -, -, -, -⟩ := hv
      exact hx
    · have hpos : (0 : ℝ) < v + w := by exact_mod_cast add_pos hv.pos hw.pos
      exact of_near (hv.add hw (hin.resolve_left hpos.ne'))

theorem lt_iff (hx : Stands x a) (hy : Stands y b) (ha : 0 < a) (hb : 0 ≤ b) :
    x.lt y = true ↔ a < b := by
  rcases hx.not_neg ha.le with ⟨rfl, -⟩ | ⟨v, rfl, hv⟩
  · exact absurd ha (lt_irrefl 0)
  rcases hy.not_neg hb with ⟨rfl, t, rfl⟩ | ⟨w, rfl, hw⟩
  · obtain ⟨-, -, -, -, -⟩ := hv
    exact iff_of_false Bool.false_ne_true ha.not_gt
  · exact (hv.lt_iff hw).trans Rat.cast_lt.symm

end Stands

/-- A number of 64 bits stands for a real. -/
def Denotes (x : Float) (a : ℝ) : Prop := Stands x.toModel.unpack a

theorem Stands.denotes {u : UnpackedFloat} {x : Float} {a : ℝ} (h : Stands u a)
    (hx : x.toModel = .pack u) : Denotes x a := by
  rw [Denotes, hx]
  exact h.unpack_pack.symm ▸ h

namespace Denotes

variable {x y : Float} {a b : ℝ}

theorem mul (hx : Denotes x a) (hy : Denotes y b) (hin : a * b = 0 ∨ Inside (a * b)) :
    ∃ c, Denotes (x * y) c ∧ Near c (a * b) := by
  obtain ⟨c, hc, hnear⟩ := Stands.mul hx hy hin
  exact ⟨c, hc.denotes rfl, hnear⟩

theorem div (hx : Denotes x a) (hy : Denotes y b) (hb : b ≠ 0)
    (hin : a / b = 0 ∨ Inside (a / b)) : ∃ c, Denotes (x / y) c ∧ Near c (a / b) := by
  obtain ⟨c, hc, hnear⟩ := Stands.div hx hy hb hin
  exact ⟨c, hc.denotes rfl, hnear⟩

theorem add (hx : Denotes x a) (hy : Denotes y b) (ha : 0 ≤ a) (hb : 0 ≤ b)
    (hin : a + b = 0 ∨ Inside (a + b)) : ∃ c, Denotes (x + y) c ∧ Near c (a + b) := by
  obtain ⟨c, hc, hnear⟩ := Stands.add hx hy ha hb hin
  exact ⟨c, hc.denotes rfl, hnear⟩

theorem sqrt (hx : Denotes x a) (ha : 0 ≤ a) : ∃ c, Denotes x.sqrt c ∧ Near c √a := by
  obtain ⟨c, hc, hnear⟩ := Stands.sqrt hx ha
  exact ⟨c, hc.denotes rfl, hnear⟩

theorem lt_iff (hx : Denotes x a) (hy : Denotes y b) (ha : 0 < a) (hb : 0 ≤ b) :
    x < y ↔ a < b := by
  show Float.lt x y = true ↔ _
  rw [Float.lt, decide_eq_true_iff]
  exact Stands.lt_iff hx hy ha hb

end Denotes

end FilterTree.Numeral
