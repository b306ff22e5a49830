import FilterTree.Numeral.Binary
import FilterTree.Proofs.FloatOrder

/-!
# Integers as numbers of 64 bits

A number of 64 bits has room for 53 bits of significand. A longer integer is
rounded to a multiple of a power of two (`spacing`), a half to the even multiple,
and what comes out is the nearest integer that 64 bits can hold as a number
(`nearestWhole`). So an integer survives exactly if it is such a multiple, and
otherwise it is off by at most one part in 2^53.

That the conversion does this is proved of its definition, which shifts the
integer to the right bit by bit, with a bit for the half and a bit for the rest.
These two and the significand are a quotient that has been cut off (`Cuts`),
one shift doubles the divisor, and rounding reads the three of them as rounding
the quotient. The significand that comes out has full length (`Normal`), and such
a number is unpacked as it was packed.
-/

namespace FilterTree.Numeral

open Float.Model (UnpackedFloat)
open Float.Model.UnpackedFloat

/-! ## Bit patterns -/

/-- What an unpacked number stands for. -/
def Datum.ofUnpacked : UnpackedFloat → Datum
  | .notANumber => .nan
  | .infinity s => .infinite (s == .negative)
  | .zero s => .finite (s == .negative) 0 (Format.leastExponent .binary64)
  | .finite s m e _ => .finite (s == .negative) m e

/-- The number that a datum is, unless it is infinite or none. -/
def Datum.value? : Datum → Option ℚ
  | .finite negative significand exponent =>
    some ((if negative then -1 else 1) * significand * 2 ^ exponent)
  | _ => none

section pattern

variable (b : BitVec (Float.Model.Format.numBits .binary64))

theorem toNat_unpackMantissa : (unpackMantissa b).toNat = b.toNat % 2 ^ 52 := by
  rw [unpackMantissa, BitVec.toNat_cast, BitVec.extractLsb_toNat, Nat.shiftRight_zero]
  rfl

theorem toNat_unpackExponent : (unpackExponent b).toNat = b.toNat / 2 ^ 52 % 2 ^ 11 := by
  rw [unpackExponent, BitVec.toNat_cast, BitVec.extractLsb_toNat, Nat.shiftRight_eq_div_pow]
  rfl

theorem toNat_unpackSign : (unpackSign b).toNat = b.toNat / 2 ^ 52 / 2 ^ 11 % 2 := by
  rw [unpackSign, BitVec.toNat_cast, BitVec.extractLsb_toNat, Nat.shiftRight_eq_div_pow,
    Nat.div_div_eq_div_mul]
  rfl

theorem ofBitVec_beq_negative (v : BitVec 1) :
    (Sign.ofBitVec v == .negative) = (v.toNat == 1) := by
  revert v
  decide

theorem toNat_one_append {n : Nat} (v : BitVec n) : (1#1 ++ v).toNat = 2 ^ n + v.toNat := by
  rw [BitVec.toNat_append, ← Nat.shiftLeft_add_eq_or_of_lt v.isLt]
  exact congrArg (· + _) (Nat.one_shiftLeft n)

theorem decode_toNat : Format.decode .binary64 b.toNat =
    .ofUnpacked (unpack Float.Model.Format.binary64 b) := by
  have hm := toNat_unpackMantissa b
  have he := toNat_unpackExponent b
  have hs := toNat_unpackSign b
  have htop : unpackExponent b = -1#_ ↔ (unpackExponent b).toNat = 2 ^ 11 - 1 := by
    rw [← BitVec.toNat_inj]
    rfl
  have hleast : unpackExponent b = 0#_ ↔ (unpackExponent b).toNat = 0 := by
    rw [← BitVec.toNat_inj]
    rfl
  have hfraction : unpackMantissa b = 0#_ ↔ (unpackMantissa b).toNat = 0 := by
    rw [← BitVec.toNat_inj]
    rfl
  -- the same cases on both sides, said of naturals here and of bits there
  show (if b.toNat / 2 ^ 52 % 2 ^ 11 = 2 ^ 11 - 1 then
      if b.toNat % 2 ^ 52 = 0 then Datum.infinite (b.toNat / 2 ^ 52 / 2 ^ 11 % 2 == 1) else .nan
    else if b.toNat / 2 ^ 52 % 2 ^ 11 = 0 then
      .finite (b.toNat / 2 ^ 52 / 2 ^ 11 % 2 == 1) (b.toNat % 2 ^ 52) (-1074)
    else .finite (b.toNat / 2 ^ 52 / 2 ^ 11 % 2 == 1) (2 ^ 52 + b.toNat % 2 ^ 52)
      (-1074 + (b.toNat / 2 ^ 52 % 2 ^ 11 : Nat) - 1)) = _
  rw [← hm, ← he, ← hs, ← ofBitVec_beq_negative]
  unfold unpack
  dsimp only
  by_cases h : unpackExponent b = -1#_
  · rw [if_pos (htop.mp h), if_pos h]
    by_cases h0 : unpackMantissa b = 0#_
    · rw [if_pos (hfraction.mp h0), if_pos h0]
      rfl
    · rw [if_neg (mt hfraction.mpr h0), if_neg h0]
      rfl
  · rw [if_neg (mt htop.mpr h), if_neg h]
    by_cases h0 : unpackExponent b = 0#_
    · rw [if_pos (hleast.mp h0), if_pos h0, h0]
      by_cases h1 : unpackMantissa b = 0#_
      · rw [dif_pos h1, h1]
        rfl
      · rw [dif_neg h1]
        rfl
    · rw [if_neg (mt hleast.mpr h0), if_neg h0, Datum.ofUnpacked, toNat_one_append]
      congr 1
      show (-1074 : Int) + _ - 1 = _ - (1023 + 52)
      omega

end pattern

theorem datum64_eq (x : Float) : datum64 x = .ofUnpacked x.toModel.unpack := decode_toNat _

theorem significand_lt {x : Float} {negative : Bool} {m : Nat} {e : Int}
    (h : datum64 x = .finite negative m e) : m < 2 ^ 53 := by
  unfold datum64 Format.decode at h
  dsimp only at h
  have hfraction : x.toBits.toNat % 2 ^ 52 < 2 ^ 52 := Nat.mod_lt _ (by omega)
  split at h
  · split at h <;> cases h
  · split at h
    · obtain ⟨-, rfl, -⟩ := Datum.finite.inj h
      show x.toBits.toNat % 2 ^ 52 < 2 ^ 53
      omega
    · obtain ⟨-, rfl, -⟩ := Datum.finite.inj h
      show 2 ^ 52 + x.toBits.toNat % 2 ^ 52 < 2 ^ 53
      omega

/-! ## Significands of full length -/

/-- A number of a sign and a magnitude whose significand has full length. -/
inductive Normal (s : Sign) (v : ℚ) : UnpackedFloat → Prop
  | finite {m : Nat} {e : Int} {hm : 0 < m} (hlow : 2 ^ 52 ≤ m) (hhigh : m < 2 ^ 53)
      (he : -1074 ≤ e) (he' : e ≤ 971) (hv : m * 2 ^ e = v) : Normal s v (.finite s m e hm)

namespace Normal

variable {s : Sign} {v : ℚ} {u : UnpackedFloat} {x : Float}

theorem neg (h : Normal s v u) : Normal (-s) v u.neg := by
  cases h with
  | finite hlow hhigh he he' hv => exact .finite hlow hhigh he he' hv

theorem unpack_pack (h : Normal s v u) : (Float.Model.pack u).unpack = u := by
  obtain @⟨m, e, hm, hlow, hhigh, he, he', -⟩ := h
  have hlog : m.log2 = 52 := (Nat.log2_eq_iff hm.ne').mpr ⟨hlow, hhigh⟩
  have hbias : ((Float.Model.Format.binary64.exponentBias : Nat) : Int) = 1023 := rfl
  obtain ⟨k, hk⟩ : ∃ k : Nat, e + 1075 = k := ⟨(e + 1075).toNat, by omega⟩
  have hbiased : (e + (Float.Model.Format.binary64.exponentBias : Nat) + (52 : Nat)).toNat = k := by
    omega
  have hexact : (k : Int) - (1023 + (52 : Nat)) = e := by omega
  have hfraction : (BitVec.ofNat 52 m).toNat = m - 2 ^ 52 := by
    rw [BitVec.toNat_ofNat]
    omega
  have hexponent : (BitVec.ofNat 11 k).toNat = k := by
    rw [BitVec.toNat_ofNat]
    omega
  have htop : BitVec.ofNat 11 k ≠ -1#11 := by
    rw [BitVec.toNat_ne, hexponent]
    show k ≠ 2047
    omega
  have hleast : BitVec.ofNat 11 k ≠ 0#11 := by
    rw [BitVec.toNat_ne, hexponent]
    show k ≠ 0
    omega
  show unpack Float.Model.Format.binary64 (pack Float.Model.Format.binary64 (.finite s m e hm)) = _
  unfold pack
  simp only [hbiased, hlog]
  rw [if_neg (show ¬ 2 ^ 11 ≤ k + 1 by omega),
    if_pos (show 52 + 1 = Float.Model.Format.binary64.mantissaBits from rfl)]
  unfold unpack
  simp only [unpackExponent_packComponents, unpackMantissa_packComponents,
    unpackSign_packComponents, Sign.ofBitVec_toBitVec]
  rw [if_neg htop, if_neg hleast]
  simp only [toNat_one_append, hfraction, hexponent, hbias, Nat.add_sub_cancel' hlow, hexact]

theorem value?_eq (h : Normal s v u) (hx : x.toModel = Float.Model.pack u) :
    (datum64 x).value? = some (if s == .negative then -v else v) := by
  rw [datum64_eq, hx, h.unpack_pack]
  obtain ⟨-, -, -, -, rfl⟩ := h
  cases s <;> simp [Datum.ofUnpacked, Datum.value?]

end Normal

/-! ## Rounding a quotient -/

section roundToEven

variable {a d n : Nat}

theorem roundToEven_mul_right (hd : 0 < d) : roundToEven (a * d) d = a := by
  unfold roundToEven
  dsimp only
  rw [Nat.mul_mod_left, Nat.mul_div_cancel _ hd, if_pos (by omega)]

theorem roundToEven_one : roundToEven a 1 = a := by
  have h := roundToEven_mul_right (a := a) Nat.one_pos
  rwa [Nat.mul_one] at h

/-- The nearest integer is off by at most a half. -/
theorem roundToEven_near (hd : 0 < d) :
    2 * a ≤ 2 * (roundToEven a d * d) + d ∧ 2 * (roundToEven a d * d) ≤ 2 * a + d := by
  have ha := Nat.div_add_mod' a d
  have hr := Nat.mod_lt a hd
  have hnext : (a / d + 1) * d = a / d * d + d := by ring
  unfold roundToEven
  dsimp only
  split
  · omega
  · split
    · omega
    · rcases Nat.mod_two_eq_zero_or_one (a / d) with h | h
      · rw [h, Nat.add_zero]
        omega
      · rw [h]
        omega

theorem roundToEven_within (hd : 0 < d) (hlow : n * d ≤ a) (hhigh : a < (n + n) * d) :
    n ≤ roundToEven a d ∧ roundToEven a d ≤ n + n := by
  have hleast := (Nat.le_div_iff_mul_le hd).mpr hlow
  have hgreatest := (Nat.div_lt_iff_lt_mul hd).mpr hhigh
  unfold roundToEven
  dsimp only
  split
  · omega
  · split <;> omega

end roundToEven

/-- A significand with a bit for the half and a bit for the rest is a quotient that was cut off. -/
def Cuts (em : ExtendedMantissa) (a d : Nat) : Prop :=
  ∃ r < d, a = em.mantissa * d + r ∧ (em.roundBit ↔ d ≤ 2 * r) ∧
    (em.stickyBit ↔ 2 * r ≠ 0 ∧ 2 * r ≠ d)

namespace Cuts

variable {em : ExtendedMantissa} {a d : Nat}

theorem shiftRightOne (h : Cuts em a d) : Cuts em.shiftRightOne a (d * 2) := by
  obtain ⟨r, hr, ha, hround, hsticky⟩ := h
  have hcut : a = em.mantissa / 2 * (d * 2) + (em.mantissa % 2 * d + r) := by
    rw [ha]
    nth_rewrite 1 [← Nat.div_add_mod em.mantissa 2]
    ring
  have hrest : (em.roundBit || em.stickyBit) ↔ r ≠ 0 := by
    rw [Bool.or_eq_true, hround, hsticky]
    omega
  refine ⟨em.mantissa % 2 * d + r, ?_, hcut, ?_, ?_⟩
  · rcases Nat.mod_two_eq_zero_or_one em.mantissa with hb | hb <;> rw [hb] <;> omega
  · show (em.mantissa % 2 != 0) = true ↔ _
    rcases Nat.mod_two_eq_zero_or_one em.mantissa with hb | hb <;> rw [hb] <;> simp <;> omega
  · refine hrest.trans ?_
    rcases Nat.mod_two_eq_zero_or_one em.mantissa with hb | hb <;> rw [hb] <;> omega

theorem shiftRight (m k : Nat) : Cuts (ExtendedMantissa.mk m false false >>> k) m (2 ^ k) := by
  induction k with
  | zero =>
      show Cuts ⟨m, false, false⟩ m 1
      exact ⟨0, by simp, by simp, by simp, by simp⟩
  | succ k ih =>
      rw [pow_succ]
      exact ih.shiftRightOne

theorem roundedMantissa (h : Cuts em a d) : em.roundedMantissa = roundToEven a d := by
  obtain ⟨m, round, sticky⟩ := em
  obtain ⟨r, hr, ha, hround, hsticky⟩ := h
  have hdiv : a / d = m := by
    rw [ha, Nat.mul_comm, Nat.mul_add_div (by omega), Nat.div_eq_of_lt hr, Nat.add_zero]
  have hmod : a % d = r := by
    rw [ha, Nat.mul_comm, Nat.mul_add_mod, Nat.mod_eq_of_lt hr]
  unfold roundToEven
  simp only [hdiv, hmod]
  cases round <;> cases sticky <;>
    simp [ExtendedMantissa.roundedMantissa, ExtendedMantissa.accuracy,
      Accuracy.roundToNearestEven] at hround hsticky ⊢
  · omega
  · omega
  · obtain rfl : d = 2 * r := by omega
    simp
  · rw [if_neg (by omega), if_pos (by omega)]

end Cuts

theorem targetExponent_eq {m : Nat} {e : Int} : Float.Model.Format.binary64.targetExponent
    (Float.Model.totalExponent m e) = max (m.log2 + 1 + e - 53) (-1074) := rfl

theorem shiftToTargetExponent_eq {m k : Nat} {e : Int} {accuracy : Accuracy}
    (hk : (max (m.log2 + 1 + e - 53) (-1074) - e).toNat = k) :
    shiftToTargetExponent .binary64 m e accuracy =
      (ExtendedMantissa.ofMantissaAndAccuracy m accuracy >>> k, e + k) := by
  unfold shiftToTargetExponent shiftToExponent
  dsimp only
  rw [targetExponent_eq, hk]

/-- Of a significand that is too long by some bits the rounded rest is kept. -/
theorem normal_roundWithAccuracy {s : Sign} {m k r : Nat} {e : Int} {accuracy : Accuracy}
    (hlow : 2 ^ (52 + k) ≤ m) (hhigh : m < 2 ^ (53 + k)) (he : -1074 ≤ e + k) (he' : e + k ≤ 970)
    (hr : (ExtendedMantissa.ofMantissaAndAccuracy m accuracy >>> k).roundedMantissa = r)
    (hleast : 2 ^ 52 ≤ r) (hgreatest : r ≤ 2 ^ 53) :
    Normal s (r * 2 ^ (e + k)) (roundWithAccuracy .binary64 s m e accuracy) := by
  have hlog : m.log2 = 52 + k :=
    (Nat.log2_eq_iff (Nat.ne_of_gt ((Nat.two_pow_pos _).trans_le hlow))).mpr
      ⟨hlow, by rwa [Nat.add_right_comm]⟩
  have hfirst : shiftToTargetExponent .binary64 m e accuracy =
      (ExtendedMantissa.ofMantissaAndAccuracy m accuracy >>> k, e + k) := by
    refine shiftToTargetExponent_eq ?_
    rw [hlog]
    omega
  unfold roundWithAccuracy
  rw [hfirst]
  dsimp only
  rw [hr]
  -- rounding up can make the significand one bit longer, and then it is a power of two
  rcases Nat.lt_or_ge r (2 ^ 53) with hlt | hge
  · have hsecond : shiftToTargetExponent .binary64 r (e + k) .exact =
        (⟨r, false, false⟩, e + k) := by
      have hlog : r.log2 = 52 := (Nat.log2_eq_iff (by omega)).mpr ⟨hleast, hlt⟩
      rw [shiftToTargetExponent_eq (k := 0) (by rw [hlog]; omega)]
      exact congrArg (Prod.mk _) (add_zero _)
    rw [hsecond]
    dsimp only
    rw [dif_neg (by omega)]
    exact .finite hleast hlt he (by omega) rfl
  · obtain rfl : r = 2 ^ 53 := by omega
    have hsecond : shiftToTargetExponent .binary64 (2 ^ 53) (e + k) .exact =
        (⟨2 ^ 52, false, false⟩, e + k + 1) := by
      rw [shiftToTargetExponent_eq (k := 1) (by rw [Nat.log2_two_pow]; omega)]
      rfl
    rw [hsecond]
    dsimp only
    rw [dif_neg (by omega)]
    refine .finite (by omega) (by omega) (by omega) (by omega) ?_
    rw [zpow_add_one₀ two_ne_zero]
    push_cast
    ring

/-- A significand that is too long by some bits is rounded to full length. -/
theorem normal_round {s : Sign} {m k : Nat} {e : Int} (hlow : 2 ^ (52 + k) ≤ m)
    (hhigh : m < 2 ^ (53 + k)) (he : -1074 ≤ e + k) (he' : e + k ≤ 970) :
    Normal s (roundToEven m (2 ^ k) * 2 ^ (e + k)) (roundWithAccuracy .binary64 s m e .exact) := by
  obtain ⟨hleast, hgreatest⟩ := @roundToEven_within m (2 ^ k) (2 ^ 52) (Nat.two_pow_pos k)
    (by rwa [← pow_add]) (by rwa [← mul_two, ← pow_succ, ← pow_add])
  exact normal_roundWithAccuracy hlow hhigh he he' (Cuts.shiftRight m k).roundedMantissa hleast
    (by omega)

/-! ## Integers -/

/--
The distance between numbers of 64 bits that are as large as an integer, or one
where they lie closer than integers.
-/
def spacing (n : Nat) : Nat := 2 ^ (n.log2 - 52)

/-- The integer among the numbers of 64 bits that is nearest to an integer. -/
def nearestWhole (n : Nat) : Nat := roundToEven n (spacing n) * spacing n

section nearestWhole

variable {n : Nat}

theorem spacing_pos : 0 < spacing n := Nat.two_pow_pos _

theorem nearestWhole_eq_self_iff : nearestWhole n = n ↔ spacing n ∣ n := by
  constructor
  · intro h
    have hdvd : spacing n ∣ nearestWhole n := Dvd.intro_left _ rfl
    rwa [h] at hdvd
  · intro h
    obtain ⟨q, hq⟩ := exists_eq_mul_left_of_dvd h
    rw [nearestWhole]
    nth_rewrite 1 [hq]
    rw [roundToEven_mul_right spacing_pos]
    exact hq.symm

/-- What rounding changes is at most one part in 2^53. -/
theorem nearestWhole_near : 2 ^ 53 * |(nearestWhole n : ℤ) - n| ≤ n := by
  by_cases h : spacing n ∣ n
  · rw [nearestWhole_eq_self_iff.mpr h, sub_self, abs_zero, mul_zero]
    exact Int.natCast_nonneg n
  · have hn : n ≠ 0 := by
      rintro rfl
      exact h (dvd_zero _)
    have hlog : 52 ≤ n.log2 := by
      by_contra hlt
      refine h ?_
      rw [spacing, Nat.sub_eq_zero_of_le (by omega)]
      exact one_dvd n
    have hspacing : 2 ^ 52 * spacing n ≤ n := by
      rw [spacing, ← pow_add, Nat.add_sub_cancel' hlog]
      exact Nat.log2_self_le hn
    have hnear := @roundToEven_near n (spacing n) spacing_pos
    rw [← nearestWhole] at hnear
    have habs : 2 * |(nearestWhole n : ℤ) - n| ≤ spacing n := by
      rw [← abs_two (α := ℤ), ← abs_mul, abs_le]
      omega
    omega

/-- A significand is rounded as an integer is, whatever the exponent. -/
theorem normal_nearest {s : Sign} {e : Int} (hn : 0 < n) (he : -1022 ≤ e + n.log2)
    (he' : e + n.log2 ≤ 1022) :
    Normal s (nearestWhole n * 2 ^ e) (UnpackedFloat.round .binary64 s n e) := by
  -- bits are put behind a short significand and taken away from a long one
  obtain ⟨j, hj⟩ : ∃ j, j = 52 - n.log2 := ⟨_, rfl⟩
  obtain ⟨k, hk⟩ : ∃ k, k = n.log2 - 52 := ⟨_, rfl⟩
  have hround : UnpackedFloat.round .binary64 s n e =
      roundWithAccuracy .binary64 s (n * 2 ^ j) (e - j) .exact := by
    unfold UnpackedFloat.round decreaseExponent
    dsimp only
    rw [targetExponent_eq, show (e - max ((n.log2 : ℤ) + 1 + e - 53) (-1074)).toNat = j by omega,
      Nat.shiftLeft_eq]
  have hlow : 2 ^ (52 + k) ≤ n * 2 ^ j := by
    rw [show 52 + k = n.log2 + j by omega, pow_add]
    exact Nat.mul_le_mul_right _ (Nat.log2_self_le hn.ne')
  have hhigh : n * 2 ^ j < 2 ^ (53 + k) := by
    rw [show 53 + k = n.log2 + 1 + j by omega, pow_add]
    exact Nat.mul_lt_mul_of_pos_right Nat.lt_log2_self (Nat.two_pow_pos j)
  have hvalue : (nearestWhole n : ℚ) * 2 ^ e =
      roundToEven (n * 2 ^ j) (2 ^ k) * 2 ^ (e - j + k) := by
    rw [nearestWhole, spacing, ← hk, zpow_add₀ two_ne_zero, zpow_sub₀ two_ne_zero, zpow_natCast,
      zpow_natCast]
    rcases Nat.eq_zero_or_pos j with rfl | hpos
    · rw [pow_zero, pow_zero, mul_one]
      push_cast
      ring
    · obtain rfl : k = 0 := by omega
      rw [pow_zero, pow_zero, roundToEven_one, roundToEven_one]
      push_cast
      field_simp
  rw [hround, hvalue]
  exact normal_round hlow hhigh (by omega) (by omega)

theorem normal_ofNat (hn : 0 < n) (hlt : n < 2 ^ 64) :
    Normal .positive (nearestWhole n) (UnpackedFloat.ofNat .binary64 n) := by
  have hlog : n.log2 < 64 := (Nat.log2_lt hn.ne').mpr hlt
  have hround : UnpackedFloat.ofNat .binary64 n = .round .binary64 .positive n 0 := by
    unfold UnpackedFloat.ofNat ofInt UnpackedFloat.normalize
    rw [Int.compare_eq_gt.mpr (by omega : (n : Int) > 0)]
    dsimp only
    rw [Int.toNat_natCast]
  have hnormal := normal_nearest (s := .positive) (e := 0) hn (by omega) (by omega)
  rwa [zpow_zero, mul_one, ← hround] at hnormal

theorem toModel_toFloat (hlt : n < 2 ^ 64) : (UInt64.ofNat n).toFloat.toModel =
    Float.Model.pack (UnpackedFloat.ofNat .binary64 n) := by
  have hword : (UInt64.ofNat n).toNat = n := by
    rw [UInt64.toNat_ofNat', Nat.mod_eq_of_lt hlt]
  show Float.Model.pack (UnpackedFloat.ofNat .binary64 (UInt64.ofNat n).toNat) = _
  rw [hword]

/-- An integer of 64 bits becomes the nearest number of 64 bits. -/
theorem value?_toFloat (hlt : n < 2 ^ 64) :
    (datum64 (UInt64.ofNat n).toFloat).value? = some (nearestWhole n : ℚ) := by
  rcases Nat.eq_zero_or_pos n with rfl | hn
  · have hzero : datum64 (UInt64.ofNat 0).toFloat = .finite false 0 (-1074) := by decide
    rw [hzero, nearestWhole_eq_self_iff.mpr (dvd_zero _)]
    simp [Datum.value?]
  · exact (normal_ofNat hn hlt).value?_eq (toModel_toFloat hlt)

theorem value?_neg_toFloat (hn : 0 < n) (hlt : n < 2 ^ 64) :
    (datum64 (-(UInt64.ofNat n).toFloat)).value? = some (-(nearestWhole n : ℚ)) := by
  refine (normal_ofNat hn hlt).neg.value?_eq ?_
  show Float.Model.pack (UInt64.ofNat n).toFloat.toModel.unpack.neg = _
  rw [toModel_toFloat hlt, (normal_ofNat hn hlt).unpack_pack]

end nearestWhole

end FilterTree.Numeral
