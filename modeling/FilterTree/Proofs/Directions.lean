import FilterTree.Orientation
import FilterTree.Proofs.Rounding

/-!
# Lengths and directions

A quaternion of numbers of 32 bits has squares that are far from the least and the greatest numbers
of 64 bits, and so have their sums (`Moderate`). All of them are sums of what is not negative, where
roundings only add up (`Within`). So the length that is computed is that of the reals but for three
roundings, of which the root has halved what came before; and a component divided by it is that of
the real direction, but for eight roundings (`Stands.directed`).

Whether a quaternion has a direction at all is decided by its length as it is computed. Near 2^-52
the computed length and the real one may be on different sides.
-/

namespace FilterTree.Numeral

open Float.Model (UnpackedFloat)
open Float.Model.UnpackedFloat

/-! ## Numbers of 32 bits -/

/-- The number that a number of 32 bits is, unless it is infinite or none. -/
def value32? (x : Float32) : Option ℚ :=
  match x.toModel.unpack with
  | .zero _ => some 0
  | .finite .positive m e _ => some (m * 2 ^ e)
  | .finite .negative m e _ => some (-(m * 2 ^ e))
  | _ => none

/-- Zero, or as large as numbers of 32 bits are. -/
inductive Sized : ℝ → Prop
  | zero : Sized 0
  | between {a : ℝ} (hlow : 2 ^ (-149 : ℤ) ≤ |a|) (hhigh : |a| ≤ 2 ^ (128 : ℤ)) : Sized a

theorem bounds_of_unpack {b : BitVec (Float.Model.Format.numBits .binary32)} {s : Sign} {m : Nat}
    {e : Int} {hm : 0 < m} (h : unpack .binary32 b = .finite s m e hm) :
    m < 2 ^ 24 ∧ -149 ≤ e ∧ e ≤ 104 := by
  have hfraction : (unpackMantissa b).toNat < 2 ^ 23 := (unpackMantissa b).isLt
  have hfield : (unpackExponent b).toNat < 2 ^ 8 := (unpackExponent b).isLt
  have hbias : ((Float.Model.Format.binary32.exponentBias : Nat) : Int) = 127 := rfl
  unfold unpack at h
  dsimp only at h
  rw [hbias] at h
  split at h
  · split at h <;> cases h
  · next htop =>
      have htop : (unpackExponent b).toNat ≠ 255 := BitVec.toNat_ne.mp htop
      split at h
      · next hleast =>
          have hleast : (unpackExponent b).toNat = 0 := congrArg BitVec.toNat hleast
          split at h
          · cases h
          · obtain ⟨-, rfl, rfl⟩ := UnpackedFloat.finite.inj h
            rw [hleast]
            omega
      · next hleast =>
          have hleast : (unpackExponent b).toNat ≠ 0 := BitVec.toNat_ne.mp hleast
          obtain ⟨-, rfl, rfl⟩ := UnpackedFloat.finite.inj h
          have hlong : (1#1 ++ unpackMantissa b).toNat = 2 ^ 23 + _ := toNat_one_append _
          omega

theorem stands_widened {x : Float32} {r : ℚ} (h : value32? x = some r) :
    Stands (widened x).toModel.unpack r ∧ Sized r := by
  have hpacked : (widened x).toModel.unpack =
      (Float.Model.pack (inFormat .binary64 x.toModel.unpack)).unpack := rfl
  unfold value32? at h
  rw [hpacked]
  cases hx : x.toModel.unpack with
  | infinity s =>
      rw [hx] at h
      cases h
  | notANumber =>
      rw [hx] at h
      cases h
  | zero s =>
      rw [hx] at h
      cases h
      rw [Rat.cast_zero]
      refine ⟨?_, .zero⟩
      show Stands (Float.Model.pack (.zero s)).unpack _
      rw [(Stands.zero (s := s)).unpack_pack]
      exact .zero
  | finite s m e hm =>
      obtain ⟨hlt, hleast, hgreatest⟩ := bounds_of_unpack hx
      have hlog : m.log2 < 24 := (Nat.log2_lt hm.ne').mpr hlt
      have hnormal := normal_of_short (s := s) hm (e := e) (by omega) (by omega) (by omega)
      have hstands := Stands.normal hnormal
      have hr : (r : ℝ) = signed s ((m * 2 ^ e : ℚ) : ℝ) := by
        rw [hx] at h
        cases s <;> cases h
        · exact Rat.cast_neg _
        · rfl
      have habs : |(r : ℝ)| = m * 2 ^ e := by
        rw [hr, abs_signed, abs_of_nonneg (by positivity)]
        push_cast
        rfl
      refine ⟨?_, .between ?_ ?_⟩
      · rw [inFormat, hstands.unpack_pack, hr]
        exact hstands
      · calc (2 : ℝ) ^ (-149 : ℤ) = 1 * 2 ^ (-149 : ℤ) := (one_mul _).symm
          _ ≤ m * 2 ^ e := mul_le_mul (by exact_mod_cast hm)
            (zpow_le_zpow_right₀ one_le_two hleast) (by positivity) (by positivity)
          _ = |(r : ℝ)| := habs.symm
      · calc |(r : ℝ)| = m * 2 ^ e := habs
          _ ≤ 2 ^ 24 * 2 ^ (104 : ℤ) :=
            mul_le_mul (by exact_mod_cast hlt.le) (zpow_le_zpow_right₀ one_le_two hgreatest)
              (by positivity) (by positivity)
          _ = 2 ^ (128 : ℤ) := by norm_num

/-! ## Within so many roundings -/

/-- A number is off from a real that is not negative by at most so many roundings. -/
structure Within (n : Nat) (z x : ℝ) : Prop where
  low : (1 - 2⁻¹ ^ 53) ^ n * x ≤ z
  high : z ≤ (1 + 2⁻¹ ^ 53) ^ n * x

namespace Within

variable {n : Nat} {z w x y : ℝ}

theorem of_near (h : Near z x) (hx : 0 ≤ x) : Within 1 z x := by
  rw [Near, abs_of_nonneg hx, abs_le] at h
  constructor <;> rw [pow_one] <;> linarith

theorem mono {m : Nat} (h : Within n z x) (hx : 0 ≤ x) (hm : n ≤ m) : Within m z x := by
  have hless : (1 - 2⁻¹ ^ 53 : ℝ) ^ m ≤ (1 - 2⁻¹ ^ 53) ^ n :=
    pow_le_pow_of_le_one (by norm_num) (by norm_num) hm
  have hmore : (1 + 2⁻¹ ^ 53 : ℝ) ^ n ≤ (1 + 2⁻¹ ^ 53) ^ m := pow_le_pow_right₀ (by norm_num) hm
  exact ⟨(mul_le_mul_of_nonneg_right hless hx).trans h.low,
    h.high.trans (mul_le_mul_of_nonneg_right hmore hx)⟩

theorem nonneg (h : Within n z x) (hx : 0 ≤ x) : 0 ≤ z :=
  le_trans (mul_nonneg (pow_nonneg (by norm_num) n) hx) h.low

theorem add (hz : Within n z x) (hw : Within n w y) : Within n (z + w) (x + y) := by
  constructor <;> rw [mul_add]
  · exact add_le_add hz.low hw.low
  · exact add_le_add hz.high hw.high

/-- One rounding more. -/
theorem succ (h : Within n z x) (hx : 0 ≤ x) (hw : Near w z) : Within (n + 1) w x := by
  have hz := h.nonneg hx
  obtain ⟨hlow, hhigh⟩ := of_near hw hz
  rw [pow_one] at hlow hhigh
  constructor
  · calc (1 - 2⁻¹ ^ 53 : ℝ) ^ (n + 1) * x = (1 - 2⁻¹ ^ 53) * ((1 - 2⁻¹ ^ 53) ^ n * x) := by ring
      _ ≤ (1 - 2⁻¹ ^ 53) * z := mul_le_mul_of_nonneg_left h.low (by norm_num)
      _ ≤ w := hlow
  · calc w ≤ (1 + 2⁻¹ ^ 53) * z := hhigh
      _ ≤ (1 + 2⁻¹ ^ 53) * ((1 + 2⁻¹ ^ 53) ^ n * x) :=
        mul_le_mul_of_nonneg_left h.high (by norm_num)
      _ = (1 + 2⁻¹ ^ 53 : ℝ) ^ (n + 1) * x := by ring

/-- A root halves the number of roundings. -/
theorem sqrt (h : Within (2 * n) z x) : Within n √z √x := by
  have hroot : ∀ c : ℝ, 0 ≤ c → √(c ^ (2 * n) * x) = c ^ n * √x := fun c hc => by
    rw [mul_comm 2 n, pow_mul, Real.sqrt_mul (by positivity), Real.sqrt_sq (by positivity)]
  constructor
  · rw [← hroot _ (by norm_num)]
    exact Real.sqrt_le_sqrt h.low
  · rw [← hroot _ (by norm_num)]
    exact Real.sqrt_le_sqrt h.high

/-- Up to eight roundings do not make twice as much of a number, nor half. -/
theorem halves (h : Within n z x) (hx : 0 ≤ x) (hn : n ≤ 8) : x / 2 ≤ z ∧ z ≤ 2 * x := by
  obtain ⟨hlow, hhigh⟩ := h.mono hx hn
  have hless : (1 : ℝ) / 2 ≤ (1 - 2⁻¹ ^ 53) ^ 8 := by norm_num
  have hmore : (1 + 2⁻¹ ^ 53 : ℝ) ^ 8 ≤ 2 := by norm_num
  constructor
  · linarith [mul_le_mul_of_nonneg_right hless hx]
  · linarith [mul_le_mul_of_nonneg_right hmore hx]

end Within

/-! ## Magnitudes -/

/-- Zero, or a number whose magnitude is far from the least, and at most so much. -/
structure Moderate (n : Nat) (x : ℝ) : Prop where
  nonneg : 0 ≤ x
  low : x = 0 ∨ 2 ^ (-298 : ℤ) ≤ x
  high : x ≤ n * 2 ^ (256 : ℤ)

namespace Moderate

variable {m n : Nat} {x y z : ℝ}

theorem add (hx : Moderate m x) (hy : Moderate n y) : Moderate (m + n) (x + y) := by
  obtain ⟨hx, hlow, hhigh⟩ := hx
  obtain ⟨hy, hlow', hhigh'⟩ := hy
  refine ⟨add_nonneg hx hy, ?_, ?_⟩
  · rcases hlow with rfl | hlow
    · rw [zero_add]
      exact hlow'
    · exact .inr (by linarith)
  · push_cast
    linarith

theorem inside (hx : Moderate n x) (hn : n ≤ 4) {k : Nat} (hk : k ≤ 8) (h : Within k z x) :
    z = 0 ∨ Inside z := by
  obtain ⟨hx, hlow, hhigh⟩ := hx
  obtain ⟨hless, hmore⟩ := h.halves hx hk
  rcases hlow with rfl | hlow
  · exact .inl (by linarith)
  · right
    rw [Inside, abs_of_nonneg (by linarith)]
    have hn' : (n : ℝ) ≤ 4 := by exact_mod_cast hn
    constructor
    · calc (2 : ℝ) ^ (-1000 : ℤ) ≤ 2 ^ (-298 - 1 : ℤ) :=
            zpow_le_zpow_right₀ one_le_two (by norm_num)
        _ = 2 ^ (-298 : ℤ) / 2 := by rw [zpow_sub_one₀ two_ne_zero, div_eq_mul_inv]
        _ ≤ z := by linarith
    · calc z ≤ 2 * (4 * 2 ^ (256 : ℤ)) := by
            have := mul_le_mul_of_nonneg_right hn' (by positivity : (0 : ℝ) ≤ 2 ^ (256 : ℤ))
            linarith
        _ = 2 ^ (256 + 3 : ℤ) := by rw [zpow_add₀ two_ne_zero]; norm_num
        _ ≤ 2 ^ (1000 : ℤ) := zpow_le_zpow_right₀ one_le_two (by norm_num)

end Moderate

end FilterTree.Numeral

namespace FilterTree.Quaternion

open Numeral

/-! ## Lengths and directions -/

/-- The length of four reals. -/
noncomputable def magnitude (V : Fin 4 → ℝ) : ℝ := √(V 0 * V 0 + V 1 * V 1 + V 2 * V 2 + V 3 * V 3)

/-- The components of a quaternion, vector part first. -/
def component (q : Quaternion) : Fin 4 → Float
  | 0 => q.x
  | 1 => q.y
  | 2 => q.z
  | 3 => q.w

/-- The components of a quaternion stand for four reals that are as large as numbers of 32 bits. -/
structure Stands (q : Quaternion) (V : Fin 4 → ℝ) : Prop where
  components : ∀ k, Denotes (q.component k) (V k)
  sizes : ∀ k, Sized (V k)

variable {q : Quaternion} {V : Fin 4 → ℝ}

theorem moderate_square {a : ℝ} (h : Sized a) : Moderate 1 (a * a) := by
  cases h with
  | zero =>
      rw [mul_zero]
      exact ⟨le_rfl, .inl rfl, by positivity⟩
  | between hlow hhigh =>
      refine ⟨mul_self_nonneg a, .inr ?_, ?_⟩
      · calc (2 : ℝ) ^ (-298 : ℤ) = 2 ^ (-149 : ℤ) * 2 ^ (-149 : ℤ) := by
              rw [← zpow_add₀ two_ne_zero]
              rfl
          _ ≤ |a| * |a| := mul_le_mul hlow hlow (by positivity) (abs_nonneg a)
          _ = a * a := abs_mul_abs_self a
      · calc a * a = |a| * |a| := (abs_mul_abs_self a).symm
          _ ≤ 2 ^ (128 : ℤ) * 2 ^ (128 : ℤ) := mul_le_mul hhigh hhigh (abs_nonneg a) (by positivity)
          _ = 2 ^ (256 : ℤ) := by
              rw [← zpow_add₀ two_ne_zero]
              rfl
          _ = (1 : ℕ) * 2 ^ (256 : ℤ) := by rw [Nat.cast_one, one_mul]

theorem square_within {x : Float} {a : ℝ} (hx : Denotes x a) (h : Sized a) :
    ∃ c, Denotes (x * x) c ∧ Within 1 c (a * a) := by
  have hsquare := moderate_square h
  have hself : Within 0 (a * a) (a * a) := ⟨by rw [pow_zero, one_mul], by rw [pow_zero, one_mul]⟩
  obtain ⟨c, hc, hnear⟩ := hx.mul hx (hsquare.inside (by norm_num) (by norm_num) hself)
  exact ⟨c, hc, .of_near hnear hsquare.nonneg⟩

theorem sum_within {x y : Float} {a b A B : ℝ} {i m n : Nat} (hx : Denotes x a) (hy : Denotes y b)
    (ha : Within i a A) (hb : Within i b B) (hA : Moderate m A) (hB : Moderate n B)
    (hi : i ≤ 8) (hmn : m + n ≤ 4) : ∃ c, Denotes (x + y) c ∧ Within (i + 1) c (A + B) := by
  have hsum := hA.add hB
  have hboth := ha.add hb
  obtain ⟨c, hc, hnear⟩ := hx.add hy (ha.nonneg hA.nonneg) (hb.nonneg hB.nonneg)
    (hsum.inside hmn hi hboth)
  exact ⟨c, hc, hboth.succ hsum.nonneg hnear⟩

/-- The length is the magnitude, but for three roundings. -/
theorem Stands.length_within (h : q.Stands V) :
    ∃ l, Denotes q.length l ∧ Within 3 l (magnitude V) := by
  have hsquare := fun k => moderate_square (h.sizes k)
  obtain ⟨x, hx, hx'⟩ := square_within (h.components 0) (h.sizes 0)
  obtain ⟨y, hy, hy'⟩ := square_within (h.components 1) (h.sizes 1)
  obtain ⟨z, hz, hz'⟩ := square_within (h.components 2) (h.sizes 2)
  obtain ⟨w, hw, hw'⟩ := square_within (h.components 3) (h.sizes 3)
  have htwo := (hsquare 0).add (hsquare 1)
  have hthree := htwo.add (hsquare 2)
  have hfour := hthree.add (hsquare 3)
  obtain ⟨a, ha, ha'⟩ := sum_within hx hy hx' hy' (hsquare 0) (hsquare 1) (by norm_num)
    (by norm_num)
  obtain ⟨b, hb, hb'⟩ := sum_within ha hz ha' (hz'.mono (hsquare 2).nonneg (by norm_num)) htwo
    (hsquare 2) (by norm_num) (by norm_num)
  obtain ⟨c, hc, hc'⟩ := sum_within hb hw hb' (hw'.mono (hsquare 3).nonneg (by norm_num)) hthree
    (hsquare 3) (by norm_num) (by norm_num)
  obtain ⟨l, hl, hnear⟩ := hc.sqrt (hc'.nonneg hfour.nonneg)
  exact ⟨l, hl, (Within.sqrt (n := 2) hc').succ (Real.sqrt_nonneg _) hnear⟩

theorem magnitude_le (hV : ∀ k, Sized (V k)) : magnitude V ≤ 2 ^ (129 : ℤ) := by
  have hsquare := fun k => moderate_square (hV k)
  have hhigh := ((((hsquare 0).add (hsquare 1)).add (hsquare 2)).add (hsquare 3)).high
  rw [magnitude, Real.sqrt_le_left (by positivity)]
  refine hhigh.trans_eq ?_
  rw [← zpow_natCast, ← zpow_mul, show ((129 : ℤ) * (2 : ℕ)) = 2 + 256 by norm_num,
    zpow_add₀ two_ne_zero]
  norm_num

theorem abs_le_magnitude (k : Fin 4) : |V k| ≤ magnitude V := by
  refine Real.abs_le_sqrt ?_
  have h0 := mul_self_nonneg (V 0)
  have h1 := mul_self_nonneg (V 1)
  have h2 := mul_self_nonneg (V 2)
  have h3 := mul_self_nonneg (V 3)
  rw [pow_two]
  fin_cases k <;> simp only [Fin.zero_eta, Fin.mk_one, Fin.reduceFinMk] <;> linarith

theorem inside_quotient {a l M : ℝ} (hl : Within 3 l M) (hpos : 0 < l) (hM : 0 ≤ M)
    (hM' : M ≤ 2 ^ (129 : ℤ)) (ha : |a| ≤ M) (hlow : 2 ^ (-149 : ℤ) ≤ |a|) : Inside (a / l) := by
  obtain ⟨hhalf, htwice⟩ := hl.halves hM (by norm_num)
  rw [Inside, abs_div, abs_of_pos hpos, le_div_iff₀ hpos, div_le_iff₀ hpos]
  constructor
  · calc (2 : ℝ) ^ (-1000 : ℤ) * l ≤ 2 ^ (-279 : ℤ) * 2 ^ (130 : ℤ) := by
          refine mul_le_mul (zpow_le_zpow_right₀ one_le_two (by norm_num)) ?_ hpos.le
            (by positivity)
          rw [show (130 : ℤ) = 1 + 129 from rfl, zpow_one_add₀ two_ne_zero]
          linarith
      _ = 2 ^ (-149 : ℤ) := by
          rw [← zpow_add₀ two_ne_zero]
          rfl
      _ ≤ |a| := hlow
  · calc |a| ≤ 2 ^ (1 : ℤ) * l := by
          rw [zpow_one]
          linarith
      _ ≤ 2 ^ (1000 : ℤ) * l :=
        mul_le_mul_of_nonneg_right (zpow_le_zpow_right₀ one_le_two (by norm_num)) hpos.le

/-- By how much dividing by a length differs from dividing by the magnitude. -/
theorem ratio_near {l M : ℝ} (hl : Within 3 l M) (hpos : 0 < l) (hM : 0 ≤ M) :
    |M / l - 1| ≤ 4 * 2⁻¹ ^ 53 := by
  rw [abs_le, le_sub_iff_add_le, sub_le_iff_le_add, le_div_iff₀ hpos, div_le_iff₀ hpos]
  constructor
  · calc (-(4 * 2⁻¹ ^ 53) + 1) * l ≤ (-(4 * 2⁻¹ ^ 53) + 1) * ((1 + 2⁻¹ ^ 53) ^ 3 * M) :=
          mul_le_mul_of_nonneg_left hl.high (by norm_num)
      _ = ((-(4 * 2⁻¹ ^ 53) + 1) * (1 + 2⁻¹ ^ 53) ^ 3) * M := by ring
      _ ≤ 1 * M := mul_le_mul_of_nonneg_right (by norm_num) hM
      _ = M := one_mul M
  · calc M = 1 * M := (one_mul M).symm
      _ ≤ ((4 * 2⁻¹ ^ 53 + 1) * (1 - 2⁻¹ ^ 53) ^ 3) * M :=
        mul_le_mul_of_nonneg_right (by norm_num) hM
      _ = (4 * 2⁻¹ ^ 53 + 1) * ((1 - 2⁻¹ ^ 53) ^ 3 * M) := by ring
      _ ≤ (4 * 2⁻¹ ^ 53 + 1) * l := mul_le_mul_of_nonneg_left hl.low (by norm_num)

/-- A quotient of two reals is near that of the numbers, if the divisor is a length. -/
theorem component_near {x y : Float} {a l M : ℝ} (hx : Denotes x a) (hy : Denotes y l)
    (hl : Within 3 l M) (hM : 0 < M) (hM' : M ≤ 2 ^ (129 : ℤ)) (ha : |a| ≤ M) (hsize : Sized a) :
    ∃ d, Denotes (x / y) d ∧ |d - a / M| ≤ 2⁻¹ ^ 50 * |a / M| := by
  have hpos : 0 < l := by linarith [(hl.halves hM.le (by norm_num)).1]
  have hin : a / l = 0 ∨ Inside (a / l) := by
    cases hsize with
    | zero => exact .inl (zero_div l)
    | between hlow => exact .inr (inside_quotient hl hpos hM.le hM' ha hlow)
  obtain ⟨d, hd, hnear⟩ := hx.div hy hpos.ne' hin
  refine ⟨d, hd, ?_⟩
  have hratio := ratio_near hl hpos hM.le
  have hquotient : a / l = a / M * (M / l) := by
    rw [div_mul_div_cancel₀ hM.ne']
  rw [Near, hquotient, abs_mul] at hnear
  have habs : |M / l| ≤ 1 + 4 * 2⁻¹ ^ 53 := by
    have := abs_le.mp hratio
    rw [abs_of_pos (div_pos hM hpos)]
    linarith
  have ht := abs_nonneg (a / M)
  calc |d - a / M| = |(d - a / M * (M / l)) + a / M * (M / l - 1)| := by ring_nf
    _ ≤ |d - a / M * (M / l)| + |a / M * (M / l - 1)| := abs_add_le _ _
    _ ≤ 2⁻¹ ^ 53 * (|a / M| * |M / l|) + |a / M| * |M / l - 1| := by
        rw [abs_mul (a / M) (M / l - 1)]
        linarith
    _ ≤ 2⁻¹ ^ 53 * (|a / M| * (1 + 4 * 2⁻¹ ^ 53)) + |a / M| * (4 * 2⁻¹ ^ 53) :=
        add_le_add (mul_le_mul_of_nonneg_left (mul_le_mul_of_nonneg_left habs ht) (by positivity))
          (mul_le_mul_of_nonneg_left hratio ht)
    _ = (2⁻¹ ^ 53 * (1 + 4 * 2⁻¹ ^ 53) + 4 * 2⁻¹ ^ 53) * |a / M| := by ring
    _ ≤ 2⁻¹ ^ 50 * |a / M| := mul_le_mul_of_nonneg_right (by norm_num) ht

/-- A quaternion has the direction of four reals, but for eight roundings of each component. -/
structure Directed (V : Fin 4 → ℝ) (p : Quaternion) : Prop where
  components : ∀ k, ∃ d, Denotes (p.component k) d ∧
    |d - V k / magnitude V| ≤ 2⁻¹ ^ 50 * |V k / magnitude V|

theorem leastLength_denotes : Denotes leastLength (2⁻¹ ^ 52) := by
  have hunpack : leastLength.toModel.unpack = .finite .positive (2 ^ 52) (-104) (by norm_num) := rfl
  have hnormal : Normal .positive (2⁻¹ ^ 52) leastLength.toModel.unpack := by
    rw [hunpack]
    exact .finite le_rfl (by norm_num) (by norm_num) (by norm_num) (by norm_num)
  have hstands := Numeral.Stands.normal hnormal
  rw [Denotes]
  convert hstands using 1
  show _ = ((2⁻¹ ^ 52 : ℚ) : ℝ)
  push_cast
  rfl

theorem lt_length_iff {l : ℝ} (hl : Denotes q.length l) (hwithin : Within 3 l (magnitude V)) :
    leastLength < q.length ↔ 2⁻¹ ^ 52 < l :=
  leastLength_denotes.lt_iff hl (by positivity) (hwithin.nonneg (Real.sqrt_nonneg _))

/-- What decides of a direction is the length of the reals, but for two parts in 2^52. -/
theorem Stands.length_near (h : q.Stands V) :
    ∃ l, |l - magnitude V| ≤ 2⁻¹ ^ 51 * magnitude V ∧
      (leastLength < q.length ↔ 2⁻¹ ^ 52 < l) := by
  obtain ⟨l, hl, hwithin⟩ := h.length_within
  refine ⟨l, ?_, lt_length_iff hl hwithin⟩
  have hM : 0 ≤ magnitude V := Real.sqrt_nonneg _
  obtain ⟨hlow, hhigh⟩ := hwithin
  have hdown : (1 - 2⁻¹ ^ 51 : ℝ) * magnitude V ≤ (1 - 2⁻¹ ^ 53) ^ 3 * magnitude V :=
    mul_le_mul_of_nonneg_right (by norm_num) hM
  have hup : (1 + 2⁻¹ ^ 53 : ℝ) ^ 3 * magnitude V ≤ (1 + 2⁻¹ ^ 51) * magnitude V :=
    mul_le_mul_of_nonneg_right (by norm_num) hM
  rw [abs_le]
  constructor <;> linarith

/-- Components divided by a length that is long enough have the direction of the reals. -/
theorem Stands.directed (h : q.Stands V) (hlong : leastLength < q.length) {p : Quaternion}
    (hp : ∀ k, p.component k = q.component k / q.length) : Directed V p := by
  obtain ⟨l, hl, hwithin⟩ := h.length_within
  have hM : 0 ≤ magnitude V := Real.sqrt_nonneg _
  have hpos : 0 < magnitude V := by
    obtain ⟨-, htwice⟩ := hwithin.halves hM (by norm_num)
    have hmore := (lt_length_iff hl hwithin).mp hlong
    have hleast : (0 : ℝ) < 2⁻¹ ^ 52 := by positivity
    linarith
  refine ⟨fun k => ?_⟩
  obtain ⟨d, hd, hnear⟩ := component_near (h.components k) hl hwithin hpos
    (magnitude_le h.sizes) (abs_le_magnitude k) (h.sizes k)
  exact ⟨d, hp k ▸ hd, hnear⟩

end FilterTree.Quaternion
