import FilterTree.Numeral.Conversion
import Mathlib

/-!
# The order of floating-point numbers

Comparing two numbers goes by cases. Behind the cases stands one order: a number has a level,
which is made of what kind of number it is, of its exponent and of its significand, and levels are
compared in that order (`level`). What is not a number has none, and so it stands in no relation to
anything. All else that is said here of `<` and `≤` is the order of levels.

A product is not below zero where its factors are not, nor is a number that has been rounded. The
sign of both is the sign that they are packed with, so nothing has to be known of how much is
rounded. What the library knows of the bits of packed numbers comes with the whole of it only.
-/

namespace Float.Model.UnpackedFloat

/-! ## Levels -/

/-- The level of a number, the higher the greater. -/
def level : UnpackedFloat → Option (Int ×ₗ Int ×ₗ Int)
  | notANumber => none
  | infinity .negative => some (toLex (-2, toLex (0, 0)))
  | finite .negative m e _ => some (toLex (-1, toLex (-e, -m)))
  | zero _ => some (toLex (0, toLex (0, 0)))
  | finite .positive m e _ => some (toLex (1, toLex (e, m)))
  | infinity .positive => some (toLex (2, toLex (0, 0)))

variable {spec : Format} {x y : UnpackedFloat}

theorem compare_eq : x.compare y = (level x).bind fun a => (level y).map (compare a) := by
  have hcast : ∀ m n : Nat, compare (m : Int) n = compare m n := fun m n => by
    rcases Nat.lt_trichotomy m n with h | rfl | h
    · rw [compare_lt_iff_lt.mpr h, compare_lt_iff_lt.mpr (Int.ofNat_lt.mpr h)]
    · rw [compare_eq_iff_eq.mpr rfl, compare_eq_iff_eq.mpr rfl]
    · rw [compare_gt_iff_gt.mpr h, compare_gt_iff_gt.mpr (Int.ofNat_lt.mpr h)]
  have hneg : ∀ a b : Int, compare (-a) (-b) = (compare a b).swap := fun a b => by
    rw [Int.compare_swap]
    rcases Int.lt_trichotomy a b with h | rfl | h
    · rw [compare_gt_iff_gt.mpr h, compare_gt_iff_gt.mpr (Int.neg_lt_neg h)]
    · rw [compare_eq_iff_eq.mpr rfl, compare_eq_iff_eq.mpr rfl]
    · rw [compare_lt_iff_lt.mpr h, compare_lt_iff_lt.mpr (Int.neg_lt_neg h)]
  -- only between two numbers of one sign do exponents and significands decide
  rcases x with (_ | _) | _ | _ | ⟨_ | _, m, e, hm⟩ <;>
    rcases y with (_ | _) | _ | _ | ⟨_ | _, n, f, hn⟩ <;> try rfl
  · show some ((compare e f).then (compare m n)).swap =
      some ((compare (-e) (-f)).then (compare (-(m : Int)) (-n)))
    rw [hneg, hneg, hcast, Ordering.swap_then]
  · show some ((compare e f).then (compare m n)) =
      some ((compare e f).then (compare (m : Int) n))
    rw [hcast]

theorem lt_iff : x.lt y = true ↔ ∃ a b, level x = some a ∧ level y = some b ∧ a < b := by
  rw [UnpackedFloat.lt, compare_eq, beq_iff_eq]
  simp [Option.bind_eq_some_iff, compare_lt_iff_lt]

theorem le_iff : x.le y = true ↔ ∃ a b, level x = some a ∧ level y = some b ∧ a ≤ b := by
  rw [UnpackedFloat.le, compare_eq]
  cases level x <;> cases level y <;> simp [Ordering.isLE_iff_ne_gt, compare_le_iff_le]

/-! ## Signs -/

/-- Below zero: neither a zero nor what is not a number is. -/
inductive IsNegative : UnpackedFloat → Prop
  | infinity : IsNegative (.infinity .negative)
  | finite {m : Nat} {e : Int} {hm : 0 < m} : IsNegative (.finite .negative m e hm)

theorem isNegative_infinity {s : Sign} : (infinity s).IsNegative ↔ s = .negative :=
  ⟨fun h => by cases h; rfl, fun h => h ▸ .infinity⟩

theorem isNegative_finite {s : Sign} {m : Nat} {e : Int} {hm : 0 < m} :
    (finite s m e hm).IsNegative ↔ s = .negative :=
  ⟨fun h => by cases h; rfl, fun h => h ▸ .finite⟩

theorem lt_zero_iff {s : Sign} : x.lt (.zero s) = true ↔ x.IsNegative := by
  constructor
  · intro h
    rcases x with (_ | _) | _ | s' | ⟨_ | _, m, e, hm⟩
    · exact .infinity
    · cases h
    · cases h
    · cases h
    · exact .finite
    · cases h
  · intro h
    cases h <;> rfl

theorem sign_of_isNegative {b : BitVec spec.numBits} (h : (unpack spec b).IsNegative) :
    Sign.ofBitVec (unpackSign b) = .negative := by
  unfold unpack at h
  cases hsign : Sign.ofBitVec (unpackSign b) with
  | negative => rfl
  | positive =>
      simp only [hsign] at h
      split at h
      · split at h <;> cases h
      · split at h
        · split at h <;> cases h
        · cases h

theorem sign_of_pack {s : Sign} {e : BitVec spec.exponentBits}
    {m : BitVec spec.mantissaBitsWithoutImplicit}
    (h : (unpack spec (packComponents spec s e m)).IsNegative) : s = .negative := by
  have hsign := sign_of_isNegative h
  rwa [unpackSign_packComponents, Sign.ofBitVec_toBitVec] at hsign

theorem isNegative_of_pack (h : (unpack spec (pack spec x)).IsNegative) : x.IsNegative := by
  rcases x with s | _ | s | ⟨s, m, e, hm⟩
  · exact isNegative_infinity.mpr (sign_of_pack h)
  · cases sign_of_pack h
  · rw [pack, unpack_packedZero] at h
    cases h
  · refine isNegative_finite.mpr ?_
    rw [pack] at h
    split at h
    · exact sign_of_pack h
    · split at h <;> exact sign_of_pack h

theorem sign_of_round {s : Sign} {m : Nat} {e : Int} {a : Accuracy}
    (h : (roundWithAccuracy spec s m e a).IsNegative) : s = .negative := by
  unfold roundWithAccuracy at h
  dsimp only at h
  split at h
  · cases h
  · exact isNegative_finite.mp h

theorem isNegative_of_inFormat (h : (FilterTree.Numeral.inFormat spec x).IsNegative) :
    x.IsNegative := by
  rcases x with s | _ | s | ⟨s, m, e, hm⟩
  · exact h
  · exact h
  · exact h
  · exact isNegative_finite.mpr (sign_of_round h)

theorem sign_of_mul {s s' : Sign} (h : s * s' = .negative) : s = .negative ∨ s' = .negative := by
  cases s with
  | negative => exact .inl rfl
  | positive =>
      cases s' with
      | negative => exact .inr rfl
      | positive => cases h

theorem isNegative_of_mul (h : (mul spec x y).IsNegative) : x.IsNegative ∨ y.IsNegative := by
  have hsigns : ∀ {s s'}, s * s' = Sign.negative →
      (infinity s).IsNegative ∨ (infinity s').IsNegative := fun h =>
    (sign_of_mul h).imp isNegative_infinity.mpr isNegative_infinity.mpr
  have hfinite : ∀ {s m e hm}, (infinity s).IsNegative → (finite s m e hm).IsNegative :=
    fun h => isNegative_finite.mpr (isNegative_infinity.mp h)
  unfold mul at h
  split at h
  · cases h
  · cases h
  · exact hsigns (isNegative_infinity.mp h)
  · exact (hsigns (isNegative_infinity.mp h)).imp id hfinite
  · exact (hsigns (isNegative_infinity.mp h)).imp hfinite id
  · cases h
  · cases h
  · cases h
  · cases h
  · cases h
  · exact (hsigns (sign_of_round h)).imp hfinite hfinite

end Float.Model.UnpackedFloat

/-! ## Numbers of 64 bits -/

namespace Float

open Float.Model.UnpackedFloat

variable {a b c : Float}

/-- The level of a number of 64 bits. -/
def level (a : Float) : Option (Int ×ₗ Int ×ₗ Int) := a.toModel.unpack.level

theorem lt_iff : a < b ↔ ∃ x y, a.level = some x ∧ b.level = some y ∧ x < y := by
  show Float.lt a b = true ↔ _
  rw [Float.lt, decide_eq_true_iff]
  exact Model.UnpackedFloat.lt_iff

theorem le_iff : a ≤ b ↔ ∃ x y, a.level = some x ∧ b.level = some y ∧ x ≤ y := by
  show Float.le a b = true ↔ _
  rw [Float.le, decide_eq_true_iff]
  exact Model.UnpackedFloat.le_iff

theorem le_trans (hab : a ≤ b) (hbc : b ≤ c) : a ≤ c := by
  obtain ⟨x, y, hx, hy, hxy⟩ := le_iff.mp hab
  obtain ⟨y', z, hy', hz, hyz⟩ := le_iff.mp hbc
  cases hy.symm.trans hy'
  exact le_iff.mpr ⟨x, z, hx, hz, hxy.trans hyz⟩

theorem le_of_lt (h : a < b) : a ≤ b := by
  obtain ⟨x, y, hx, hy, hxy⟩ := lt_iff.mp h
  exact le_iff.mpr ⟨x, y, hx, hy, hxy.le⟩

theorem not_lt_of_le (h : a ≤ b) : ¬ b < a := by
  obtain ⟨x, y, hx, hy, hxy⟩ := le_iff.mp h
  intro hlt
  obtain ⟨y', x', hy', hx', hyx⟩ := lt_iff.mp hlt
  cases hx.symm.trans hx'
  cases hy.symm.trans hy'
  exact hxy.not_gt hyx

/-- What is at least as great as anything is a number, and equal to itself. -/
theorem le_refl_of_le (h : a ≤ b) : b ≤ b := by
  obtain ⟨-, y, -, hy, -⟩ := le_iff.mp h
  exact le_iff.mpr ⟨y, y, hy, hy, le_rfl⟩

/-- Between numbers, and only there, what is not less is at least as great. -/
theorem le_of_not_lt (ha : a ≤ a) (hb : b ≤ b) (h : ¬ b < a) : a ≤ b := by
  obtain ⟨x, -, hx, -⟩ := le_iff.mp ha
  obtain ⟨y, -, hy, -⟩ := le_iff.mp hb
  exact le_iff.mpr ⟨x, y, hx, hy, not_lt.mp fun hyx => h (lt_iff.mpr ⟨y, x, hy, hx, hyx⟩)⟩

theorem lt_zero_iff : a < 0 ↔ a.toModel.unpack.IsNegative := by
  have hzero : (0 : Float).toModel.unpack = .zero .positive := rfl
  show Float.lt a 0 = true ↔ _
  rw [Float.lt, decide_eq_true_iff, ← Model.UnpackedFloat.lt_zero_iff, ← hzero]
  exact Iff.rfl

theorem not_mul_lt_zero (ha : ¬ a < 0) (hb : ¬ b < 0) : ¬ a * b < 0 := by
  rw [lt_zero_iff] at ha hb ⊢
  intro h
  exact (isNegative_of_mul (isNegative_of_pack h)).elim ha hb

theorem not_narrowed_lt_zero (ha : ¬ a < 0) : ¬ FilterTree.Numeral.narrowed a < 0 := by
  have hzero : (0 : Float32).toModel.unpack = .zero .positive := rfl
  rw [lt_zero_iff] at ha
  intro h
  have hlt : ((FilterTree.Numeral.narrowed a).toModel.unpack).lt (.zero .positive) = true := by
    rw [← hzero]
    exact of_decide_eq_true h
  exact ha (isNegative_of_inFormat (isNegative_of_pack (Model.UnpackedFloat.lt_zero_iff.mp hlt)))

end Float
