import FilterTree.Proofs.Doubles
import FilterTree.Proofs.ImportedPaths

/-!
# Integers of older documents

Where a convention takes integers it takes them from a number of 64 bits, also if
the document has an integer. So an integer of the document is rounded first
(`nearestWhole`), and what no size can hold becomes the greatest size. A number
written with a point has been rounded when it was read and is taken as it is.

What is accepted is therefore right, the numbers that are integers and not
negative, and no more of them than that. What is delivered is off by at most one
part in 2^53, and it is the integer that was written exactly if that is a
multiple of the spacing of the numbers of 64 bits around it, or the greatest size.
-/

namespace FilterTree

namespace Numeral

theorem value?_finite_iff {negative : Bool} {m n : Nat} {e : Int} :
    (Datum.finite negative m e).value? = some (n : ℚ) ↔
      (negative → m = 0) ∧ m * 2 ^ e.toNat = n * 2 ^ (-e).toNat := by
  have hpower : (2 : ℚ) ^ e * 2 ^ (-e).toNat = 2 ^ e.toNat := by
    rw [← zpow_natCast, ← zpow_natCast, ← zpow_add₀ two_ne_zero]
    congr 1
    omega
  have hmagnitude : (m : ℚ) * 2 ^ e = n ↔ m * 2 ^ e.toNat = n * 2 ^ (-e).toNat := by
    rw [← mul_left_inj' (show (2 : ℚ) ^ (-e).toNat ≠ 0 by positivity), mul_assoc, hpower]
    norm_cast
  rw [Datum.value?, Option.some_inj, ← hmagnitude]
  cases negative with
  | false => simp
  | true =>
      have hm : (0 : ℚ) ≤ m * 2 ^ e := by positivity
      have hn : (0 : ℚ) ≤ n := n.cast_nonneg
      have hzero : (m : ℚ) * 2 ^ e = 0 ↔ m = 0 := by
        rw [mul_eq_zero_iff_right (zpow_ne_zero e two_ne_zero), Nat.cast_eq_zero]
      rw [if_pos rfl, neg_one_mul, neg_mul]
      constructor
      · intro h
        have h0 : (m : ℚ) * 2 ^ e = 0 := by linarith
        exact ⟨fun _ => hzero.mp h0, by linarith⟩
      · rintro ⟨h0, h⟩
        have hm0 := hzero.mpr (h0 rfl)
        linarith

/-- An integer that is a number of 64 bits needs no rounding. -/
theorem spacing_dvd_of_value? {x : Float} {n : Nat} (h : (datum64 x).value? = some (n : ℚ)) :
    spacing n ∣ n := by
  rcases Nat.eq_zero_or_pos n with rfl | hpos
  · exact dvd_zero _
  cases hx : datum64 x with
  | nan => rw [hx] at h; cases h
  | infinite _ => rw [hx] at h; cases h
  | finite negative m e =>
      rw [hx, value?_finite_iff] at h
      obtain ⟨-, h⟩ := h
      have hm := significand_lt hx
      have hlt : n < 2 ^ (53 + e.toNat) := by
        calc n ≤ n * 2 ^ (-e).toNat := Nat.le_mul_of_pos_right _ (Nat.two_pow_pos _)
          _ = m * 2 ^ e.toNat := h.symm
          _ < 2 ^ 53 * 2 ^ e.toNat := Nat.mul_lt_mul_of_pos_right hm (Nat.two_pow_pos _)
          _ = 2 ^ (53 + e.toNat) := (pow_add ..).symm
      have hlog := (Nat.log2_lt hpos.ne').mpr hlt
      refine (pow_dvd_pow 2 (by omega : n.log2 - 52 ≤ e.toNat)).trans ?_
      rcases Int.le_total e 0 with he | he
      · rw [Int.toNat_of_nonpos he]
        exact one_dvd n
      · rw [Int.toNat_of_nonpos (by omega : -e ≤ 0), pow_zero, mul_one] at h
        exact Dvd.intro_left m h

end Numeral

open Numeral

/-! ## Numbers -/

/-- The number that is written. -/
def Json.number? : Json → Option ℚ
  | .int i => some i
  | .double x => (datum64 x).value?
  | _ => none

/-- A number as documents have them: an integer of 64 bits, or one with a point. -/
def Json.isNumber : Json → Bool
  | .int i => IntRange.wide.contains i
  | .double _ => true
  | _ => false

namespace Legacy

theorem wholeNumber?_eq_some_iff {x : Float} {n : Nat} :
    wholeNumber? x = some n ↔ (datum64 x).value? = some (n : ℚ) := by
  unfold wholeNumber?
  cases datum64 x with
  | nan => simp [Datum.value?]
  | infinite _ => simp [Datum.value?]
  | finite negative m e =>
      rw [value?_finite_iff]
      show (if (negative && m != 0) || m % 2 ^ (-e).toNat != 0 then none
        else some (m / 2 ^ (-e).toNat * 2 ^ e.toNat)) = some n ↔ _
      have hcut : m % 2 ^ (-e).toNat = 0 ∧ m / 2 ^ (-e).toNat * 2 ^ e.toNat = n ↔
          m * 2 ^ e.toNat = n * 2 ^ (-e).toNat := by
        rcases Int.le_total e 0 with he | he
        · rw [Int.toNat_of_nonpos he, pow_zero, mul_one, mul_one, ← Nat.dvd_iff_mod_eq_zero]
          constructor
          · rintro ⟨hdvd, rfl⟩
            exact (Nat.div_mul_cancel hdvd).symm
          · rintro rfl
            exact ⟨Nat.dvd_mul_left .., Nat.mul_div_cancel _ (Nat.two_pow_pos _)⟩
        · rw [Int.toNat_of_nonpos (by omega : -e ≤ 0), pow_zero, Nat.mod_one, Nat.div_one, mul_one]
          exact and_iff_right rfl
      rw [← hcut]
      cases negative <;> by_cases hm : m = 0 <;> simp [hm]

theorem nearestWhole_pos {n : Nat} (hn : 0 < n) : 0 < nearestWhole n := by
  have hnear := @nearestWhole_near n
  have hle := neg_abs_le ((nearestWhole n : ℤ) - n)
  omega

/-- What an integer of a document is rounded to is what is read from it. -/
theorem asDouble?_of_isNumber {w : Json} (h : w.isNumber) : ∃ x, w.asDouble? = some x ∧
    ∀ m : Nat, wholeNumber? x = some m ↔
      ∃ n : Nat, w.number? = some (n : ℚ) ∧ m = nearestWhole n := by
  cases w with
  | null | bool _ | single _ | str _ | arr _ | obj _ => cases h
  | double x =>
      refine ⟨x, rfl, fun m => ?_⟩
      rw [wholeNumber?_eq_some_iff]
      constructor
      · intro hm
        exact ⟨m, hm, (nearestWhole_eq_self_iff.mpr (spacing_dvd_of_value? hm)).symm⟩
      · rintro ⟨n, hn, rfl⟩
        rwa [nearestWhole_eq_self_iff.mpr (spacing_dvd_of_value? hn)]
  | int i =>
      have hrange : -(2 ^ 63 : Int) ≤ i ∧ i ≤ 2 ^ 64 - 1 := IntRange.contains_iff.mp h
      by_cases hi : i < 0
      · obtain ⟨n, rfl⟩ : ∃ n : Nat, i = -n := ⟨i.natAbs, by omega⟩
        refine ⟨_, congrArg some (if_pos hi), fun m => ?_⟩
        rw [wholeNumber?_eq_some_iff, Int.natAbs_neg, Int.natAbs_natCast,
          value?_neg_toFloat (by omega) (by omega), Json.number?]
        -- below zero there is nothing on either side
        have hpos : (0 : ℚ) < nearestWhole n := by
          exact_mod_cast nearestWhole_pos (show 0 < n by omega)
        refine iff_of_false (fun heq => ?_) ?_
        · have hm : (0 : ℚ) ≤ m := m.cast_nonneg
          linarith [Option.some.inj heq]
        · rintro ⟨k, heq, -⟩
          have hk : (0 : ℤ) ≤ k := Int.natCast_nonneg k
          have hint : (-n : ℤ) = k := by exact_mod_cast Option.some.inj heq
          omega
      · obtain ⟨n, rfl⟩ : ∃ n : Nat, i = n := ⟨i.toNat, by omega⟩
        refine ⟨_, congrArg some (if_neg hi), fun m => ?_⟩
        rw [wholeNumber?_eq_some_iff, Int.natAbs_natCast, value?_toFloat (by omega), Json.number?]
        simp [eq_comm]

/-- What is taken for a size, and which size is made of it. -/
theorem size_eq_ok_iff {w : Json} (h : w.isNumber) {k : Nat} : size w = .ok k ↔
    ∃ n : Nat, w.number? = some (n : ℚ) ∧ k = min (nearestWhole n) (sizeLimit - 1) := by
  obtain ⟨x, hx, hwhole⟩ := asDouble?_of_isNumber h
  have hread : expect "a number" Json.asDouble? w = .ok x := by
    rw [expect, hx]
  rw [size, check_bind_eq_ok]
  constructor
  · rintro ⟨y, hy, hk⟩
    obtain rfl : x = y := Except.ok.inj (hread.symm.trans hy)
    split at hk
    · next m hm =>
        cases hk
        obtain ⟨n, hn, rfl⟩ := (hwhole m).mp hm
        exact ⟨n, hn, rfl⟩
    · cases hk
  · rintro ⟨n, hn, rfl⟩
    refine ⟨x, hread, ?_⟩
    rw [(hwhole _).mpr ⟨n, hn, rfl⟩]
    rfl

section size

variable {w : Json} {n k : Nat}

theorem size_eq_ok_iff_of_number? (h : w.isNumber) (hn : w.number? = some (n : ℚ)) :
    size w = .ok k ↔ k = min (nearestWhole n) (sizeLimit - 1) := by
  rw [size_eq_ok_iff h]
  constructor
  · rintro ⟨m, hm, hk⟩
    have heq : (n : ℚ) = m := Option.some.inj (hn.symm.trans hm)
    obtain rfl : n = m := by exact_mod_cast heq
    exact hk
  · intro hk
    exact ⟨n, hn, hk⟩

/-- Only an integer that was written without a point is rounded, and that has 64 bits. -/
theorem spacing_dvd_or_lt (h : w.isNumber) (hn : w.number? = some (n : ℚ)) :
    spacing n ∣ n ∨ n < sizeLimit ∧ ∀ x, w ≠ .double x := by
  cases w with
  | null | bool _ | single _ | str _ | arr _ | obj _ => cases h
  | double x => exact .inl (spacing_dvd_of_value? hn)
  | int i =>
      have hrange : -(2 ^ 63 : Int) ≤ i ∧ i ≤ 2 ^ 64 - 1 := IntRange.contains_iff.mp h
      have hi : i = n := by exact_mod_cast Option.some.inj hn
      have hlimit : sizeLimit = 2 ^ 64 := rfl
      exact .inr ⟨by omega, fun x hx => nomatch hx⟩

theorem eq_min_nearestWhole_iff (hn : n < sizeLimit) :
    n = min (nearestWhole n) (sizeLimit - 1) ↔ spacing n ∣ n ∨ n = sizeLimit - 1 := by
  have htop : nearestWhole (sizeLimit - 1) = sizeLimit := by decide
  rw [← nearestWhole_eq_self_iff]
  constructor
  · intro h
    omega
  · intro h
    rcases h with h | rfl <;> omega

theorem min_nearestWhole_near (hn : n < sizeLimit) :
    2 ^ 53 * |((min (nearestWhole n) (sizeLimit - 1) : Nat) : ℤ) - n| ≤ n := by
  have hnear := @nearestWhole_near n
  by_cases h : nearestWhole n ≤ sizeLimit - 1
  · rwa [min_eq_left h]
  · rw [min_eq_right (by omega), abs_of_nonneg (by omega)]
    rw [abs_of_nonneg (by omega)] at hnear
    omega

theorem spacing_dvd_of_le (hn : n ≤ 2 ^ 53) : spacing n ∣ n := by
  by_cases htop : n = 2 ^ 53
  · subst htop
    decide
  · by_cases hzero : n = 0
    · subst hzero
      exact dvd_zero _
    · have hlog : n.log2 < 53 := (Nat.log2_lt hzero).mpr (by omega)
      rw [spacing, Nat.sub_eq_zero_of_le (by omega)]
      exact one_dvd n

end size

/-! ## Conventions -/

namespace Converter

/-- The conventions with sizes in them. -/
def TakesSizes (c : Converter) : Prop := c ∈ [tupleShape, intVector, scalarType, componentCount]

/-- The values of a document that a convention takes for sizes. -/
def written? : Converter → Json → Option (List Json)
  | tupleShape, j => firstRow? j
  | intVector, j => (vector j).toOption
  | _, j => some [j]

/-- What a convention makes of sizes. -/
def ofSizes? : Converter → List Nat → Option Argument
  | intVector, ns => some (.uints ns)
  | scalarType, [i] => (ElementType.ofIndex? i).map .elementType
  | scalarType, _ => none
  | _, ns => some (.shape ns)

variable {c : Converter} {j : Json} {a : Argument}

theorem exists_mapM_singleton {P : List Nat → Prop} :
    (∃ ks, [j].mapM size = .ok ks ∧ P ks) ↔ ∃ k, size j = .ok k ∧ P [k] := by
  simp only [check_mapM_eq_ok, List.forall₂_cons_left_iff, List.forall₂_nil_left_iff]
  constructor
  · rintro ⟨_, ⟨k, _, hk, rfl, rfl⟩, h⟩
    exact ⟨k, hk, h⟩
  · rintro ⟨k, hk, h⟩
    exact ⟨[k], ⟨k, [], hk, rfl, rfl⟩, h⟩

/-- A convention with sizes reads all of them before it does anything else. -/
theorem convert_eq_ok_iff (hc : c.TakesSizes) : c.convert j = .ok a ↔ ∃ ws ks,
    c.written? j = some ws ∧ ws.mapM size = .ok ks ∧ c.ofSizes? ks = some a := by
  cases c with
  | tupleShape =>
      simp only [convert, written?, ofSizes?, Option.some_inj]
      cases firstRow? j with
      | none => simp
      | some row => simp [check_map_eq_ok]
  | intVector =>
      simp only [convert, written?, ofSizes?, Option.some_inj, check_bind_eq_ok]
      cases vector j with
      | error _ => simp [Except.toOption]
      | ok row => simp [Except.toOption, pure, Except.pure]
  | componentCount =>
      simp only [convert, written?, Option.some_inj, exists_and_left, exists_eq_left',
        exists_mapM_singleton, check_map_eq_ok, ofSizes?]
  | scalarType =>
      simp only [convert, written?, Option.some_inj, exists_and_left, exists_eq_left',
        exists_mapM_singleton, check_bind_eq_ok]
      refine exists_congr fun k => and_congr_right fun _ => ?_
      rw [ofSizes?]
      cases ElementType.ofIndex? k with
      | none => simp [throw, throwThe, MonadExceptOf.throw]
      | some t => simp [pure, Except.pure]
  | bool | linkedBool | int | uint | float | string | arrayPath | arrayPaths | matrixPath
  | containerPath | linkedName | floatVector => simp [TakesSizes] at hc

end Converter

/--
The sizes of an older document, as they arrive. A convention takes them one by one. A number is
accepted exactly when it is an integer and not negative, however large, and its size is the
nearest integer among the numbers of 64 bits, or the greatest size. So the size is the integer
itself up to 2^53, and beyond that if 64 bits hold it as a number, as they do whatever was
written with a point. Otherwise it is off by at most one part in 2^53.
-/
theorem sizes_rounded {c : Converter} {j : Json} {ws : List Json} (hc : c.TakesSizes)
    (hwritten : c.written? j = some ws) (hws : ∀ w ∈ ws, w.isNumber) :
    (∀ a, c.convert j = .ok a ↔
      ∃ ks, ws.Forall₂ (fun w k => size w = .ok k) ks ∧ c.ofSizes? ks = some a) ∧
    ∀ w ∈ ws,
      (∀ k, size w = .ok k ↔
        ∃ n : Nat, w.number? = some (n : ℚ) ∧ k = min (nearestWhole n) (sizeLimit - 1)) ∧
      ∀ n : Nat, w.number? = some (n : ℚ) →
        (size w = .ok n ↔ n < sizeLimit ∧ (spacing n ∣ n ∨ n = sizeLimit - 1)) ∧
        (n ≤ 2 ^ 53 → size w = .ok n) ∧
        (∀ x, w = .double x → n < sizeLimit → size w = .ok n) ∧
        (n < sizeLimit → ∃ k, size w = .ok k ∧ 2 ^ 53 * |(k : ℤ) - n| ≤ n) ∧
        (sizeLimit ≤ n → size w = .ok (sizeLimit - 1)) := by
  refine ⟨fun a => ?_, fun w hw => ?_⟩
  · rw [Converter.convert_eq_ok_iff hc]
    simp only [hwritten, Option.some_inj, exists_and_left, exists_eq_left', check_mapM_eq_ok]
  · have hnumber := hws w hw
    refine ⟨fun k => size_eq_ok_iff hnumber, fun n hn => ?_⟩
    have hsize : ∀ k, size w = .ok k ↔ k = min (nearestWhole n) (sizeLimit - 1) :=
      fun k => size_eq_ok_iff_of_number? hnumber hn
    have hexact : size w = .ok n ↔ n < sizeLimit ∧ (spacing n ∣ n ∨ n = sizeLimit - 1) := by
      by_cases hlt : n < sizeLimit
      · rw [hsize, eq_min_nearestWhole_iff hlt, and_iff_right hlt]
      · refine iff_of_false (fun h => hlt (size_lt h)) fun h => hlt h.1
    have hwide := spacing_dvd_or_lt hnumber hn
    refine ⟨hexact, fun hle => ?_, fun x hx hlt => ?_, fun hlt => ?_, fun hge => ?_⟩
    · exact hexact.mpr ⟨Nat.lt_of_le_of_lt hle (by decide), .inl (spacing_dvd_of_le hle)⟩
    · exact hexact.mpr ⟨hlt, .inl (hwide.resolve_right fun h => h.2 x hx)⟩
    · exact ⟨_, (hsize _).mpr rfl, min_nearestWhole_near hlt⟩
    · have hdvd := hwide.resolve_right fun h => by omega
      rw [hsize, nearestWhole_eq_self_iff.mpr hdvd, min_eq_right (by omega)]

/-- One more than 2^53 is rounded down; the three before it was written as tables have it. -/
theorem sizes_rounded_table :
    let table : Json := .obj [("Table Data", .arr [.arr [.double 3.0, .int 9007199254740993]])]
    Converter.TakesSizes .tupleShape ∧
      Converter.written? .tupleShape table = some [.double 3.0, .int 9007199254740993] ∧
      (∀ w ∈ [Json.double 3.0, .int 9007199254740993], w.isNumber) ∧
      Converter.convert .tupleShape table = .ok (.shape [3, 9007199254740992]) := by
  intro table
  have hc : Converter.TakesSizes .tupleShape := List.mem_cons_self
  have hwritten : Converter.written? .tupleShape table =
      some [.double 3.0, .int 9007199254740993] := rfl
  have hws : ∀ w ∈ [Json.double 3.0, .int 9007199254740993], w.isNumber := by decide
  obtain ⟨hconvert, hsize⟩ := sizes_rounded hc hwritten hws
  refine ⟨hc, hwritten, hws, (hconvert _).mpr ⟨[3, 9007199254740992], ?_, rfl⟩⟩
  have hthree : (Json.double 3.0).number? = some ((3 : Nat) : ℚ) := by
    have hdatum : datum64 3.0 = .finite false (3 * 2 ^ 51) (-51) := by decide
    rw [Json.number?, hdatum, value?_finite_iff]
    decide
  refine .cons ?_ (.cons ?_ .nil)
  · exact ((hsize _ (by simp)).2 3 hthree).2.1 (by decide)
  · refine ((hsize _ (by simp)).1 _).mpr ⟨9007199254740993, ?_, by decide⟩
    rw [Json.number?]
    norm_cast

/--
The greatest integer with a sign is one less than the size that is made of it,
and the first integer that is no size is accepted as the greatest one.
-/
theorem sizes_altered :
    (Json.int 9223372036854775807).isNumber ∧
      (Json.int 9223372036854775807).number? = some (9223372036854775807 : Nat) ∧
      9223372036854775807 < sizeLimit ∧
      Converter.convert .componentCount (.int 9223372036854775807) =
        .ok (.shape [9223372036854775808]) ∧
    (Json.double 18446744073709551616).number? = some (sizeLimit : ℚ) ∧
      Converter.convert .componentCount (.double 18446744073709551616) =
        .ok (.shape [sizeLimit - 1]) := by
  refine ⟨by decide, ?_, by decide, rfl, ?_, rfl⟩
  · rw [Json.number?]
    norm_cast
  · have hdatum : datum64 18446744073709551616 = .finite false (2 ^ 52) 12 := by decide
    rw [Json.number?, hdatum, value?_finite_iff]
    decide

end Legacy

end FilterTree
