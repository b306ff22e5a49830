import FilterTree.Proofs.Places
import FilterTree.Tree.Edit

/-!
# What a shape counts

A count is formed dimension by dimension and given up as soon as a partial product does not fit.
Up to the first zero the partial products grow, so they all fit if the last of them does; behind it
they are zero. So a shape is counted exactly if the dimensions in front of its first zero have a
product that fits (`size?_eq_some`), and then the count is the product of all dimensions.

Where no dimension is zero, that is to say that the product fits, and the order of the dimensions
does not matter. A zero makes it matter: the product is zero then and fits, but dimensions that
stand in front of the zero are multiplied all the same, and behind it they are not. The grids that
are made for the asking have no zero among their dimensions, so their cells are counted alike along
x, y, z and along z, y, x.
-/

namespace FilterTree

namespace Shape

variable {tuples components tuples' components' : Shape} {n : Nat}

theorem elementCount_eq_ok :
    elementCount tuples components = .ok n ↔
      (tuples.volume * components.volume < sizeLimit ∧ tuples.volume * components.volume = n) ∧
        tuples.leading.prod < sizeLimit ∧ components.leading.prod < sizeLimit := by
  have hok : elementCount tuples components = .ok n ↔ elementCount? tuples components = some n := by
    rw [elementCount]
    cases elementCount? tuples components with
    | none => exact iff_of_false (by rintro ⟨⟩) (by rintro ⟨⟩)
    | some m => rw [Option.some_inj, Except.ok.injEq]
  simp only [hok, elementCount?_eq_some, size?_eq_some, boundedMul_eq_some]
  constructor
  · rintro ⟨t, c, ⟨ht, rfl⟩, ⟨hc, rfl⟩, rfl, hlt⟩
    exact ⟨⟨hlt, rfl⟩, ht, hc⟩
  · rintro ⟨⟨hlt, rfl⟩, ht, hc⟩
    exact ⟨_, _, ⟨ht, rfl⟩, ⟨hc, rfl⟩, rfl, hlt⟩

theorem elementCount_eq_error {e : StoreError} (h : elementCount tuples components = .error e) :
    e = .shapeOverflow (tuples ++ components) := by
  rw [elementCount] at h
  split at h
  · cases h
  · exact (Except.error.inj h).symm

theorem volume_of_perm (h : tuples.Perm tuples') : tuples.volume = tuples'.volume := by
  rw [volume, volume, h.isEmpty_eq, h.prod_nat]

/-- Without a zero the dimensions in front of it are all of them, in whatever order. -/
theorem leading_prod_of_perm (hpos : 0 ∉ tuples) (h : tuples.Perm tuples') :
    tuples.leading.prod = tuples'.leading.prod := by
  rw [leading_eq_self hpos, leading_eq_self fun hzero => hpos (h.mem_iff.mpr hzero), h.prod_nat]

theorem elementCount_of_perm (htuples : tuples.Perm tuples')
    (hcomponents : components.Perm components') (hpos : 0 ∉ tuples) (hpos' : 0 ∉ components) :
    elementCount tuples components = .ok n ↔ elementCount tuples' components' = .ok n := by
  rw [elementCount_eq_ok, elementCount_eq_ok, volume_of_perm htuples, volume_of_perm hcomponents,
    leading_prod_of_perm hpos htuples, leading_prod_of_perm hpos' hcomponents]

/-- Where neither shape has a zero nor is empty, the count is given exactly if it fits. -/
theorem elementCount_of_pos (hpos : 0 ∉ tuples ++ components) (htuples : tuples ≠ [])
    (hcomponents : components ≠ []) :
    elementCount tuples components = .ok n ↔
      (tuples ++ components).prod < sizeLimit ∧ (tuples ++ components).prod = n := by
  rw [List.mem_append, not_or] at hpos
  have hvolume : ∀ {shape : Shape}, shape ≠ [] → shape.volume = shape.prod := fun hne =>
    if_neg (mt List.isEmpty_iff.mp hne)
  have hone : ∀ {shape : Shape}, 0 ∉ shape → 0 < shape.prod := fun h =>
    leading_eq_self h ▸ leading_prod_pos
  rw [elementCount_eq_ok, leading_eq_self hpos.1, leading_eq_self hpos.2, hvolume htuples,
    hvolume hcomponents, List.prod_append]
  -- a factor is at most the product, as the other factor is at least one
  have hleft := Nat.le_mul_of_pos_right tuples.prod (hone hpos.2)
  have hright := Nat.le_mul_of_pos_left components.prod (hone hpos.1)
  exact and_iff_left_of_imp fun h =>
    ⟨Nat.lt_of_le_of_lt hleft h.1, Nat.lt_of_le_of_lt hright h.1⟩

/-- Three dimensions are counted from either end, but for a zero at one of the ends. -/
theorem size?_isSome_triple {x y z : Nat} (hx : x < sizeLimit) (hz : z < sizeLimit) :
    ((size? [x, y, z]).isSome ↔ (size? [z, y, x]).isSome) ↔
      (z = 0 → x * y < sizeLimit) ∧ (x = 0 → z * y < sizeLimit) := by
  have hone : 1 < sizeLimit := by decide
  have hempty : 0 < sizeLimit := by decide
  rw [size?_isSome_iff, size?_isSome_iff]
  by_cases hx0 : x = 0 <;> by_cases hy0 : y = 0 <;> by_cases hz0 : z = 0 <;>
    simp [leading, *, Nat.mul_comm, Nat.mul_left_comm]

/--
The number of elements of a store with these shapes. It is given exactly if it fits and so do the
dimensions in front of the first zero of either shape, and it is the product then; otherwise both
shapes are reported together. Without zeros that is to say that the product fits, and the dimensions
may be in any order; with zeros, orders that are counted have the same count. The dimensions of a
grid are counted along x, y, z exactly if they are along z, y, x, but for a grid with no cells whose
other two dimensions do not fit.
-/
theorem counts_exact (tuples components : Shape) :
    (∀ n, elementCount tuples components = .ok n ↔
      (tuples.volume * components.volume < sizeLimit ∧ tuples.volume * components.volume = n) ∧
        tuples.leading.prod < sizeLimit ∧ components.leading.prod < sizeLimit) ∧
    (∀ e, elementCount tuples components = .error e →
      e = .shapeOverflow (tuples ++ components)) ∧
    (0 ∉ tuples ++ components → tuples ≠ [] → components ≠ [] → ∀ n,
      elementCount tuples components = .ok n ↔
        (tuples ++ components).prod < sizeLimit ∧ (tuples ++ components).prod = n) ∧
    (∀ tuples' components', tuples.Perm tuples' → components.Perm components' →
      (∀ n n', elementCount tuples components = .ok n → elementCount tuples' components' = .ok n' →
        n = n') ∧
      (0 ∉ tuples → 0 ∉ components → ∀ n,
        elementCount tuples components = .ok n ↔ elementCount tuples' components' = .ok n)) ∧
    ∀ (dimensions : Triple Nat) (spacing origin : Triple Float32),
      (∀ d ∈ dimensions.toList, d < sizeLimit) →
      (((size? dimensions.toList).isSome ↔
          (Geometry.bareImage dimensions spacing origin).elementShape.size?.isSome) ↔
        (dimensions.z = 0 → dimensions.x * dimensions.y < sizeLimit) ∧
          (dimensions.x = 0 → dimensions.z * dimensions.y < sizeLimit)) := by
  refine ⟨fun n => elementCount_eq_ok, fun e => elementCount_eq_error,
    fun hpos htuples hcomponents n => elementCount_of_pos hpos htuples hcomponents,
    fun tuples' components' htuples hcomponents => ⟨fun n n' hn hn' => ?_,
      fun hpos hpos' n => elementCount_of_perm htuples hcomponents hpos hpos'⟩,
    fun dimensions spacing origin hfits => ?_⟩
  · have hvolume := (elementCount_eq_ok.mp hn).1.2
    rw [volume_of_perm htuples, volume_of_perm hcomponents] at hvolume
    exact hvolume.symm.trans (elementCount_eq_ok.mp hn').1.2
  · exact size?_isSome_triple (hfits _ (by simp [Triple.toList])) (hfits _ (by simp [Triple.toList]))

/-- Two billion tuples of three components are counted, whichever dimension comes first. -/
theorem counts_exact_swapped :
    0 ∉ ([2 ^ 16, 2 ^ 15] : Shape) ++ [3] ∧ ([2 ^ 16, 2 ^ 15] : Shape).Perm [2 ^ 15, 2 ^ 16] ∧
      elementCount [2 ^ 16, 2 ^ 15] [3] = .ok (3 * 2 ^ 31) ∧
      elementCount [2 ^ 15, 2 ^ 16] [3] = .ok (3 * 2 ^ 31) ∧
      (∀ d ∈ ([0, 2 ^ 63, 2] : Shape), d < sizeLimit) ∧
      ((size? [0, 2 ^ 63, 2]).isSome = true ∧ (size? [2, 2 ^ 63, 0]).isSome = false) := by
  have hpos : 0 ∉ ([2 ^ 16, 2 ^ 15] : Shape) ++ [3] := by decide
  have hperm : ([2 ^ 16, 2 ^ 15] : Shape).Perm [2 ^ 15, 2 ^ 16] := .swap _ _ _
  have hfits : ∀ d ∈ (Triple.mk 0 (2 ^ 63) 2).toList, d < sizeLimit := by decide
  obtain ⟨-, -, hexact, horder, hgrid⟩ := counts_exact [2 ^ 16, 2 ^ 15] [3]
  have hcount := (hexact hpos (by decide) (by decide) (3 * 2 ^ 31)).mpr (by decide)
  have hswapped := ((horder _ _ hperm (.refl _)).2 (by decide) (by decide) _).mp hcount
  have halike := (hgrid ⟨0, 2 ^ 63, 2⟩ ⟨1, 1, 1⟩ ⟨0, 0, 0⟩ hfits).not.mpr (by decide)
  refine ⟨hpos, hperm, hcount, hswapped, hfits, by decide, ?_⟩
  by_contra hsome
  exact halike (iff_of_true (by decide) (eq_true_of_ne_false hsome))

end Shape

/--
No elements, and yet too many to count: a zero at the end comes too late. In another order the same
dimensions are counted, and so the same grid is accepted along x, y, z and refused along z, y, x.
-/
theorem Shape.counts_refused_zero :
    ([2 ^ 63, 2, 0] ++ [1] : Shape).prod = 0 ∧
      Shape.elementCount [2 ^ 63, 2, 0] [1] = .error (.shapeOverflow [2 ^ 63, 2, 0, 1]) ∧
      ([2 ^ 63, 2, 0] : Shape).Perm [0, 2 ^ 63, 2] ∧
      Shape.elementCount [0, 2 ^ 63, 2] [1] = .ok 0 ∧
      let dimensions : Triple Nat := ⟨0, 2 ^ 63, 2⟩
      Shape.elementCount dimensions.toList [1] = .ok 0 ∧
        ((Edit.createImage (.single "grid") dimensions ⟨1, 1, 1⟩ ⟨0, 0, 0⟩ "cells").on .empty).1 =
          .error (.store (.single "grid") (.shapeOverflow [2, 2 ^ 63, 0])) := by
  refine ⟨by decide, rfl, ?_, rfl, rfl, rfl⟩
  show (([2 ^ 63, 2] : Shape) ++ [0]).Perm ([0] ++ [2 ^ 63, 2])
  exact List.perm_append_comm

end FilterTree
