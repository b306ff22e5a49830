import FilterTree.Proofs.Checks
import FilterTree.Store.Typed
import Mathlib.Algebra.Group.Nat.Defs
import Mathlib.Data.List.TakeWhile

/-!
# Stores hold what their shapes promise

A store is sound when its shapes have a count below the limit and its row, if
it has one, is exactly that long. Every way to build a store ends in a sound
one, because each of them counts first and refuses shapes that overflow; and
every operation keeps a store sound, because it either leaves the shapes and
the length of the row alone or counts again.

Writes are collected in `ArrayWrite` and `ListWrite`: they change elements, or
allocate them, and no shape. A store and its shell, the store without elements,
have the same shapes, and resizing looks at nothing else.
-/

namespace FilterTree

/-! ## Counts -/

namespace Shape

theorem boundedMul_eq_some {a b n : Nat} :
    boundedMul a b = some n ↔ a * b = n ∧ n < sizeLimit := by
  rw [boundedMul]
  split <;> grind

theorem boundedMul_one {n : Nat} (h : n < sizeLimit) : boundedMul n 1 = some n :=
  boundedMul_eq_some.mpr ⟨Nat.mul_one n, h⟩

theorem foldlM_boundedMul_lt {shape : Shape} {a n : Nat} (ha : a < sizeLimit)
    (h : shape.foldlM boundedMul a = some n) : n < sizeLimit := by
  induction shape generalizing a with
  | nil =>
      cases h
      exact ha
  | cons d shape ih =>
      rw [List.foldlM_cons, Option.bind_eq_bind, Option.bind_eq_some_iff] at h
      obtain ⟨b, hb, hrest⟩ := h
      exact ih (boundedMul_eq_some.mp hb).2 hrest

/-- What a shape counts stays below the limit. -/
theorem size?_lt {shape : Shape} {n : Nat} (h : size? shape = some n) : n < sizeLimit := by
  rw [size?] at h
  split at h
  · cases h
    decide
  · exact foldlM_boundedMul_lt (by decide) h

theorem size_of_size? {shape : Shape} {n : Nat} (h : size? shape = some n) : shape.size = n := by
  rw [size, h]
  rfl

/-- The dimensions in front of the first that is zero. -/
def leading (shape : Shape) : Shape := shape.takeWhile (· ≠ 0)

theorem leading_eq_self {shape : Shape} (h : 0 ∉ shape) : shape.leading = shape :=
  List.takeWhile_eq_self_iff.mpr fun _ hd => decide_eq_true fun hzero => h (hzero ▸ hd)

theorem leading_prod_pos {shape : Shape} : 0 < shape.leading.prod := by
  refine List.prod_pos_iff_forall_pos_nat.mpr fun d hd => ?_
  have hne := List.mem_takeWhile_imp hd
  exact Nat.pos_of_ne_zero (of_decide_eq_true hne)

/-- Up to the first zero the partial products grow, and behind it they all are zero. -/
theorem foldlM_boundedMul_eq_some {shape : Shape} {a n : Nat} (ha : a < sizeLimit) :
    shape.foldlM boundedMul a = some n ↔
      a * shape.leading.prod < sizeLimit ∧ a * shape.prod = n := by
  induction shape generalizing a with
  | nil =>
      rw [leading, List.takeWhile_nil, List.prod_nil, Nat.mul_one]
      exact ⟨fun h => ⟨ha, Option.some.inj h⟩, fun ⟨_, h⟩ => congrArg some h⟩
  | cons d shape ih =>
      rw [List.foldlM_cons, List.prod_cons, ← Nat.mul_assoc, boundedMul, leading,
        List.takeWhile_cons]
      by_cases hzero : d = 0
      · subst hzero
        have hpos : 0 < sizeLimit := by decide
        rw [Nat.mul_zero, if_pos hpos, Option.bind_eq_bind, Option.bind_some, ih hpos,
          if_neg (by decide), List.prod_nil, Nat.mul_one, Nat.zero_mul, Nat.zero_mul]
        exact and_congr_left fun _ => iff_of_true hpos ha
      · rw [if_pos (decide_eq_true hzero), List.prod_cons, ← Nat.mul_assoc]
        split
        · next hlt => exact ih hlt
        · next hge =>
            have hle := Nat.le_mul_of_pos_right (a * d) (@leading_prod_pos shape)
            refine iff_of_false (fun h => nomatch h) fun ⟨hlt, _⟩ => hge ?_
            exact Nat.lt_of_le_of_lt hle hlt

theorem size?_isSome_iff {shape : Shape} :
    (size? shape).isSome = true ↔ shape.leading.prod < sizeLimit := by
  rw [size?]
  split
  · next hempty =>
      rw [List.isEmpty_iff.mp hempty]
      decide
  · rw [Option.isSome_iff_exists]
    simp only [foldlM_boundedMul_eq_some (show 1 < sizeLimit by decide), Nat.one_mul,
      exists_and_left, exists_eq', and_true]

/-- Where no dimension is zero their order does not matter to whether a shape overflows. -/
theorem size?_isSome_of_perm {shape shape' : Shape} (hperm : shape.Perm shape')
    (hpos : 0 ∉ shape) (h : (size? shape).isSome = true) : (size? shape').isSome = true := by
  rw [size?_isSome_iff, leading_eq_self hpos, hperm.prod_nat] at h
  rw [size?_isSome_iff, leading_eq_self fun hzero => hpos (hperm.mem_iff.mpr hzero)]
  exact h

theorem elementCount?_eq_some {tuples components : Shape} {n : Nat} :
    elementCount? tuples components = some n ↔
      ∃ t c, size? tuples = some t ∧ size? components = some c ∧ boundedMul t c = some n := by
  rw [elementCount?]
  simp only [Option.bind_eq_bind, Option.bind_eq_some_iff]
  grind

/-- The count of a store is the product of the sizes of its shapes. -/
theorem count_of_elementCount? {tuples components : Shape} {n : Nat}
    (h : elementCount? tuples components = some n) : tuples.size * components.size = n := by
  obtain ⟨t, c, ht, hc, hn⟩ := elementCount?_eq_some.mp h
  rw [size_of_size? ht, size_of_size? hc, (boundedMul_eq_some.mp hn).1]

/-- A shape of tuples counts whenever a store of such tuples does. -/
theorem size?_isSome_of_elementCount? {tuples components : Shape}
    (h : (elementCount? tuples components).isSome) : (size? tuples).isSome := by
  obtain ⟨n, hn⟩ := Option.isSome_iff_exists.mp h
  obtain ⟨t, c, ht, -, -⟩ := elementCount?_eq_some.mp hn
  rw [ht]
  rfl

/-- With one component a tuple the tuples are all there is to count. -/
theorem elementCount?_one {tuples : Shape} : elementCount? tuples [1] = size? tuples := by
  have hone : size? [1] = some 1 := by decide
  rw [elementCount?]
  cases ht : size? tuples with
  | none => rfl
  | some t =>
      rw [hone]
      exact boundedMul_one (size?_lt ht)

theorem elementCount_bind_eq_ok {β : Type} {tuples components : Shape}
    {k : Nat → Except StoreError β} {b : β} :
    (elementCount tuples components >>= k) = .ok b ↔
      ∃ n, elementCount? tuples components = some n ∧ k n = .ok b := by
  rw [elementCount]
  cases elementCount? tuples components with
  | none => exact ⟨fun h => (nomatch h), fun ⟨_, h, _⟩ => (nomatch h)⟩
  | some n => exact ⟨fun h => ⟨n, rfl, h⟩, fun ⟨_, hn, h⟩ => Option.some.inj hn ▸ h⟩

theorem elementCount_map_eq_ok {β : Type} {tuples components : Shape} {f : Nat → β} {b : β} :
    (do return f (← elementCount tuples components)) = .ok b ↔
      ∃ n, elementCount? tuples components = some n ∧ f n = b := by
  rw [elementCount_bind_eq_ok]
  exact exists_congr fun n => and_congr_right fun _ => ⟨Except.ok.inj, congrArg Except.ok⟩

end Shape

/-! ## Dense stores -/

namespace DenseStore

variable {α : Type}

/-- The shapes have a count, and the row is that long. -/
structure Sound (s : DenseStore α) : Prop where
  counted : (Shape.elementCount? s.tupleShape s.componentShape).isSome
  full : ∀ {row}, s.row? = some row → row.size = s.size

/-- A store that one of the functions for building stores answered with. -/
inductive Built : DenseStore α → Prop where
  | filled {tuples components : Shape} {value : α} {s : DenseStore α}
      (h : filled tuples components value = .ok s) : Built s
  | shapeOnly {tuples components : Shape} {s : DenseStore α}
      (h : shapeOnly tuples components = .ok s) : Built s
  | ofArray {tuples components : Shape} {values : Array α} {s : DenseStore α}
      (h : ofArray tuples components values = .ok s) : Built s

theorem filled_eq_ok {tuples components : Shape} {value : α} {s : DenseStore α} :
    filled tuples components value = .ok s ↔
      ∃ n, Shape.elementCount? tuples components = some n ∧
        ⟨tuples, components, some (Array.replicate n value)⟩ = s := by
  rw [filled, Shape.elementCount_map_eq_ok]

theorem shapeOnly_eq_ok {tuples components : Shape} {s : DenseStore α} :
    shapeOnly tuples components = .ok s ↔
      ∃ n, Shape.elementCount? tuples components = some n ∧ ⟨tuples, components, none⟩ = s := by
  rw [shapeOnly, Shape.elementCount_map_eq_ok]

theorem ofArray_eq_ok {tuples components : Shape} {values : Array α} {s : DenseStore α} :
    ofArray tuples components values = .ok s ↔
      Shape.elementCount? tuples components = some values.size ∧
        ⟨tuples, components, some values⟩ = s := by
  rw [ofArray, Shape.elementCount_bind_eq_ok]
  constructor
  · rintro ⟨n, hn, h⟩
    split at h
    · next hsize =>
        cases h
        exact ⟨hsize ▸ hn, rfl⟩
    · cases h
  · rintro ⟨hn, rfl⟩
    exact ⟨values.size, hn, if_pos rfl⟩

theorem resizeTuples_eq_ok {s s' : DenseStore α} {tuples : Shape} {zero : α} :
    s.resizeTuples tuples zero = .ok s' ↔
      ∃ n, Shape.elementCount? tuples s.componentShape = some n ∧
        { s with tupleShape := tuples, row? := s.row?.map (resizeRow zero n) } = s' := by
  rw [resizeTuples, Shape.elementCount_map_eq_ok]

theorem size_of_single {s : DenseStore α} (h : s.componentShape = [1]) :
    s.size = s.tupleCount := by
  rw [size, componentCount, h]
  exact Nat.mul_one _

theorem size_eq_of_count {s : DenseStore α} {n : Nat}
    (h : Shape.elementCount? s.tupleShape s.componentShape = some n) : s.size = n :=
  Shape.count_of_elementCount? h

/-- Every way to build a store ends in a sound one. -/
theorem Built.sound {s : DenseStore α} (h : Built s) : s.Sound := by
  cases h with
  | filled h =>
      obtain ⟨n, hn, rfl⟩ := filled_eq_ok.mp h
      refine ⟨Option.isSome_of_eq_some hn, fun hrow => ?_⟩
      cases hrow
      rw [Array.size_replicate, size_eq_of_count hn]
  | shapeOnly h =>
      obtain ⟨n, hn, rfl⟩ := shapeOnly_eq_ok.mp h
      exact ⟨Option.isSome_of_eq_some hn, fun hrow => nomatch hrow⟩
  | ofArray h =>
      obtain ⟨hn, rfl⟩ := ofArray_eq_ok.mp h
      refine ⟨Option.isSome_of_eq_some hn, fun hrow => ?_⟩
      cases hrow
      rw [size_eq_of_count hn]

theorem fresh_built {tuples components : Shape} {allocated : Bool} {zero : α} {s : DenseStore α}
    (h : fresh tuples components allocated zero = .ok s) : Built s := by
  rw [fresh] at h
  split at h
  · exact .filled h
  · exact .shapeOnly h

theorem fresh_shapes {tuples components : Shape} {allocated : Bool} {zero : α} {s : DenseStore α}
    (h : fresh tuples components allocated zero = .ok s) :
    s.tupleShape = tuples ∧ s.componentShape = components := by
  rw [fresh] at h
  split at h
  · obtain ⟨n, -, rfl⟩ := filled_eq_ok.mp h
    exact ⟨rfl, rfl⟩
  · obtain ⟨n, -, rfl⟩ := shapeOnly_eq_ok.mp h
    exact ⟨rfl, rfl⟩

/-- Where the elements can be counted a store can be built. -/
theorem exists_fresh {tuples components : Shape} {allocated : Bool} {zero : α}
    (h : (Shape.elementCount? tuples components).isSome = true) :
    ∃ s, fresh tuples components allocated zero = .ok s := by
  obtain ⟨n, hn⟩ := Option.isSome_iff_exists.mp h
  rw [fresh]
  split
  · exact ⟨_, filled_eq_ok.mpr ⟨n, hn, rfl⟩⟩
  · exact ⟨_, shapeOnly_eq_ok.mpr ⟨n, hn, rfl⟩⟩

theorem size_resizeRow {zero : α} {n : Nat} {row : Array α} : (resizeRow zero n row).size = n := by
  rw [resizeRow, Array.size_append, Array.size_extract, Array.size_replicate]
  omega

theorem Sound.resizeTuples {s s' : DenseStore α} {tuples : Shape} {zero : α}
    (h : s.resizeTuples tuples zero = .ok s') : s'.Sound := by
  obtain ⟨n, hn, rfl⟩ := resizeTuples_eq_ok.mp h
  refine ⟨Option.isSome_of_eq_some hn, fun hrow => ?_⟩
  obtain ⟨row, -, rfl⟩ := Option.map_eq_some_iff.mp hrow
  rw [size_resizeRow, size_eq_of_count hn]

/-- The same shapes around a row of the right length. -/
theorem Sound.withRow {s : DenseStore α} (h : s.Sound) {row : Array α} (hrow : row.size = s.size) :
    Sound { s with row? := some row } where
  counted := h.counted
  full := fun heq => by
    cases heq
    exact hrow

/-- The store without its elements. -/
def shell (s : DenseStore α) : DenseStore α := { s with row? := none }

end DenseStore

/-! ## List stores -/

namespace ListStore

variable {α : Type}

/-- The tuple shape has a size, and there are that many lists. -/
structure Sound (s : ListStore α) : Prop where
  counted : s.tupleShape.size?.isSome
  full : ∀ {lists}, s.lists? = some lists → lists.size = s.tupleCount

/-- A store that one of the functions for building stores answered with. -/
inductive Built : ListStore α → Prop where
  | new {tuples : Shape} {s : ListStore α} (h : new tuples = .ok s) : Built s
  | shapeOnly {tuples : Shape} {s : ListStore α} (h : shapeOnly tuples = .ok s) : Built s
  | ofLists {tuples : Shape} {lists : Array (List α)} {s : ListStore α}
      (h : ofLists tuples lists = .ok s) : Built s

theorem new_eq_ok {tuples : Shape} {s : ListStore α} :
    new tuples = .ok s ↔
      ∃ n, tuples.size? = some n ∧ ⟨tuples, some (Array.replicate n [])⟩ = s := by
  rw [new, listCount, Shape.elementCount_map_eq_ok, Shape.elementCount?_one]

theorem shapeOnly_eq_ok {tuples : Shape} {s : ListStore α} :
    shapeOnly tuples = .ok s ↔ ∃ n, tuples.size? = some n ∧ ⟨tuples, none⟩ = s := by
  rw [shapeOnly, listCount, Shape.elementCount_map_eq_ok, Shape.elementCount?_one]

theorem ofLists_eq_ok {tuples : Shape} {lists : Array (List α)} {s : ListStore α} :
    ofLists tuples lists = .ok s ↔
      tuples.size? = some lists.size ∧ ⟨tuples, some lists⟩ = s := by
  rw [ofLists, listCount, Shape.elementCount_bind_eq_ok, Shape.elementCount?_one]
  constructor
  · rintro ⟨n, hn, h⟩
    split at h
    · next hsize =>
        cases h
        exact ⟨hsize ▸ hn, rfl⟩
    · cases h
  · rintro ⟨hn, rfl⟩
    exact ⟨lists.size, hn, if_pos rfl⟩

/-- Lists cut or filled up with empty ones to a number. -/
def resizeLists (n : Nat) (lists : Array (List α)) : Array (List α) :=
  lists.extract 0 n ++ Array.replicate (n - lists.size) []

theorem resizeTuples_eq_ok {s s' : ListStore α} {tuples : Shape} :
    s.resizeTuples tuples = .ok s' ↔
      ∃ n, tuples.size? = some n ∧
        { s with tupleShape := tuples, lists? := s.lists?.map (resizeLists n) } = s' := by
  rw [resizeTuples, listCount]
  exact Shape.elementCount_map_eq_ok.trans (by rw [Shape.elementCount?_one]; rfl)

/-- Every way to build a store ends in a sound one. -/
theorem Built.sound {s : ListStore α} (h : Built s) : s.Sound := by
  cases h with
  | new h =>
      obtain ⟨n, hn, rfl⟩ := new_eq_ok.mp h
      refine ⟨Option.isSome_of_eq_some hn, fun hlists => ?_⟩
      cases hlists
      rw [Array.size_replicate, tupleCount, Shape.size_of_size? hn]
  | shapeOnly h =>
      obtain ⟨n, hn, rfl⟩ := shapeOnly_eq_ok.mp h
      exact ⟨Option.isSome_of_eq_some hn, fun hlists => nomatch hlists⟩
  | ofLists h =>
      obtain ⟨hn, rfl⟩ := ofLists_eq_ok.mp h
      refine ⟨Option.isSome_of_eq_some hn, fun hlists => ?_⟩
      cases hlists
      rw [tupleCount, Shape.size_of_size? hn]

theorem fresh_built {tuples : Shape} {allocated : Bool} {s : ListStore α}
    (h : fresh tuples allocated = .ok s) : Built s := by
  rw [fresh] at h
  split at h
  · exact .new h
  · exact .shapeOnly h

theorem fresh_shape {tuples : Shape} {allocated : Bool} {s : ListStore α}
    (h : fresh tuples allocated = .ok s) : s.tupleShape = tuples := by
  rw [fresh] at h
  split at h
  · obtain ⟨n, -, rfl⟩ := new_eq_ok.mp h
    rfl
  · obtain ⟨n, -, rfl⟩ := shapeOnly_eq_ok.mp h
    rfl

theorem exists_fresh {tuples : Shape} {allocated : Bool} (h : (Shape.size? tuples).isSome = true) :
    ∃ s : ListStore α, fresh tuples allocated = .ok s := by
  obtain ⟨n, hn⟩ := Option.isSome_iff_exists.mp h
  rw [fresh]
  split
  · exact ⟨_, new_eq_ok.mpr ⟨n, hn, rfl⟩⟩
  · exact ⟨_, shapeOnly_eq_ok.mpr ⟨n, hn, rfl⟩⟩

theorem Sound.resizeTuples {s s' : ListStore α} {tuples : Shape}
    (h : s.resizeTuples tuples = .ok s') : s'.Sound := by
  obtain ⟨n, hn, rfl⟩ := resizeTuples_eq_ok.mp h
  refine ⟨Option.isSome_of_eq_some hn, fun hlists => ?_⟩
  obtain ⟨lists, -, rfl⟩ := Option.map_eq_some_iff.mp hlists
  rw [resizeLists, Array.size_append, Array.size_extract, Array.size_replicate, tupleCount,
    Shape.size_of_size? hn]
  omega

/-- The same shape around the right number of lists. -/
theorem Sound.withLists {s : ListStore α} (h : s.Sound) {lists : Array (List α)}
    (hlists : lists.size = s.tupleCount) : Sound { s with lists? := some lists } where
  counted := h.counted
  full := fun heq => by
    cases heq
    exact hlists

/-- The store without its lists. -/
def shell (s : ListStore α) : ListStore α := { s with lists? := none }

end ListStore

/-! ## Stores of any element type -/

/-- A fresh array has the type and the shapes it was asked for. -/
theorem DataArray.of_fresh {t : ElementType} {tuples components : Shape} {allocated : Bool}
    {a : DataArray} (h : fresh t tuples components allocated = .ok a) :
    a.elementType = t ∧ a.store.tupleShape = tuples ∧ a.store.componentShape = components ∧
      a.store.Sound := by
  obtain ⟨s, hs, rfl⟩ := check_map_eq_ok.mp h
  obtain ⟨htuples, hcomponents⟩ := DenseStore.fresh_shapes hs
  exact ⟨rfl, htuples, hcomponents, (DenseStore.fresh_built hs).sound⟩

theorem DataArray.exists_fresh {t : ElementType} {tuples components : Shape} {allocated : Bool}
    (h : (Shape.elementCount? tuples components).isSome = true) :
    ∃ a, fresh t tuples components allocated = .ok a := by
  obtain ⟨s, hs⟩ := DenseStore.exists_fresh h
  exact ⟨_, check_map_eq_ok.mpr ⟨s, hs, rfl⟩⟩

/-- A fresh list has the type and the shape it was asked for. -/
theorem NeighborList.of_fresh {t : ElementType} {tuples : Shape} {allocated : Bool}
    {l : NeighborList} (h : fresh t tuples allocated = .ok l) :
    l.elementType = t ∧ l.store.tupleShape = tuples ∧ l.store.Sound := by
  obtain ⟨s, hs, rfl⟩ := check_map_eq_ok.mp h
  exact ⟨rfl, ListStore.fresh_shape hs, (ListStore.fresh_built hs).sound⟩

theorem NeighborList.exists_fresh {t : ElementType} {tuples : Shape} {allocated : Bool}
    (h : (Shape.size? tuples).isSome = true) : ∃ l, fresh t tuples allocated = .ok l := by
  obtain ⟨s, hs⟩ := ListStore.exists_fresh h
  exact ⟨_, check_map_eq_ok.mpr ⟨s, hs, rfl⟩⟩

/-! ## Writes -/

/--
A change of the elements of a dense store, and of nothing else. What is written
in place into a row, or into a part of it, is an `overwrite` with the elements
that the row has afterwards.
-/
inductive ArrayWrite (t : ElementType) where
  | allocate
  | set (index : Nat) (value : t.Carrier)
  | setComponent (tuple component : Nat) (value : t.Carrier)
  | modifyTuple (tuple : Nat) (f : t.Carrier → t.Carrier)
  | fill (value : t.Carrier)
  | overwrite (values : Array t.Carrier)

/-- A change of the lists of a list store, and of nothing else; one list may become any other. -/
inductive ListWrite (t : ElementType) where
  | allocate
  | modifyList (tuple : Nat) (f : List t.Carrier → List t.Carrier)
  | setLists (lists : Array (List t.Carrier))

/-- Carry out a write. -/
def ArrayWrite.on {t : ElementType} (s : DenseStore t.Carrier) :
    ArrayWrite t → Except StoreError (DenseStore t.Carrier)
  | allocate => .ok (s.allocate t.zero)
  | set index value => s.set index value
  | setComponent tuple component value => s.setComponent tuple component value
  | modifyTuple tuple f => s.modifyTuple tuple f
  | fill value => s.fill value
  | overwrite values => s.overwrite values

/-- Carry out a write. -/
def ListWrite.on {t : ElementType} (s : ListStore t.Carrier) :
    ListWrite t → Except StoreError (ListStore t.Carrier)
  | allocate => .ok s.allocate
  | modifyList tuple f => s.modifyList tuple f
  | setLists lists => s.setLists lists

namespace DenseStore

variable {α β : Type} {s : DenseStore α}

theorem row_bind_eq_ok {k : Array α → Except StoreError β} {b : β} :
    (s.row >>= k) = .ok b ↔ ∃ row, s.row? = some row ∧ k row = .ok b := by
  rw [row]
  cases s.row? with
  | none => exact ⟨fun h => (nomatch h), fun ⟨_, h, _⟩ => (nomatch h)⟩
  | some row => exact ⟨fun h => ⟨row, rfl, h⟩, fun ⟨_, hrow, h⟩ => Option.some.inj hrow ▸ h⟩

/-- The same shapes around a row of another content and the same length. -/
def Rewritten (s s' : DenseStore α) : Prop :=
  ∃ row, row.size = s.size ∧ s' = { s with row? := some row }

theorem Rewritten.sound {s' : DenseStore α} (h : s.Rewritten s') (hs : s.Sound) : s'.Sound := by
  obtain ⟨row, hrow, rfl⟩ := h
  exact hs.withRow hrow

theorem Rewritten.shell_eq {s' : DenseStore α} (h : s.Rewritten s') : s'.shell = s.shell := by
  obtain ⟨row, -, rfl⟩ := h
  rfl

theorem Sound.allocate (hs : s.Sound) {zero : α} : s.Rewritten (s.allocate zero) := by
  rw [DenseStore.allocate]
  split
  · next h =>
      obtain ⟨row, hrow⟩ := Option.isSome_iff_exists.mp h
      exact ⟨row, hs.full hrow, by rw [← hrow]⟩
  · exact ⟨_, Array.size_replicate, rfl⟩

theorem Sound.set (hs : s.Sound) {s' : DenseStore α} {index : Nat} {value : α}
    (h : s.set index value = .ok s') : s.Rewritten s' := by
  rw [DenseStore.set, row_bind_eq_ok] at h
  obtain ⟨row, hrow, h⟩ := h
  split at h
  · cases h
    exact ⟨_, by rw [Array.size_setIfInBounds, hs.full hrow], rfl⟩
  · cases h

theorem Sound.setComponent (hs : s.Sound) {s' : DenseStore α} {tuple component : Nat} {value : α}
    (h : s.setComponent tuple component value = .ok s') : s.Rewritten s' := by
  rw [DenseStore.setComponent] at h
  cases hplace : s.place tuple component with
  | error e =>
      rw [hplace] at h
      cases h
  | ok index =>
      rw [hplace] at h
      exact hs.set h

theorem size_modifyRow {f : α → α} {start stop : Nat} {row : Array α} :
    (modifyRow f start stop row).size = row.size := by
  rw [modifyRow, Array.size_mapIdx]

theorem Sound.modifyTuple (hs : s.Sound) {s' : DenseStore α} {tuple : Nat} {f : α → α}
    (h : s.modifyTuple tuple f = .ok s') : s.Rewritten s' := by
  rw [DenseStore.modifyTuple] at h
  cases htuple : s.checkTuple tuple with
  | error e =>
      rw [htuple] at h
      cases h
  | ok u =>
      rw [htuple] at h
      obtain ⟨row, hrow, heq⟩ := row_bind_eq_ok.mp h
      cases heq
      exact ⟨_, by rw [size_modifyRow, hs.full hrow], rfl⟩

theorem Sound.fill (hs : s.Sound) {s' : DenseStore α} {value : α} (h : s.fill value = .ok s') :
    s.Rewritten s' := by
  rw [DenseStore.fill, row_bind_eq_ok] at h
  obtain ⟨row, hrow, heq⟩ := h
  cases heq
  exact ⟨_, by rw [Array.size_map, hs.full hrow], rfl⟩

theorem Sound.overwrite (hs : s.Sound) {s' : DenseStore α} {values : Array α}
    (h : s.overwrite values = .ok s') : s.Rewritten s' := by
  rw [DenseStore.overwrite, row_bind_eq_ok] at h
  obtain ⟨row, hrow, h⟩ := h
  split at h
  · next hsize =>
      cases h
      exact ⟨values, by rw [hsize, hs.full hrow], rfl⟩
  · cases h

end DenseStore

namespace ListStore

variable {α β : Type} {s : ListStore α}

theorem lists_bind_eq_ok {k : Array (List α) → Except StoreError β} {b : β} :
    (s.lists >>= k) = .ok b ↔ ∃ lists, s.lists? = some lists ∧ k lists = .ok b := by
  rw [lists]
  cases s.lists? with
  | none => exact ⟨fun h => (nomatch h), fun ⟨_, h, _⟩ => (nomatch h)⟩
  | some lists => exact ⟨fun h => ⟨lists, rfl, h⟩, fun ⟨_, hl, h⟩ => Option.some.inj hl ▸ h⟩

/-- The same shape around other lists, as many as before. -/
def Rewritten (s s' : ListStore α) : Prop :=
  ∃ lists, lists.size = s.tupleCount ∧ s' = { s with lists? := some lists }

theorem Rewritten.sound {s' : ListStore α} (h : s.Rewritten s') (hs : s.Sound) : s'.Sound := by
  obtain ⟨lists, hlists, rfl⟩ := h
  exact hs.withLists hlists

theorem Rewritten.shell_eq {s' : ListStore α} (h : s.Rewritten s') : s'.shell = s.shell := by
  obtain ⟨lists, -, rfl⟩ := h
  rfl

theorem Sound.allocate (hs : s.Sound) : s.Rewritten s.allocate := by
  rw [ListStore.allocate]
  split
  · next h =>
      obtain ⟨lists, hlists⟩ := Option.isSome_iff_exists.mp h
      exact ⟨lists, hs.full hlists, by rw [← hlists]⟩
  · exact ⟨_, Array.size_replicate, rfl⟩

theorem Sound.modifyList (hs : s.Sound) {s' : ListStore α} {tuple : Nat} {f : List α → List α}
    (h : s.modifyList tuple f = .ok s') : s.Rewritten s' := by
  rw [ListStore.modifyList, lists_bind_eq_ok] at h
  obtain ⟨lists, hlists, h⟩ := h
  split at h
  · cases h
    exact ⟨_, by rw [Array.size_modify, hs.full hlists], rfl⟩
  · cases h

theorem Rewritten.ofSetLists {s' : ListStore α} {lists : Array (List α)}
    (h : s.setLists lists = .ok s') : s.Rewritten s' := by
  rw [setLists] at h
  split at h
  · next hsize =>
      cases h
      exact ⟨lists, hsize, rfl⟩
  · cases h

end ListStore

/-- A write changes elements and no shape. -/
theorem ArrayWrite.rewritten {t : ElementType} {s s' : DenseStore t.Carrier} (hs : s.Sound)
    {w : ArrayWrite t} (h : w.on s = .ok s') : s.Rewritten s' := by
  cases w with
  | allocate =>
      cases h
      exact hs.allocate
  | set index value => exact hs.set h
  | setComponent tuple component value => exact hs.setComponent h
  | modifyTuple tuple f => exact hs.modifyTuple h
  | fill value => exact hs.fill h
  | overwrite values => exact hs.overwrite h

/-- A write changes lists and not their number. -/
theorem ListWrite.rewritten {t : ElementType} {s s' : ListStore t.Carrier} (hs : s.Sound)
    {w : ListWrite t} (h : w.on s = .ok s') : s.Rewritten s' := by
  cases w with
  | allocate =>
      cases h
      exact hs.allocate
  | modifyList tuple f => exact hs.modifyList h
  | setLists lists => exact .ofSetLists h

end FilterTree
