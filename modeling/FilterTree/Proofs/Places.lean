import FilterTree.Proofs.Store

/-!
# The places of a store

The elements of a dense store are reached in four ways: by their place in the row, by tuple and
component, tuple by tuple, and all at once. Each way computes for itself where an element lies, and
`Shows` says that they all find the same one: what the store holds is a function of tuple and
component, and the four ways are readings of it.

That the readings agree, and go on to agree after a write, is one fact about numbers. Below the
number of components `t * C + c` is the place of one tuple and one component only (`place_inj`), and
it is a place of the row (`place_lt`). So a write reaches one element whichever way it goes, and
cutting the row at its end, or filling it up, cuts off or adds whole tuples.

A list store has one list in each place, and there the same is said with lists for components.
-/

namespace FilterTree

namespace Shape

/-- The product of the dimensions, whatever its size; without dimensions there are no places. -/
def volume (shape : Shape) : Nat := if shape.isEmpty then 0 else shape.prod

theorem size?_eq_some {shape : Shape} {n : Nat} :
    size? shape = some n ↔ shape.leading.prod < sizeLimit ∧ shape.volume = n := by
  rw [size?, volume]
  split
  · next hempty =>
      rw [List.isEmpty_iff.mp hempty]
      exact ⟨fun h => ⟨by decide, Option.some.inj h⟩, fun h => congrArg some h.2⟩
  · rw [foldlM_boundedMul_eq_some (by decide), Nat.one_mul, Nat.one_mul]

theorem volume_of_size? {shape : Shape} {n : Nat} (h : size? shape = some n) :
    shape.volume = n := (size?_eq_some.mp h).2

theorem size_eq_volume {shape : Shape} (h : shape.size?.isSome) : shape.size = shape.volume := by
  obtain ⟨n, hn⟩ := Option.isSome_iff_exists.mp h
  rw [size_of_size? hn, volume_of_size? hn]

theorem size_lt {shape : Shape} (h : shape.size?.isSome) : shape.size < sizeLimit := by
  obtain ⟨n, hn⟩ := Option.isSome_iff_exists.mp h
  rw [size_of_size? hn]
  exact size?_lt hn

end Shape

/-! ## Numbers -/

section numbers

variable {t t' c c' T C : Nat}

theorem place_lt (ht : t < T) (hc : c < C) : t * C + c < T * C := by
  have hnext : (t + 1) * C ≤ T * C := Nat.mul_le_mul_right C ht
  rw [Nat.add_mul, Nat.one_mul] at hnext
  omega

theorem place_inj (hc : c < C) (hc' : c' < C) : t * C + c = t' * C + c' ↔ t = t' ∧ c = c' := by
  constructor
  · intro h
    have hsame : t = t' := by
      rcases Nat.lt_trichotomy t t' with hlt | heq | hlt
      · have := place_lt (C := C) hlt hc
        omega
      · exact heq
      · have := place_lt (C := C) hlt hc'
        omega
    subst hsame
    exact ⟨rfl, by omega⟩
  · rintro ⟨rfl, rfl⟩
    rfl

theorem place_within (hc : c < C) : t' * C ≤ t * C + c ∧ t * C + c < (t' + 1) * C ↔ t = t' := by
  constructor
  · rintro ⟨hle, hlt⟩
    obtain ⟨c', hc'⟩ := Nat.exists_eq_add_of_le hle
    rw [Nat.add_mul, Nat.one_mul] at hlt
    exact ((place_inj hc (show c' < C by omega)).mp hc').1
  · rintro rfl
    rw [Nat.add_mul, Nat.one_mul]
    omega

end numbers

namespace DenseStore

variable {α : Type} {s s' : DenseStore α} {row : Array α} {f : Nat → Nat → α} {zero : α}

namespace Sound

theorem tuples (h : s.Sound) : s.tupleShape.size?.isSome :=
  Shape.size?_isSome_of_elementCount? h.counted

theorem components (h : s.Sound) : s.componentShape.size?.isSome := by
  obtain ⟨n, hn⟩ := Option.isSome_iff_exists.mp h.counted
  obtain ⟨_, c, -, hc, -⟩ := Shape.elementCount?_eq_some.mp hn
  exact Option.isSome_of_eq_some hc

theorem size_lt (h : s.Sound) : s.size < sizeLimit := by
  obtain ⟨n, hn⟩ := Option.isSome_iff_exists.mp h.counted
  obtain ⟨_, _, -, -, hbounded⟩ := Shape.elementCount?_eq_some.mp hn
  rw [size_eq_of_count hn]
  exact (Shape.boundedMul_eq_some.mp hbounded).2

end Sound

/-! ## What a dense store shows -/

/-- Whichever way the elements are read, component `c` of tuple `t` is `f t c`. -/
structure Shows (s : DenseStore α) (f : Nat → Nat → α) : Prop where
  component : ∀ {t c}, t < s.tupleCount → c < s.componentCount → s.getComponent t c = .ok (f t c)
  place : ∀ {t c}, t < s.tupleCount → c < s.componentCount →
    s.get (t * s.componentCount + c) = .ok (f t c)
  tuple : ∀ {t}, t < s.tupleCount →
    s.tuple t = .ok (Array.ofFn fun c : Fin s.componentCount => f t c)
  row : ∃ row, s.row = .ok row ∧ row.size = s.size ∧ ∀ {t c}, t < s.tupleCount →
    c < s.componentCount → row[t * s.componentCount + c]? = some (f t c)

theorem row_eq_ok : s.row = .ok row ↔ s.row? = some row := by
  rw [DenseStore.row]
  cases s.row? <;> grind

theorem get_of_row (hrow : s.row? = some row) {i : Nat} {a : α} (ha : row[i]? = some a) :
    s.get i = .ok a :=
  row_bind_eq_ok.mpr ⟨row, hrow, by rw [ha]; rfl⟩

theorem place_eq_ok {t c i : Nat} :
    s.place t c = .ok i ↔
      t < s.tupleCount ∧ c < s.componentCount ∧ t * s.componentCount + c = i := by
  rw [DenseStore.place]
  grind

/-- What the row holds at each place is what every way of reading finds. -/
theorem Sound.shows (h : s.Sound) (hrow : s.row? = some row)
    (hf : ∀ {t c}, t < s.tupleCount → c < s.componentCount →
      row[t * s.componentCount + c]? = some (f t c)) : s.Shows f where
  component ht hc := by
    rw [getComponent, place_eq_ok.mpr ⟨ht, hc, rfl⟩]
    exact get_of_row hrow (hf ht hc)
  place ht hc := get_of_row hrow (hf ht hc)
  tuple {t} ht := by
    have hnext : (t + 1) * s.componentCount ≤ row.size :=
      h.full hrow ▸ Nat.mul_le_mul_right _ ht
    rw [Nat.add_mul, Nat.one_mul] at hnext
    rw [DenseStore.tuple, checkTuple, if_pos ht, row_eq_ok.mpr hrow]
    refine congrArg Except.ok (Array.ext ?_ fun i hi hi' => ?_)
    · rw [Array.size_extract, Array.size_ofFn, Nat.add_mul, Nat.one_mul]
      omega
    · have hc : i < s.componentCount := by rwa [Array.size_ofFn] at hi'
      rw [Array.getElem_extract, Array.getElem_ofFn, ← Option.some_inj, ← hf ht hc]
      exact (Array.getElem?_eq_getElem (by omega)).symm
  row := ⟨row, row_eq_ok.mpr hrow, h.full hrow, hf⟩

theorem Sound.shows_withRow (h : s.Sound) (hsize : row.size = s.size)
    (hf : ∀ {t c}, t < s.tupleCount → c < s.componentCount →
      row[t * s.componentCount + c]? = some (f t c)) : Shows { s with row? := some row } f :=
  (h.withRow hsize).shows rfl hf

theorem Shows.row_some (h : s.Shows f) : ∃ row, s.row? = some row ∧ ∀ {t c}, t < s.tupleCount →
    c < s.componentCount → row[t * s.componentCount + c]? = some (f t c) := by
  obtain ⟨row, hrow, -, hf⟩ := h.row
  exact ⟨row, row_eq_ok.mp hrow, hf⟩

theorem Sound.exists_shows (h : s.Sound) (halloc : s.isAllocated) (zero : α) :
    ∃ f, s.Shows f := by
  obtain ⟨row, hrow⟩ := Option.isSome_iff_exists.mp halloc
  refine ⟨fun t c => row[t * s.componentCount + c]?.getD zero, h.shows hrow fun {t c} ht hc => ?_⟩
  have hlt : t * s.componentCount + c < row.size := (h.full hrow).symm ▸ place_lt ht hc
  rw [Array.getElem?_eq_getElem hlt, Option.getD_some]

theorem Shows.congr (hs : s.Sound) (h : s.Shows f) {g : Nat → Nat → α}
    (hfg : ∀ {t c}, t < s.tupleCount → f t c = g t c) : s.Shows g := by
  obtain ⟨row, hrow, hf⟩ := h.row_some
  exact hs.shows hrow fun ht hc => (hf ht hc).trans (congrArg some (hfg ht))

/-! ## Writing -/

def SameShapes (s s' : DenseStore α) : Prop :=
  s'.tupleShape = s.tupleShape ∧ s'.componentShape = s.componentShape

theorem set_of_row (hrow : s.row? = some row) {i : Nat} (hi : i < row.size) (value : α) :
    s.set i value = .ok { s with row? := some (row.setIfInBounds i value) } := by
  rw [set, row_eq_ok.mpr hrow]
  exact if_pos hi

theorem editTuple_of_row (hrow : s.row? = some row) {tuple : Nat} (ht : tuple < s.tupleCount)
    (g : Nat → α → α) :
    s.editTuple tuple g = .ok { s with row? := some (row.mapIdx fun i a =>
      if tuple * s.componentCount ≤ i ∧ i < (tuple + 1) * s.componentCount
      then g (i - tuple * s.componentCount) a else a) } := by
  rw [editTuple, checkTuple, if_pos ht, row_eq_ok.mpr hrow]
  rfl

/-- Writing into a tuple changes what that tuple shows, component by component. -/
theorem Shows.editTuple (hs : s.Sound) (h : s.Shows f) {tuple : Nat} (ht : tuple < s.tupleCount)
    (g : Nat → α → α) : ∃ s', s.editTuple tuple g = .ok s' ∧ s.SameShapes s' ∧
      s'.Shows fun t c => if t = tuple then g c (f t c) else f t c := by
  obtain ⟨row, hrow, hf⟩ := h.row_some
  refine ⟨_, editTuple_of_row hrow ht g, ⟨rfl, rfl⟩, ?_⟩
  refine hs.shows_withRow (by rw [Array.size_mapIdx, hs.full hrow]) fun {t c} ht' hc => ?_
  rw [Array.getElem?_mapIdx, hf ht' hc, Option.map_some]
  split
  · next hin =>
      obtain rfl := (place_within hc).mp hin
      rw [if_pos rfl, Nat.add_sub_cancel_left]
  · next hout => rw [if_neg fun heq => hout ((place_within hc).mpr heq)]

/-- One element has one place: three ways to write it end in the same store. -/
theorem Shows.write (hs : s.Sound) (h : s.Shows f) {t c : Nat} (ht : t < s.tupleCount)
    (hc : c < s.componentCount) (value : α) :
    ∃ s', s.set (t * s.componentCount + c) value = .ok s' ∧ s.setComponent t c value = .ok s' ∧
      s.editTuple t (fun c' old => if c' = c then value else old) = .ok s' ∧ s.SameShapes s' ∧
      s'.Shows fun t' c' => if t' = t ∧ c' = c then value else f t' c' := by
  obtain ⟨row, hrow, hf⟩ := h.row_some
  have hlt : t * s.componentCount + c < row.size := (hs.full hrow).symm ▸ place_lt ht hc
  have hset := set_of_row hrow hlt value
  refine ⟨_, hset, ?_, ?_, ⟨rfl, rfl⟩, ?_⟩
  · rw [setComponent, place_eq_ok.mpr ⟨ht, hc, rfl⟩]
    exact hset
  · -- of the places of the tuple only one has the distance `c` from its start
    rw [editTuple_of_row hrow ht]
    have hnext := Nat.add_mul t 1 s.componentCount
    refine congrArg (fun row => Except.ok { s with row? := some row }) ?_
    refine Array.ext (by rw [Array.size_mapIdx, Array.size_setIfInBounds]) fun i hi hi' => ?_
    rw [Array.getElem_mapIdx, Array.getElem_setIfInBounds (by grind)]
    grind
  · refine hs.shows_withRow (by rw [Array.size_setIfInBounds, hs.full hrow]) ?_
    intro t' c' ht' hc'
    rw [Array.getElem?_setIfInBounds, hf ht' hc']
    split
    · next heq =>
        obtain ⟨rfl, rfl⟩ := (place_inj hc hc').mp heq
        rw [if_pos ⟨rfl, rfl⟩]
    · next hne =>
        rw [if_neg]
        rintro ⟨rfl, rfl⟩
        exact hne rfl

/-! ## Resizing -/

theorem getElem?_resizeRow {n i : Nat} (hi : i < n) :
    (resizeRow zero n row)[i]? = some (row[i]?.getD zero) := by
  rw [resizeRow, Array.getElem?_append, Array.size_extract]
  split
  · next h => grind
  · next h => grind

/-- The tuples there were keep what they show; those that are new show `zero`. -/
theorem Shows.resizeTuples (hs : s.Sound) (h : s.Shows f) {tuples : Shape}
    (heq : s.resizeTuples tuples zero = .ok s') :
    s'.Shows fun t c => if t < s.tupleCount then f t c else zero := by
  obtain ⟨row, hrow, hf⟩ := h.row_some
  have hs' := Sound.resizeTuples heq
  obtain ⟨n, hn, rfl⟩ := resizeTuples_eq_ok.mp heq
  have hrow' := congrArg (Option.map (resizeRow zero n)) hrow
  have hfull := hs'.full hrow'
  refine hs'.shows hrow' fun {t c} ht hc => ?_
  have hlt : t * s.componentCount + c < n := by
    rw [size_resizeRow] at hfull
    exact hfull.symm ▸ place_lt ht hc
  refine (getElem?_resizeRow hlt).trans ?_
  split
  · next hold => rw [hf hold hc, Option.getD_some]
  · next hnew =>
      -- the row ended where the first of the new tuples starts
      have hbefore := Nat.mul_le_mul_right s.componentCount (Nat.le_of_not_lt hnew)
      rw [Array.getElem?_eq_none, Option.getD_none]
      exact (hs.full hrow).symm ▸ Nat.le_add_right_of_le hbefore

theorem Shows.tuple_zero {t : Nat} (h : s.Shows f) (ht : t < s.tupleCount)
    (hf : ∀ c, f t c = zero) : s.tuple t = .ok (Array.replicate s.componentCount zero) := by
  rw [h.tuple ht]
  refine congrArg Except.ok (Array.ext (by rw [Array.size_ofFn, Array.size_replicate]) ?_)
  intro i _ _
  rw [Array.getElem_ofFn, Array.getElem_replicate, hf]

theorem Shows.tuple_eq {P : Nat → Prop} [DecidablePred P] (h : s.Shows f)
    (h' : s'.Shows fun t c => if P t then f t c else zero)
    (hcount : s'.componentCount = s.componentCount) {t : Nat} (ht : t < s'.tupleCount)
    (hP : P t → t < s.tupleCount) :
    s'.tuple t = if P t then s.tuple t else .ok (Array.replicate s.componentCount zero) := by
  split
  · next hkept =>
      rw [h'.tuple ht, h.tuple (hP hkept), hcount]
      simp only [if_pos hkept]
  · next hcut => rw [h'.tuple_zero ht fun c => if_neg hcut, hcount]

/-- The tuples of a store, cut off or filled up to another shape. -/
structure Resized (s : DenseStore α) (tuples : Shape) (zero : α) (s' : DenseStore α) : Prop where
  tuples : s'.tupleShape = tuples
  components : s'.componentShape = s.componentShape
  allocated : s'.isAllocated = s.isAllocated
  kept : s.isAllocated → ∀ t < s'.tupleCount, s'.tuple t =
    if t < s.tupleCount then s.tuple t else .ok (Array.replicate s.componentCount zero)

theorem Sound.resized (hs : s.Sound) {tuples : Shape} (heq : s.resizeTuples tuples zero = .ok s') :
    s.Resized tuples zero s' := by
  have hshapes : s'.tupleShape = tuples ∧ s'.componentShape = s.componentShape ∧
      s'.isAllocated = s.isAllocated := by
    obtain ⟨n, -, rfl⟩ := resizeTuples_eq_ok.mp heq
    exact ⟨rfl, rfl, Option.isSome_map⟩
  refine ⟨hshapes.1, hshapes.2.1, hshapes.2.2, fun halloc t ht => ?_⟩
  obtain ⟨f, hf⟩ := hs.exists_shows halloc zero
  exact hf.tuple_eq (P := (· < s.tupleCount)) (hf.resizeTuples hs heq)
    (congrArg Shape.size hshapes.2.1) ht id

end DenseStore

namespace ListStore

variable {α : Type} {s s' : ListStore α} {lists : Array (List α)} {f : Nat → List α}

theorem Sound.tupleCount_lt (h : s.Sound) : s.tupleCount < sizeLimit := Shape.size_lt h.counted

/-! ## What a list store shows -/

/-- Whichever way the lists are read, the list of tuple `t` is `f t`. -/
structure Shows (s : ListStore α) (f : Nat → List α) : Prop where
  list : ∀ {t}, t < s.tupleCount → s.list t = .ok (f t)
  lists : s.lists = .ok (Array.ofFn fun t : Fin s.tupleCount => f t)

theorem lists_eq_ok : s.lists = .ok lists ↔ s.lists? = some lists := by
  rw [ListStore.lists]
  cases s.lists? <;> grind

theorem list_of_lists (hlists : s.lists? = some lists) {t : Nat} {l : List α}
    (hl : lists[t]? = some l) : s.list t = .ok l :=
  lists_bind_eq_ok.mpr ⟨lists, hlists, by rw [hl]; rfl⟩

theorem Sound.shows (h : s.Sound) (hlists : s.lists? = some lists)
    (hf : ∀ {t}, t < s.tupleCount → lists[t]? = some (f t)) : s.Shows f where
  list ht := list_of_lists hlists (hf ht)
  lists := by
    rw [lists_eq_ok.mpr hlists]
    refine congrArg Except.ok (Array.ext ?_ fun t ht ht' => ?_)
    · rw [h.full hlists, Array.size_ofFn]
    · have hin : t < s.tupleCount := by rwa [Array.size_ofFn] at ht'
      rw [Array.getElem_ofFn, ← Option.some_inj, ← hf hin]
      exact (Array.getElem?_eq_getElem ht).symm

theorem Sound.shows_withLists (h : s.Sound) (hsize : lists.size = s.tupleCount)
    (hf : ∀ {t}, t < s.tupleCount → lists[t]? = some (f t)) :
    Shows { s with lists? := some lists } f :=
  (h.withLists hsize).shows rfl hf

theorem Shows.lists_some (h : s.Shows f) :
    ∃ lists, s.lists? = some lists ∧ lists.size = s.tupleCount ∧
      ∀ {t}, t < s.tupleCount → lists[t]? = some (f t) := by
  refine ⟨_, lists_eq_ok.mp h.lists, Array.size_ofFn, fun ht => ?_⟩
  rw [Array.getElem?_ofFn, dif_pos ht]

theorem Sound.exists_shows (h : s.Sound) (halloc : s.isAllocated) : ∃ f, s.Shows f := by
  obtain ⟨lists, hlists⟩ := Option.isSome_iff_exists.mp halloc
  refine ⟨fun t => lists[t]?.getD [], h.shows hlists fun {t} ht => ?_⟩
  rw [Array.getElem?_eq_getElem (h.full hlists ▸ ht), Option.getD_some]

theorem Shows.congr (hs : s.Sound) (h : s.Shows f) {g : Nat → List α}
    (hfg : ∀ {t}, t < s.tupleCount → f t = g t) : s.Shows g := by
  obtain ⟨lists, hlists, -, hf⟩ := h.lists_some
  exact hs.shows hlists fun ht => (hf ht).trans (congrArg some (hfg ht))

/-- Writing into a list changes that list and no other; setting it and adding to it are cases. -/
theorem Shows.modifyList (hs : s.Sound) (h : s.Shows f) {tuple : Nat} (ht : tuple < s.tupleCount)
    (g : List α → List α) : ∃ s', s.modifyList tuple g = .ok s' ∧ s'.tupleShape = s.tupleShape ∧
      s'.Shows fun t => if t = tuple then g (f t) else f t := by
  obtain ⟨lists, hlists, hsize, hf⟩ := h.lists_some
  refine ⟨{ s with lists? := some (lists.modify tuple g) }, ?_, rfl, ?_⟩
  · rw [ListStore.modifyList, lists_eq_ok.mpr hlists]
    exact if_pos (hsize ▸ ht)
  · refine hs.shows_withLists (by rw [Array.size_modify, hsize]) fun {t} ht' => ?_
    rw [Array.getElem?_modify, hf ht']
    split
    · next heq => rw [if_pos heq.symm, Option.map_some]
    · next hne => rw [if_neg (Ne.symm hne)]

/-- The tuples there were keep their lists; those that are new have empty ones. -/
theorem Shows.resizeTuples (h : s.Shows f) {tuples : Shape}
    (heq : s.resizeTuples tuples = .ok s') :
    s'.Shows fun t => if t < s.tupleCount then f t else [] := by
  obtain ⟨lists, hlists, hsize, hf⟩ := h.lists_some
  have hs' := Sound.resizeTuples heq
  obtain ⟨n, hn, rfl⟩ := resizeTuples_eq_ok.mp heq
  have hlists' := congrArg (Option.map (resizeLists n)) hlists
  refine hs'.shows hlists' fun {t} ht => ?_
  have hlt : t < n := Shape.size_of_size? hn ▸ ht
  -- lists are cut off and filled up as elements are, with the empty list for a filling
  refine (DenseStore.getElem?_resizeRow hlt).trans ?_
  split
  · next hold => rw [hf hold, Option.getD_some]
  · next hnew =>
      rw [Array.getElem?_eq_none (hsize ▸ Nat.le_of_not_lt hnew), Option.getD_none]

theorem Shows.list_eq {P : Nat → Prop} [DecidablePred P] (h : s.Shows f)
    (h' : s'.Shows fun t => if P t then f t else []) {t : Nat} (ht : t < s'.tupleCount)
    (hP : P t → t < s.tupleCount) :
    s'.list t = if P t then s.list t else .ok [] := by
  rw [h'.list ht]
  split
  · next hkept => rw [h.list (hP hkept)]
  · rfl

/-- The lists of a store, cut off or filled up to another shape. -/
structure Resized (s : ListStore α) (tuples : Shape) (s' : ListStore α) : Prop where
  tuples : s'.tupleShape = tuples
  allocated : s'.isAllocated = s.isAllocated
  kept : s.isAllocated → ∀ t < s'.tupleCount, s'.list t =
    if t < s.tupleCount then s.list t else .ok []

theorem Sound.resized (hs : s.Sound) {tuples : Shape} (heq : s.resizeTuples tuples = .ok s') :
    s.Resized tuples s' := by
  have hshape : s'.tupleShape = tuples ∧ s'.isAllocated = s.isAllocated := by
    obtain ⟨n, -, rfl⟩ := resizeTuples_eq_ok.mp heq
    exact ⟨rfl, Option.isSome_map⟩
  refine ⟨hshape.1, hshape.2, fun halloc t ht => ?_⟩
  obtain ⟨f, hf⟩ := hs.exists_shows halloc
  exact hf.list_eq (P := (· < s.tupleCount)) (hf.resizeTuples heq) ht id

end ListStore

end FilterTree
