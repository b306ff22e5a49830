import FilterTree.Proofs.StoreHistory

/-!
# The views of a store over its life

At any time of its life a store that has elements shows some function of tuple and component, and it
shows the same one through every way of reading (`Viewed.shown`). What writing and resizing do is
then said about that function, once for all ways of reading.

In a stretch of resizing alone a tuple keeps its value for as long as it is never cut off, and it is
`zero` from then on, however often it comes back (`Shows.resizes`). That is an induction over the
shapes. At every stage what is shown is cut off and extended by `zero`, and the counts of the stages
are all that has to be remembered.
-/

namespace FilterTree

namespace DenseStore

variable {α : Type} {zero : α} {s s' : DenseStore α} {f : Nat → Nat → α}

/-! ## Dense stores -/

/-- What a stretch of resizing makes of a store. Shapes that overflow are refused. -/
def resizes (zero : α) (s : DenseStore α) (shapes : List Shape) : DenseStore α :=
  run zero s (shapes.map .resizeTuples)

/-- The stores that a stretch of resizing passes through, from the first to the last. -/
def stages (zero : α) (s : DenseStore α) (shapes : List Shape) : List (DenseStore α) :=
  (shapes.map Call.resizeTuples).scanl (Call.after zero) s

theorem mem_stages (shapes : List Shape) : s ∈ s.stages zero shapes :=
  List.mem_of_head? List.head?_scanl

theorem Shows.after_resizeTuples (hs : s.Sound) (h : s.Shows f) (tuples : Shape) :
    ((Call.resizeTuples tuples).after zero s).Shows fun t c =>
      if t < s.tupleCount then f t c else zero := by
  -- Where the shape is refused the store stays, and no tuple of it has been cut off.
  rw [Call.after]
  split
  · next heq => exact h.resizeTuples hs heq
  · exact h.congr hs fun ht => (if_pos ht).symm

/-- A tuple that no stage has cut off keeps what it shows, any other shows `zero`. -/
theorem Shows.resizes (hs : s.Sound) (h : s.Shows f) (shapes : List Shape) :
    (s.resizes zero shapes).Shows fun t c =>
      if ∀ u ∈ s.stages zero shapes, t < u.tupleCount then f t c else zero := by
  induction shapes generalizing s f with
  | nil =>
      refine h.congr hs fun {t c} ht => (if_pos fun u hu => ?_).symm
      obtain rfl := List.mem_singleton.mp hu
      exact ht
  | cons tuples shapes ih =>
      have hs' : ((Call.resizeTuples tuples).after zero s).Sound := Call.after_sound hs _
      refine (ih hs' (h.after_resizeTuples hs tuples)).congr (sound_run hs' _) fun {t c} _ => ?_
      have hstages : s.stages zero (tuples :: shapes) =
          s :: ((Call.resizeTuples tuples).after zero s).stages zero shapes := List.scanl_cons
      rw [← ite_and]
      refine if_congr ?_ rfl rfl
      rw [hstages, List.forall_mem_cons, and_comm]

theorem componentCount_resizes (shapes : List Shape) :
    (s.resizes zero shapes).componentCount = s.componentCount := by
  induction shapes generalizing s with
  | nil => rfl
  | cons tuples shapes ih =>
      refine (ih (s := (Call.resizeTuples tuples).after zero s)).trans ?_
      rw [Call.after]
      split
      · next heq =>
          obtain ⟨n, -, rfl⟩ := resizeTuples_eq_ok.mp heq
          rfl
      · rfl

/--
What there is to know about a store with elements: they are the same whichever way they are read,
there is one of them to each place to write, and resizing acts on whole tuples.
-/
structure Viewed (zero : α) (s : DenseStore α) : Prop where
  shown : ∃ f, s.Shows f
  written : ∀ {f t c}, s.Shows f → t < s.tupleCount → c < s.componentCount → ∀ value,
    ∃ s', s.set (t * s.componentCount + c) value = .ok s' ∧ s.setComponent t c value = .ok s' ∧
      s.editTuple t (fun c' old => if c' = c then value else old) = .ok s' ∧ s.SameShapes s' ∧
      s'.Shows fun t' c' => if t' = t ∧ c' = c then value else f t' c'
  edited : ∀ {f t}, s.Shows f → t < s.tupleCount → ∀ g, ∃ s', s.editTuple t g = .ok s' ∧
    s.SameShapes s' ∧ s'.Shows fun t' c => if t' = t then g c (f t' c) else f t' c
  resized : ∀ {tuples : Shape}, (tuples.elementCount? s.componentShape).isSome →
    ∃ s', s.resizeTuples tuples zero = .ok s' ∧ s.Resized tuples zero s'
  lasting : ∀ shapes, ∀ t < (s.resizes zero shapes).tupleCount, (s.resizes zero shapes).tuple t =
    if ∀ u ∈ s.stages zero shapes, t < u.tupleCount then s.tuple t
    else .ok (Array.replicate s.componentCount zero)

theorem Sound.viewed (hs : s.Sound) (halloc : s.isAllocated) : s.Viewed zero := by
  obtain ⟨f, hf⟩ := hs.exists_shows halloc zero
  refine ⟨⟨f, hf⟩, fun h ht hc => h.write hs ht hc, fun h ht => h.editTuple hs ht, ?_, ?_⟩
  · intro tuples hcount
    obtain ⟨n, hn⟩ := Option.isSome_iff_exists.mp hcount
    have heq : s.resizeTuples tuples zero = .ok _ := resizeTuples_eq_ok.mpr ⟨n, hn, rfl⟩
    exact ⟨_, heq, hs.resized heq⟩
  · intro shapes t ht
    exact hf.tuple_eq (hf.resizes hs shapes) (componentCount_resizes shapes) ht fun hall =>
      hall s (mem_stages shapes)

end DenseStore

namespace ListStore

variable {α : Type} {s s' : ListStore α} {f : Nat → List α}

/-! ## List stores -/

def resizes (s : ListStore α) (shapes : List Shape) : ListStore α :=
  run s (shapes.map .resizeTuples)

def stages (s : ListStore α) (shapes : List Shape) : List (ListStore α) :=
  (shapes.map Call.resizeTuples).scanl Call.after s

theorem mem_stages (shapes : List Shape) : s ∈ s.stages shapes :=
  List.mem_of_head? List.head?_scanl

theorem Shows.after_resizeTuples (hs : s.Sound) (h : s.Shows f) (tuples : Shape) :
    ((Call.resizeTuples tuples).after s).Shows fun t => if t < s.tupleCount then f t else [] := by
  rw [Call.after]
  split
  · next heq => exact h.resizeTuples heq
  · exact h.congr hs fun ht => (if_pos ht).symm

/-- A tuple that no stage has cut off keeps its list, any other has an empty one. -/
theorem Shows.resizes (hs : s.Sound) (h : s.Shows f) (shapes : List Shape) :
    (s.resizes shapes).Shows fun t =>
      if ∀ u ∈ s.stages shapes, t < u.tupleCount then f t else [] := by
  induction shapes generalizing s f with
  | nil =>
      refine h.congr hs fun {t} ht => (if_pos fun u hu => ?_).symm
      obtain rfl := List.mem_singleton.mp hu
      exact ht
  | cons tuples shapes ih =>
      have hs' := Call.after_sound hs (.resizeTuples tuples)
      refine (ih hs' (h.after_resizeTuples hs tuples)).congr (sound_run hs' _) fun {t} _ => ?_
      have hstages : s.stages (tuples :: shapes) =
          s :: ((Call.resizeTuples tuples).after s).stages shapes := List.scanl_cons
      rw [← ite_and]
      refine if_congr ?_ rfl rfl
      rw [hstages, List.forall_mem_cons, and_comm]

/-- The same of a store of lists. -/
structure Viewed (s : ListStore α) : Prop where
  shown : ∃ f, s.Shows f
  modified : ∀ {f t}, s.Shows f → t < s.tupleCount → ∀ g, ∃ s', s.modifyList t g = .ok s' ∧
    s'.tupleShape = s.tupleShape ∧ s'.Shows fun t' => if t' = t then g (f t') else f t'
  set : ∀ {f t}, s.Shows f → t < s.tupleCount → ∀ values, ∃ s', s.setList t values = .ok s' ∧
    s'.tupleShape = s.tupleShape ∧ s'.Shows fun t' => if t' = t then values else f t'
  pushed : ∀ {f t}, s.Shows f → t < s.tupleCount → ∀ value, ∃ s', s.push t value = .ok s' ∧
    s'.tupleShape = s.tupleShape ∧ s'.Shows fun t' => if t' = t then f t' ++ [value] else f t'
  resized : ∀ {tuples : Shape}, tuples.size?.isSome →
    ∃ s', s.resizeTuples tuples = .ok s' ∧ s.Resized tuples s'
  lasting : ∀ shapes, ∀ t < (s.resizes shapes).tupleCount, (s.resizes shapes).list t =
    if ∀ u ∈ s.stages shapes, t < u.tupleCount then s.list t else .ok []

theorem Sound.viewed (hs : s.Sound) (halloc : s.isAllocated) : s.Viewed := by
  obtain ⟨f, hf⟩ := hs.exists_shows halloc
  refine ⟨⟨f, hf⟩, fun h ht => h.modifyList hs ht, fun h ht _ => h.modifyList hs ht _,
    fun h ht _ => h.modifyList hs ht _, ?_, ?_⟩
  · intro tuples hcount
    obtain ⟨n, hn⟩ := Option.isSome_iff_exists.mp hcount
    have heq : s.resizeTuples tuples = .ok _ := resizeTuples_eq_ok.mpr ⟨n, hn, rfl⟩
    exact ⟨_, heq, hs.resized heq⟩
  · intro shapes t ht
    exact hf.list_eq (hf.resizes hs shapes) ht fun hall => hall s (mem_stages shapes)

end ListStore

/-- At any time in the life of a store that has elements all views of it agree. -/
theorem stores_views_agree {α : Type} (zero : α) :
    (∀ s : DenseStore α, s.Built → ∀ calls, (s.run zero calls).isAllocated →
      (s.run zero calls).Viewed zero) ∧
    ∀ s : ListStore α, s.Built → ∀ calls, (s.run calls).isAllocated → (s.run calls).Viewed := by
  refine ⟨fun s hs calls halloc => ?_, fun s hs calls halloc => ?_⟩
  · exact (DenseStore.sound_run hs.sound calls).viewed halloc
  · exact (ListStore.sound_run hs.sound calls).viewed halloc

theorem stores_views_agree_couple : ∃ (s : DenseStore Nat) (l : ListStore Nat),
    (DenseStore.ofArray [2] [2] #[1, 2, 3, 4] = .ok s ∧
      (s.run 0 [.resizeTuples [1], .resizeTuples [3]]).Viewed 0) ∧
    ListStore.new [2] = .ok l ∧ (l.run [.push 1 5, .resizeTuples [3]]).Viewed := by
  have hs : DenseStore.ofArray [2] [2] #[1, 2, 3, 4] = .ok ⟨[2], [2], some #[1, 2, 3, 4]⟩ := rfl
  have hl : ListStore.new [2] = .ok (⟨[2], some #[[], []]⟩ : ListStore Nat) := rfl
  exact ⟨_, _, ⟨hs, (stores_views_agree 0).1 _ (.ofArray hs) _ rfl⟩, hl,
    (stores_views_agree 0).2 _ (.new hl) _ rfl⟩

end FilterTree
