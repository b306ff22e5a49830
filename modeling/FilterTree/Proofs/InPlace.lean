import FilterTree.Proofs.Places
import FilterTree.Store.Machine

/-!
# What a machine does with a store

Each operation that a machine carries out on a store has an equation here, which says how it ends:
as the function of its name says, with the store still the one it started from where it is refused.
There is one way in which it can end otherwise. An operation that asks for memory stops if it asks
for more than a row can have, and then memory is left as it was at that point. Resizing has
replaced the tuple shape by then.

What makes the equations true of a sound store is that its size is a word (`Sound.size_lt`). A tuple
that is in range ends where the next one starts, which is at most the size of the row. So neither
the arithmetic nor a slice ever stops a machine.
-/

namespace FilterTree

namespace InPlace

variable {σ β : Type}

/-- How reading ends: with the answer, and everything as it was. -/
def answered (s : σ) : Except StoreError β → EStateM.Result Fault σ β
  | .ok b => .ok b s
  | .error e => .error (.refused e) s

/-- How writing ends: with the new store, or with the old one where it was refused. -/
def stored (s : σ) : Except StoreError σ → EStateM.Result Fault σ Unit
  | .ok s' => .ok () s'
  | .error e => .error (.refused e) s

/-- How an operation ends that asks for bytes: as it would, or with what is left where it stops. -/
def within (bytes : Nat) (left : σ) (ending : EStateM.Result Fault σ β) :
    EStateM.Result Fault σ β :=
  if bytes ≤ byteLimit then ending else .error .stop left

theorem within_zero {left : σ} {ending : EStateM.Result Fault σ β} :
    within 0 left ending = ending := if_pos (Nat.zero_le _)

theorem reserve_bind {width count : Nat} {k : Unit → InPlace σ β} {s : σ} :
    (reserve width count >>= k) s = within (count * width) s (k () s) := by
  rw [reserve, within]
  split <;> rfl

theorem check_run (r : Except StoreError β) (s : σ) : check r s = answered s r := by
  cases r <;> rfl

theorem mul_run {a b : Nat} (h : a * b < sizeLimit) (s : σ) : mul a b s = .ok (a * b) s := by
  rw [mul, if_pos h]
  rfl

theorem add_run {a b : Nat} (h : a + b < sizeLimit) (s : σ) : add a b s = .ok (a + b) s := by
  rw [add, if_pos h]
  rfl

theorem store_run (k : σ → InPlace σ β) (s : σ) : (getThe σ >>= k) s = k s s := rfl

theorem bind_run {γ : Type} {x : InPlace σ β} {s s' : σ} {b : β} (h : x s = .ok b s')
    (k : β → InPlace σ γ) : (x >>= k) s = k b s' := by
  show EStateM.bind x k s = _
  rw [EStateM.bind, h]

theorem bind_refused {γ : Type} {x : InPlace σ β} {s s' : σ} {e : StoreError}
    (h : x s = .error (.refused e) s') (k : β → InPlace σ γ) :
    (x >>= k) s = .error (.refused e) s' := by
  show EStateM.bind x k s = _
  rw [EStateM.bind, h]

/-- Reading first and then reading on is reading. -/
theorem answered_bind {γ : Type} {x : InPlace σ β} {r : Except StoreError β}
    {k : β → InPlace σ γ} {k' : β → Except StoreError γ} {s : σ} (hx : x s = answered s r)
    (hk : ∀ b, r = .ok b → k b s = answered s (k' b)) : (x >>= k) s = answered s (r >>= k') := by
  cases r with
  | ok b => exact (bind_run hx k).trans (hk b rfl)
  | error e => exact bind_refused hx k

/-- Reading first and then writing is writing. -/
theorem stored_bind {x : InPlace σ β} {r : Except StoreError β} {k : β → InPlace σ Unit}
    {k' : β → Except StoreError σ} {s : σ} (hx : x s = answered s r)
    (hk : ∀ b, r = .ok b → k b s = stored s (k' b)) : (x >>= k) s = stored s (r >>= k') := by
  cases r with
  | ok b => exact (bind_run hx k).trans (hk b rfl)
  | error e => exact bind_refused hx k

end InPlace

namespace DenseStore

open InPlace

variable {α : Type}

/-! ## Dense stores -/

variable {s : DenseStore α}

theorem row_run : Machine.row s = answered s s.row := by
  rw [DenseStore.row, Machine.row, store_run]
  cases s.row? <;> rfl

theorem get_run {i : Nat} : Machine.get i s = answered s (s.get i) :=
  answered_bind row_run fun row _ => by cases row[i]? <;> rfl

theorem set_run {i : Nat} {value : α} : Machine.set i value s = stored s (s.set i value) :=
  stored_bind row_run fun row _ => by
    show (if i < row.size then _ else _ : InPlace (DenseStore α) Unit) s =
      stored s (if i < row.size then _ else _)
    split <;> rfl

theorem editRow_run {f : Nat → α → α} : Machine.editRow f s = stored s (s.editRow f) :=
  stored_bind row_run fun _ _ => rfl

theorem fill_run {value : α} : Machine.fill value s = stored s (s.fill value) :=
  stored_bind row_run fun _ _ => rfl

/-- The bytes that have to be there for resizing: those of a row that grows. -/
def resizingBytes (width : Nat) (tuples : Shape) (s : DenseStore α) : Nat :=
  match s.row?, Shape.elementCount? tuples s.componentShape with
  | some row, some n => if row.size < n then n * width else 0
  | _, _ => 0

theorem resizeTuples_run {width : Nat} {tuples : Shape} {zero : α} :
    Machine.resizeTuples width tuples zero s = within (s.resizingBytes width tuples)
      { s with tupleShape := tuples } (stored s (s.resizeTuples tuples zero)) := by
  obtain ⟨shape, components, row?⟩ := s
  rw [Machine.resizeTuples, store_run, DenseStore.resizeTuples, resizingBytes, Shape.elementCount]
  dsimp only
  cases Shape.elementCount? tuples components with
  | none => cases row? <;> exact within_zero.symm
  | some n =>
      cases row? with
      | none => exact within_zero.symm
      | some row =>
          refine (bind_run (check_run (.ok n) _) _).trans ((bind_run rfl _).trans ?_)
          dsimp only
          split
          · exact reserve_bind
          · exact within_zero.symm

theorem Sound.size_run (h : s.Sound) : Machine.size s = answered s (.ok s.size) :=
  mul_run h.size_lt s

/-- The place of an element is found without leaving the words. -/
theorem Sound.place_run (h : s.Sound) {tuple component : Nat} :
    Machine.place tuple component s = answered s (s.place tuple component) := by
  rw [DenseStore.place, Machine.place, store_run]
  split
  · rfl
  · next htuple =>
      split
      · rfl
      · next hcomponent =>
          have hlt := place_lt (Nat.lt_of_not_le htuple) (Nat.lt_of_not_le hcomponent)
          have hsize : s.tupleCount * s.componentCount < sizeLimit := h.size_lt
          rw [bind_run (mul_run (by omega) s)]
          exact add_run (by omega) s

/-- Where a tuple starts and where it stops, if it is one. -/
def ends (s : DenseStore α) (tuple : Nat) : Except StoreError (Nat × Nat) :=
  (s.checkTuple tuple).map fun _ => (tuple * s.componentCount, (tuple + 1) * s.componentCount)

theorem ends_eq_ok {tuple start stop : Nat} :
    s.ends tuple = .ok (start, stop) ↔ tuple < s.tupleCount ∧
      tuple * s.componentCount = start ∧ (tuple + 1) * s.componentCount = stop := by
  rw [ends, checkTuple]
  split
  · next h => simp [Except.map, h]
  · next h => simp [Except.map, h]

theorem Sound.range_run (h : s.Sound) {tuple : Nat} :
    Machine.range tuple s = answered s (s.ends tuple) := by
  rw [Machine.range, ends, checkTuple, store_run]
  split
  · next hge =>
      rw [if_neg (Nat.not_lt.mpr hge)]
      rfl
  · next hlt =>
      have hnext : (tuple + 1) * s.componentCount ≤ s.size :=
        Nat.mul_le_mul_right _ (Nat.lt_of_not_le hlt)
      have hbefore : tuple * s.componentCount ≤ (tuple + 1) * s.componentCount :=
        Nat.mul_le_mul_right _ (Nat.le_succ tuple)
      have hsize := h.size_lt
      -- the number of the next tuple is a word even where tuples have no components
      have hcount : s.tupleCount < sizeLimit := Shape.size_lt h.tuples
      rw [if_pos (Nat.lt_of_not_le hlt), bind_run (mul_run (by omega) s),
        bind_run (add_run (by omega) s), bind_run (mul_run (by omega) s)]
      rfl

/-- A tuple is a part of the row. -/
theorem Sound.slice_run (h : s.Sound) {row : Array α} {tuple start stop : Nat}
    (hrow : s.row = .ok row) (hends : s.ends tuple = .ok (start, stop)) :
    Machine.slice row start stop s = .ok (row.extract start stop) s := by
  obtain ⟨htuple, rfl, rfl⟩ := ends_eq_ok.mp hends
  have hstop : (tuple + 1) * s.componentCount ≤ row.size :=
    h.full (row_eq_ok.mp hrow) ▸ Nat.mul_le_mul_right _ htuple
  rw [Machine.slice, if_pos ⟨Nat.mul_le_mul_right _ (Nat.le_succ tuple), hstop⟩]
  rfl

theorem Sound.getComponent_run (h : s.Sound) {tuple component : Nat} :
    Machine.getComponent tuple component s = answered s (s.getComponent tuple component) :=
  answered_bind h.place_run fun _ _ => get_run

theorem Sound.setComponent_run (h : s.Sound) {tuple component : Nat} {value : α} :
    Machine.setComponent tuple component value s =
      stored s (s.setComponent tuple component value) :=
  stored_bind h.place_run fun _ _ => set_run

theorem Sound.tuple_run (h : s.Sound) {tuple : Nat} :
    Machine.tuple tuple s = answered s (s.tuple tuple) := by
  have heq : s.tuple tuple = s.ends tuple >>= fun ends => do
      return (← s.row).extract ends.1 ends.2 := by
    rw [DenseStore.tuple, ends]
    cases s.checkTuple tuple <;> rfl
  rw [heq]
  exact answered_bind h.range_run fun _ hends => answered_bind row_run fun _ hrow =>
    h.slice_run hrow hends

theorem Sound.editTuple_run (h : s.Sound) {tuple : Nat} {f : Nat → α → α} :
    Machine.editTuple tuple f s = stored s (s.editTuple tuple f) := by
  have heq : s.editTuple tuple f = s.ends tuple >>= fun ends => do
      let row ← s.row
      return { s with row? := some (row.mapIdx fun i a =>
        if ends.1 ≤ i ∧ i < ends.2 then f (i - ends.1) a else a) } := by
    rw [DenseStore.editTuple, ends]
    cases s.checkTuple tuple <;> rfl
  rw [heq]
  exact stored_bind h.range_run fun _ hends => stored_bind row_run fun _ hrow =>
    bind_run (h.slice_run hrow hends) _

/-- The bytes of the row of a store that has none yet. -/
def allocationBytes (width : Nat) (s : DenseStore α) : Nat :=
  if s.isAllocated then 0 else s.size * width

theorem Sound.allocate_run (h : s.Sound) {width : Nat} {zero : α} :
    Machine.allocate width zero s =
      within (s.allocationBytes width) s (stored s (.ok (s.allocate zero))) := by
  rw [Machine.allocate, store_run, DenseStore.allocate, allocationBytes]
  split
  · exact within_zero.symm
  · exact (bind_run h.size_run _).trans reserve_bind

theorem filled_run {σ : Type} {width : Nat} {tuples components : Shape} {value : α} {u : σ} :
    Machine.filled width tuples components value u =
      within ((Shape.elementCount? tuples components).getD 0 * width) u
        (answered u (filled tuples components value)) := by
  rw [Machine.filled, filled, Shape.elementCount]
  cases Shape.elementCount? tuples components with
  | none => exact (Nat.zero_mul width).symm ▸ within_zero.symm
  | some n => exact (bind_run (check_run (.ok n) u) _).trans reserve_bind

end DenseStore

namespace ListStore

open InPlace

variable {α : Type}

/-! ## List stores -/

variable {s : ListStore α}

theorem lists_run : Machine.lists s = answered s s.lists := by
  rw [ListStore.lists, Machine.lists, store_run]
  cases s.lists? <;> rfl

theorem list_run {tuple : Nat} : Machine.list tuple s = answered s (s.list tuple) :=
  answered_bind lists_run fun lists _ => by cases lists[tuple]? <;> rfl

theorem modifyList_run {tuple : Nat} {f : List α → List α} :
    Machine.modifyList tuple f s = stored s (s.modifyList tuple f) :=
  stored_bind lists_run fun lists _ => by
    show (if tuple < lists.size then _ else _ : InPlace (ListStore α) Unit) s =
      stored s (if tuple < lists.size then _ else _)
    split <;> rfl

theorem editLists_run {f : Nat → List α → List α} :
    Machine.editLists f s = stored s (s.editLists f) :=
  stored_bind lists_run fun _ _ => rfl

theorem setLists_run {lists : Array (List α)} :
    Machine.setLists lists s = stored s (s.setLists lists) := by
  rw [Machine.setLists, ListStore.setLists, store_run]
  split <;> rfl

/-- The bytes of the lists of a store that has none yet. -/
def allocationBytes (s : ListStore α) : Nat :=
  if s.isAllocated then 0 else s.tupleCount * listWidth

theorem allocate_run :
    Machine.allocate s = within s.allocationBytes s (stored s (.ok s.allocate)) := by
  rw [Machine.allocate, ListStore.allocate, store_run, allocationBytes]
  split
  · exact within_zero.symm
  · exact reserve_bind

/-- The bytes that have to be there for resizing: those of the lists if they become more. -/
def resizingBytes (tuples : Shape) (s : ListStore α) : Nat :=
  match s.lists?, tuples.size? with
  | some lists, some n => if lists.size < n then n * listWidth else 0
  | _, _ => 0

theorem resizeTuples_run {tuples : Shape} :
    Machine.resizeTuples tuples s = within (s.resizingBytes tuples)
      { s with tupleShape := tuples } (stored s (s.resizeTuples tuples)) := by
  obtain ⟨shape, lists?⟩ := s
  rw [Machine.resizeTuples, store_run, ListStore.resizeTuples, resizingBytes, listCount,
    Shape.elementCount, Shape.elementCount?_one]
  dsimp only
  cases tuples.size? with
  | none => cases lists? <;> exact within_zero.symm
  | some n =>
      cases lists? with
      | none => exact within_zero.symm
      | some lists =>
          refine (bind_run (check_run (.ok n) _) _).trans ((bind_run rfl _).trans ?_)
          dsimp only
          split
          · exact reserve_bind
          · exact within_zero.symm

/-- The bytes of a list that has become longer by a value. -/
def pushBytes (width tuple : Nat) (s : ListStore α) : Nat :=
  match s.list tuple with
  | .ok l => (l.length + 1) * width
  | .error _ => 0

/-- A list that cannot be read cannot be made longer either, for the same reason. -/
theorem push_eq_error {tuple : Nat} {value : α} {e : StoreError} (h : s.list tuple = .error e) :
    s.push tuple value = .error e := by
  rw [ListStore.list] at h
  rw [ListStore.push, ListStore.modifyList]
  cases hlists : s.lists with
  | error e' =>
      rw [hlists] at h
      cases h
      rfl
  | ok lists =>
      rw [hlists] at h
      by_cases hlt : tuple < lists.size
      · simp [bind, Except.bind, pure, Except.pure, Array.getElem?_eq_getElem hlt] at h
      · simp only [bind, Except.bind, Array.getElem?_eq_none (Nat.le_of_not_lt hlt)] at h
        cases h
        exact if_neg hlt

theorem push_run {width tuple : Nat} {value : α} :
    Machine.push width tuple value s =
      within (s.pushBytes width tuple) s (stored s (s.push tuple value)) := by
  rw [Machine.push, pushBytes]
  cases hl : s.list tuple with
  | error e =>
      rw [push_eq_error hl]
      have hlist : Machine.list tuple s = .error (.refused e) s := by
        rw [list_run, hl]
        rfl
      exact (bind_refused hlist _).trans within_zero.symm
  | ok l =>
      have hlist : Machine.list tuple s = .ok l s := by
        rw [list_run, hl]
        rfl
      refine (bind_run hlist _).trans (reserve_bind.trans ?_)
      rw [modifyList_run]
      rfl

theorem new_run {σ : Type} {tuples : Shape} {u : σ} :
    Machine.new tuples u = within (tuples.size?.getD 0 * listWidth) u
      (answered u (new tuples : Except StoreError (ListStore α))) := by
  rw [Machine.new, new, listCount, Shape.elementCount, Shape.elementCount?_one]
  cases tuples.size? with
  | none => exact (Nat.zero_mul listWidth).symm ▸ within_zero.symm
  | some n => exact (bind_run (check_run (.ok n) u) _).trans reserve_bind

end ListStore

end FilterTree
