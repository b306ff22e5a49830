import FilterTree.ElementType
import FilterTree.Proofs.InPlace

/-!
# Stores over their lives

A store is built once and then worked on: elements are written, a row is allocated, tuples come and
go, and some of what is asked for is refused. `play` is such a life as a machine has it, one
operation after the other in the same memory, and `run` is the same life as a function. The two
agree as long as the machine can give what it is asked for (`Roomy`). A row with more bytes than
there can be ends the life.

What can be relied on at any time of it follows from soundness alone, so it takes one step to see
that soundness stays (`Call.sound`) and one induction to have it over lives of any length
(`sound_run`, `play_eq_some`). `Safe` says what that is: the numbers are words, an operation stops
the machine only where it asks for too many bytes and leaves no trace where it is refused, and only
what is out of range is refused.
-/

namespace FilterTree

open InPlace

namespace DenseStore

variable {α : Type} {zero : α} {s s' : DenseStore α}

/-! ## Lives of dense stores -/

/-- An operation that changes a store. -/
inductive Call (α : Type) where
  | allocate
  | set (index : Nat) (value : α)
  | setComponent (tuple component : Nat) (value : α)
  | editTuple (tuple : Nat) (f : Nat → α → α)
  | editRow (f : Nat → α → α)
  | fill (value : α)
  | resizeTuples (tuples : Shape)

namespace Call

def on (zero : α) (s : DenseStore α) : Call α → Except StoreError (DenseStore α)
  | allocate => .ok (s.allocate zero)
  | set index value => s.set index value
  | setComponent tuple component value => s.setComponent tuple component value
  | editTuple tuple f => s.editTuple tuple f
  | editRow f => s.editRow f
  | fill value => s.fill value
  | resizeTuples tuples => s.resizeTuples tuples zero

/-- The operation as a machine carries it out that needs `width` bytes for an element. -/
def inPlace (width : Nat) (zero : α) : Call α → InPlace (DenseStore α) Unit
  | allocate => Machine.allocate width zero
  | set index value => Machine.set index value
  | setComponent tuple component value => Machine.setComponent tuple component value
  | editTuple tuple f => Machine.editTuple tuple f
  | editRow f => Machine.editRow f
  | fill value => Machine.fill value
  | resizeTuples tuples => Machine.resizeTuples width tuples zero

/-- The bytes that an operation asks for. -/
def bytes (width : Nat) (s : DenseStore α) : Call α → Nat
  | allocate => s.allocationBytes width
  | resizeTuples tuples => s.resizingBytes width tuples
  | _ => 0

/-- What is left in memory if these bytes cannot be had. -/
def left (s : DenseStore α) : Call α → DenseStore α
  | resizeTuples tuples => { s with tupleShape := tuples }
  | _ => s

/-- What an operation asks of a store. -/
def Allowed (s : DenseStore α) : Call α → Prop
  | allocate => True
  | set index _ => s.isAllocated ∧ index < s.size
  | setComponent tuple component _ =>
    s.isAllocated ∧ tuple < s.tupleCount ∧ component < s.componentCount
  | editTuple tuple _ => s.isAllocated ∧ tuple < s.tupleCount
  | editRow _ => s.isAllocated
  | fill _ => s.isAllocated
  | resizeTuples tuples => (Shape.elementCount? tuples s.componentShape).isSome

/-- The store after an operation, which is the old one where it is refused. -/
def after (zero : α) (s : DenseStore α) (call : Call α) : DenseStore α :=
  match call.on zero s with
  | .ok s' => s'
  | .error _ => s

theorem inPlace_run (hs : s.Sound) (width : Nat) (call : Call α) :
    call.inPlace width zero s =
      within (call.bytes width s) (call.left s) (stored s (call.on zero s)) := by
  cases call with
  | allocate => exact hs.allocate_run
  | set => exact set_run.trans within_zero.symm
  | setComponent => exact hs.setComponent_run.trans within_zero.symm
  | editTuple => exact hs.editTuple_run.trans within_zero.symm
  | editRow => exact editRow_run.trans within_zero.symm
  | fill => exact fill_run.trans within_zero.symm
  | resizeTuples => exact resizeTuples_run

end Call

theorem Sound.editTuple (hs : s.Sound) {tuple : Nat} {f : Nat → α → α}
    (h : s.editTuple tuple f = .ok s') : s.Rewritten s' := by
  obtain ⟨_, -, h⟩ := check_bind_eq_ok.mp h
  obtain ⟨row, hrow, h⟩ := row_bind_eq_ok.mp h
  cases h
  exact ⟨_, by rw [Array.size_mapIdx, hs.full hrow], rfl⟩

theorem Sound.editRow (hs : s.Sound) {f : Nat → α → α} (h : s.editRow f = .ok s') :
    s.Rewritten s' := by
  obtain ⟨row, hrow, h⟩ := row_bind_eq_ok.mp h
  cases h
  exact ⟨_, by rw [Array.size_mapIdx, hs.full hrow], rfl⟩

/-- One step: whatever is done to a sound store, it stays sound. -/
theorem Call.sound (hs : s.Sound) {call : Call α} (h : call.on zero s = .ok s') : s'.Sound := by
  cases call with
  | allocate =>
      cases h
      exact hs.allocate.sound hs
  | set => exact (hs.set h).sound hs
  | setComponent => exact (hs.setComponent h).sound hs
  | editTuple => exact (hs.editTuple h).sound hs
  | editRow => exact (hs.editRow h).sound hs
  | fill => exact (hs.fill h).sound hs
  | resizeTuples => exact Sound.resizeTuples h

theorem Call.after_sound (hs : s.Sound) (call : Call α) : (call.after zero s).Sound := by
  rw [after]
  split
  · next h => exact sound hs h
  · exact hs

def run (zero : α) (s : DenseStore α) (calls : List (Call α)) : DenseStore α :=
  calls.foldl (Call.after zero) s

/-- A life in memory. It goes on after what is refused, with whatever has been written by then. -/
def play (width : Nat) (zero : α) : List (Call α) → DenseStore α → Option (DenseStore α)
  | [], s => some s
  | call :: calls, s =>
    match call.inPlace width zero s with
    | .ok _ s' => play width zero calls s'
    | .error (.refused _) s' => play width zero calls s'
    | .error .stop _ => none

/-- Each operation asks for bytes that can be had when its turn comes. -/
def Roomy (width : Nat) (zero : α) : DenseStore α → List (Call α) → Prop
  | _, [] => True
  | s, call :: calls => call.bytes width s ≤ byteLimit ∧ Roomy width zero (call.after zero s) calls

instance decidableRoomy {width : Nat} {zero : α} : ∀ (s : DenseStore α) (calls : List (Call α)),
    Decidable (Roomy width zero s calls)
  | _, [] => inferInstanceAs (Decidable True)
  | s, call :: calls =>
    have := @decidableRoomy width zero (call.after zero s) calls
    inferInstanceAs (Decidable (_ ∧ _))

theorem sound_run (hs : s.Sound) (calls : List (Call α)) : (run zero s calls).Sound := by
  induction calls generalizing s with
  | nil => exact hs
  | cons call calls ih => exact ih (Call.after_sound hs call)

/-- A life goes on to its end exactly if there is room, and the store is what the function says. -/
theorem play_eq_some (hs : s.Sound) {width : Nat} {calls : List (Call α)} :
    play width zero calls s = some s' ↔ s.Roomy width zero calls ∧ s.run zero calls = s' := by
  induction calls generalizing s with
  | nil => simp [play, Roomy, run]
  | cons call calls ih =>
      rw [play, Roomy, run, List.foldl_cons, ← run, and_assoc, ← ih (Call.after_sound hs call),
        Call.inPlace_run hs, within]
      by_cases hroom : call.bytes width s ≤ byteLimit
      · -- after a refusal memory holds the old store, which is where `run` goes on as well
        rw [if_pos hroom, and_iff_right hroom, Call.after]
        cases call.on zero s <;> exact Iff.rfl
      · rw [if_neg hroom]
        exact iff_of_false (Option.some_ne_none s').symm fun h => hroom h.1

/-! ## What is in range -/

theorem row_isOk : s.row.isOk ↔ s.isAllocated := by
  rw [row, isAllocated]
  cases s.row? <;> exact Iff.rfl

theorem row_bind_isOk {β : Type} {k : Array α → Except StoreError β} {P : Prop}
    (hk : ∀ row, s.row? = some row → ((k row).isOk ↔ P)) :
    (s.row >>= k).isOk ↔ s.isAllocated ∧ P := by
  rw [row, isAllocated]
  cases hrow : s.row? with
  | none => exact iff_of_false Bool.false_ne_true fun h => Bool.false_ne_true h.1
  | some row => exact (hk row hrow).trans (by simp)

theorem row_then_isOk {β : Type} {k : Array α → Except StoreError β} (hk : ∀ row, (k row).isOk) :
    (s.row >>= k).isOk ↔ s.isAllocated :=
  (row_bind_isOk fun row _ => iff_of_true (hk row) trivial).trans (and_iff_left trivial)

theorem place_bind_isOk {β : Type} {t c : Nat} {k : Nat → Except StoreError β} {P : Prop}
    (hk : ∀ i, i < s.size → ((k i).isOk ↔ P)) :
    (s.place t c >>= k).isOk ↔ P ∧ t < s.tupleCount ∧ c < s.componentCount := by
  rw [check_bind_isOk]
  constructor
  · rintro ⟨i, hi, h⟩
    obtain ⟨ht, hc, rfl⟩ := place_eq_ok.mp hi
    exact ⟨(hk _ (place_lt ht hc)).mp h, ht, hc⟩
  · rintro ⟨hP, ht, hc⟩
    exact ⟨_, place_eq_ok.mpr ⟨ht, hc, rfl⟩, (hk _ (place_lt ht hc)).mpr hP⟩

theorem Sound.get_isOk (hs : s.Sound) {i : Nat} :
    (s.get i).isOk ↔ s.isAllocated ∧ i < s.size :=
  row_bind_isOk fun row hrow => by
    rw [← hs.full hrow]
    by_cases hi : i < row.size
    · rw [Array.getElem?_eq_getElem hi]
      exact iff_of_true rfl hi
    · rw [Array.getElem?_eq_none (Nat.le_of_not_lt hi)]
      exact iff_of_false Bool.false_ne_true hi

theorem Sound.set_isOk (hs : s.Sound) {i : Nat} {value : α} :
    (s.set i value).isOk ↔ s.isAllocated ∧ i < s.size :=
  row_bind_isOk fun row hrow => by
    rw [← hs.full hrow]
    split
    · next hi => exact iff_of_true rfl hi
    · next hi => exact iff_of_false Bool.false_ne_true hi

theorem Sound.getComponent_isOk (hs : s.Sound) {t c : Nat} :
    (s.getComponent t c).isOk ↔ s.isAllocated ∧ t < s.tupleCount ∧ c < s.componentCount :=
  place_bind_isOk fun _ hi => hs.get_isOk.trans (and_iff_left hi)

theorem Sound.setComponent_isOk (hs : s.Sound) {t c : Nat} {value : α} :
    (s.setComponent t c value).isOk ↔
      s.isAllocated ∧ t < s.tupleCount ∧ c < s.componentCount :=
  place_bind_isOk fun _ hi => hs.set_isOk.trans (and_iff_left hi)

theorem checkTuple_bind_isOk {β : Type} {t : Nat} {k : Unit → Except StoreError β} :
    (s.checkTuple t >>= k).isOk ↔ (k ()).isOk ∧ t < s.tupleCount := by
  rw [checkTuple]
  split
  · next ht => exact (and_iff_left ht).symm
  · next ht => exact iff_of_false Bool.false_ne_true fun h => ht h.2

theorem tuple_isOk {t : Nat} : (s.tuple t).isOk ↔ s.isAllocated ∧ t < s.tupleCount :=
  checkTuple_bind_isOk.trans (and_congr_left' (row_then_isOk fun _ => rfl))

theorem editTuple_isOk {t : Nat} {f : Nat → α → α} :
    (s.editTuple t f).isOk ↔ s.isAllocated ∧ t < s.tupleCount :=
  checkTuple_bind_isOk.trans (and_congr_left' (row_then_isOk fun _ => rfl))

theorem resizeTuples_isOk {tuples : Shape} :
    (s.resizeTuples tuples zero).isOk ↔
      (Shape.elementCount? tuples s.componentShape).isSome := by
  rw [DenseStore.resizeTuples, Shape.elementCount]
  cases Shape.elementCount? tuples s.componentShape <;> exact Iff.rfl

/-- An operation is carried out exactly if the store has what it asks for. -/
theorem Call.on_isOk (hs : s.Sound) {call : Call α} :
    (call.on zero s).isOk ↔ call.Allowed s := by
  cases call with
  | allocate => exact iff_of_true rfl trivial
  | set => exact hs.set_isOk
  | setComponent => exact hs.setComponent_isOk
  | editTuple => exact editTuple_isOk
  | editRow => exact row_then_isOk fun _ => rfl
  | fill => exact row_then_isOk fun _ => rfl
  | resizeTuples => exact resizeTuples_isOk

/-- What can be relied on in a store at any time. -/
structure Safe (width : Nat) (zero : α) (s : DenseStore α) : Prop where
  tuples : s.tupleCount = s.tupleShape.volume ∧ s.tupleShape.volume < sizeLimit
  components : s.componentCount = s.componentShape.volume ∧ s.componentShape.volume < sizeLimit
  elements : s.size = s.tupleShape.volume * s.componentShape.volume ∧ s.size < sizeLimit
  full : ∀ {row}, s.row = .ok row → row.size = s.tupleCount * s.componentCount
  size_inPlace : Machine.size s = .ok s.size s
  place_inPlace : ∀ t c, Machine.place t c s = answered s (s.place t c)
  row_inPlace : Machine.row s = answered s s.row
  get_inPlace : ∀ i, Machine.get i s = answered s (s.get i)
  getComponent_inPlace : ∀ t c, Machine.getComponent t c s = answered s (s.getComponent t c)
  tuple_inPlace : ∀ t, Machine.tuple t s = answered s (s.tuple t)
  call_inPlace : ∀ call : Call α, call.inPlace width zero s =
    within (call.bytes width s) (call.left s) (stored s (call.on zero s))
  row_isOk : s.row.isOk ↔ s.isAllocated
  get_isOk : ∀ i, (s.get i).isOk ↔ s.isAllocated ∧ i < s.size
  getComponent_isOk : ∀ t c,
    (s.getComponent t c).isOk ↔ s.isAllocated ∧ t < s.tupleCount ∧ c < s.componentCount
  tuple_isOk : ∀ t, (s.tuple t).isOk ↔ s.isAllocated ∧ t < s.tupleCount
  call_isOk : ∀ call : Call α, (call.on zero s).isOk ↔ call.Allowed s

theorem Sound.safe (hs : s.Sound) {width : Nat} : s.Safe width zero where
  tuples := by
    have hvolume : s.tupleCount = s.tupleShape.volume := Shape.size_eq_volume hs.tuples
    exact ⟨hvolume, hvolume ▸ Shape.size_lt hs.tuples⟩
  components := by
    have hvolume : s.componentCount = s.componentShape.volume :=
      Shape.size_eq_volume hs.components
    exact ⟨hvolume, hvolume ▸ Shape.size_lt hs.components⟩
  elements := by
    rw [← Shape.size_eq_volume hs.tuples, ← Shape.size_eq_volume hs.components]
    exact ⟨rfl, hs.size_lt⟩
  full hrow := hs.full (row_eq_ok.mp hrow)
  size_inPlace := hs.size_run
  place_inPlace _ _ := hs.place_run
  row_inPlace := row_run
  get_inPlace _ := get_run
  getComponent_inPlace _ _ := hs.getComponent_run
  tuple_inPlace _ := hs.tuple_run
  call_inPlace := Call.inPlace_run hs width
  row_isOk := DenseStore.row_isOk
  get_isOk _ := hs.get_isOk
  getComponent_isOk _ _ := hs.getComponent_isOk
  tuple_isOk _ := DenseStore.tuple_isOk
  call_isOk _ := Call.on_isOk hs

end DenseStore

namespace ListStore

variable {α : Type} {s s' : ListStore α}

/-! ## Lives of list stores

The same of the other kind of store. There is no multiplying here, so a machine can only lack room.
-/

inductive Call (α : Type) where
  | allocate
  | modifyList (tuple : Nat) (f : List α → List α)
  | setList (tuple : Nat) (values : List α)
  | push (tuple : Nat) (value : α)
  | editLists (f : Nat → List α → List α)
  | setLists (lists : Array (List α))
  | resizeTuples (tuples : Shape)

namespace Call

def on (s : ListStore α) : Call α → Except StoreError (ListStore α)
  | allocate => .ok s.allocate
  | modifyList tuple f => s.modifyList tuple f
  | setList tuple values => s.setList tuple values
  | push tuple value => s.push tuple value
  | editLists f => s.editLists f
  | setLists lists => s.setLists lists
  | resizeTuples tuples => s.resizeTuples tuples

def inPlace (width : Nat) : Call α → InPlace (ListStore α) Unit
  | allocate => Machine.allocate
  | modifyList tuple f => Machine.modifyList tuple f
  | setList tuple values => Machine.modifyList tuple fun _ => values
  | push tuple value => Machine.push width tuple value
  | editLists f => Machine.editLists f
  | setLists lists => Machine.setLists lists
  | resizeTuples tuples => Machine.resizeTuples tuples

def bytes (width : Nat) (s : ListStore α) : Call α → Nat
  | allocate => s.allocationBytes
  | push tuple _ => s.pushBytes width tuple
  | resizeTuples tuples => s.resizingBytes tuples
  | _ => 0

def left (s : ListStore α) : Call α → ListStore α
  | resizeTuples tuples => { s with tupleShape := tuples }
  | _ => s

def Allowed (s : ListStore α) : Call α → Prop
  | allocate => True
  | modifyList tuple _ => s.isAllocated ∧ tuple < s.tupleCount
  | setList tuple _ => s.isAllocated ∧ tuple < s.tupleCount
  | push tuple _ => s.isAllocated ∧ tuple < s.tupleCount
  | editLists _ => s.isAllocated
  | setLists lists => lists.size = s.tupleCount
  | resizeTuples tuples => tuples.size?.isSome

def after (s : ListStore α) (call : Call α) : ListStore α :=
  match call.on s with
  | .ok s' => s'
  | .error _ => s

theorem inPlace_run (width : Nat) (call : Call α) :
    call.inPlace width s = within (call.bytes width s) (call.left s) (stored s (call.on s)) := by
  cases call with
  | allocate => exact allocate_run
  | modifyList => exact modifyList_run.trans within_zero.symm
  | setList => exact modifyList_run.trans within_zero.symm
  | push => exact push_run
  | editLists => exact editLists_run.trans within_zero.symm
  | setLists => exact setLists_run.trans within_zero.symm
  | resizeTuples => exact resizeTuples_run

end Call

theorem Sound.editLists (hs : s.Sound) {f : Nat → List α → List α}
    (h : s.editLists f = .ok s') : s.Rewritten s' := by
  obtain ⟨lists, hlists, h⟩ := lists_bind_eq_ok.mp h
  cases h
  exact ⟨_, by rw [Array.size_mapIdx, hs.full hlists], rfl⟩

theorem Call.sound (hs : s.Sound) {call : Call α} (h : call.on s = .ok s') : s'.Sound := by
  cases call with
  | allocate =>
      cases h
      exact hs.allocate.sound hs
  | modifyList => exact (hs.modifyList h).sound hs
  | setList => exact (hs.modifyList h).sound hs
  | push => exact (hs.modifyList h).sound hs
  | editLists => exact (hs.editLists h).sound hs
  | setLists => exact (Rewritten.ofSetLists h).sound hs
  | resizeTuples => exact Sound.resizeTuples h

theorem Call.after_sound (hs : s.Sound) (call : Call α) : (call.after s).Sound := by
  rw [after]
  split
  · next h => exact sound hs h
  · exact hs

def run (s : ListStore α) (calls : List (Call α)) : ListStore α := calls.foldl Call.after s

def play (width : Nat) : List (Call α) → ListStore α → Option (ListStore α)
  | [], s => some s
  | call :: calls, s =>
    match call.inPlace width s with
    | .ok _ s' => play width calls s'
    | .error (.refused _) s' => play width calls s'
    | .error .stop _ => none

def Roomy (width : Nat) : ListStore α → List (Call α) → Prop
  | _, [] => True
  | s, call :: calls => call.bytes width s ≤ byteLimit ∧ Roomy width (call.after s) calls

instance decidableRoomy {width : Nat} : ∀ (s : ListStore α) (calls : List (Call α)),
    Decidable (Roomy width s calls)
  | _, [] => inferInstanceAs (Decidable True)
  | s, call :: calls =>
    have := @decidableRoomy width (call.after s) calls
    inferInstanceAs (Decidable (_ ∧ _))

theorem sound_run (hs : s.Sound) (calls : List (Call α)) : (run s calls).Sound := by
  induction calls generalizing s with
  | nil => exact hs
  | cons call calls ih => exact ih (Call.after_sound hs call)

theorem play_eq_some {width : Nat} {calls : List (Call α)} :
    play width calls s = some s' ↔ s.Roomy width calls ∧ s.run calls = s' := by
  induction calls generalizing s with
  | nil => simp [play, Roomy, run]
  | cons call calls ih =>
      rw [play, Roomy, run, List.foldl_cons, ← run, and_assoc, ← ih, Call.inPlace_run, within]
      by_cases hroom : call.bytes width s ≤ byteLimit
      · rw [if_pos hroom, and_iff_right hroom, Call.after]
        cases call.on s <;> exact Iff.rfl
      · rw [if_neg hroom]
        exact iff_of_false (Option.some_ne_none s').symm fun h => hroom h.1

theorem lists_isOk : s.lists.isOk ↔ s.isAllocated := by
  rw [lists, isAllocated]
  cases s.lists? <;> exact Iff.rfl

theorem Sound.lists_bind_isOk {β : Type} (hs : s.Sound) {k : Array (List α) → Except StoreError β}
    {P : Prop} (hk : ∀ lists, lists.size = s.tupleCount → ((k lists).isOk ↔ P)) :
    (s.lists >>= k).isOk ↔ s.isAllocated ∧ P := by
  rw [lists, isAllocated]
  cases hlists : s.lists? with
  | none => exact iff_of_false Bool.false_ne_true fun h => Bool.false_ne_true h.1
  | some lists => exact (hk lists (hs.full hlists)).trans (by simp)

theorem Sound.list_isOk (hs : s.Sound) {t : Nat} :
    (s.list t).isOk ↔ s.isAllocated ∧ t < s.tupleCount :=
  hs.lists_bind_isOk fun lists hsize => by
    rw [← hsize]
    by_cases ht : t < lists.size
    · rw [Array.getElem?_eq_getElem ht]
      exact iff_of_true rfl ht
    · rw [Array.getElem?_eq_none (Nat.le_of_not_lt ht)]
      exact iff_of_false Bool.false_ne_true ht

theorem Sound.modifyList_isOk (hs : s.Sound) {t : Nat} {f : List α → List α} :
    (s.modifyList t f).isOk ↔ s.isAllocated ∧ t < s.tupleCount :=
  hs.lists_bind_isOk fun lists hsize => by
    rw [← hsize]
    split
    · next ht => exact iff_of_true rfl ht
    · next ht => exact iff_of_false Bool.false_ne_true ht

theorem Call.on_isOk (hs : s.Sound) {call : Call α} : (call.on s).isOk ↔ call.Allowed s := by
  cases call with
  | allocate => exact iff_of_true rfl trivial
  | modifyList => exact hs.modifyList_isOk
  | setList => exact hs.modifyList_isOk
  | push => exact hs.modifyList_isOk
  | editLists f =>
      exact (hs.lists_bind_isOk fun _ _ => iff_of_true rfl trivial).trans (and_iff_left trivial)
  | setLists lists =>
      rw [on, ListStore.setLists, Allowed]
      split
      · next h => exact iff_of_true rfl h
      · next h => exact iff_of_false Bool.false_ne_true h
  | resizeTuples tuples =>
      rw [on, ListStore.resizeTuples, listCount, Shape.elementCount, Shape.elementCount?_one,
        Allowed]
      cases tuples.size? <;> exact Iff.rfl

/-- What can be relied on in a store at any time. -/
structure Safe (width : Nat) (s : ListStore α) : Prop where
  tuples : s.tupleCount = s.tupleShape.volume ∧ s.tupleShape.volume < sizeLimit
  full : ∀ {lists}, s.lists = .ok lists → lists.size = s.tupleCount
  lists_inPlace : Machine.lists s = answered s s.lists
  list_inPlace : ∀ t, Machine.list t s = answered s (s.list t)
  call_inPlace : ∀ call : Call α, call.inPlace width s =
    within (call.bytes width s) (call.left s) (stored s (call.on s))
  lists_isOk : s.lists.isOk ↔ s.isAllocated
  list_isOk : ∀ t, (s.list t).isOk ↔ s.isAllocated ∧ t < s.tupleCount
  call_isOk : ∀ call : Call α, (call.on s).isOk ↔ call.Allowed s

theorem Sound.safe (hs : s.Sound) {width : Nat} : s.Safe width where
  tuples := by
    have hvolume : s.tupleCount = s.tupleShape.volume := Shape.size_eq_volume hs.counted
    exact ⟨hvolume, hvolume ▸ hs.tupleCount_lt⟩
  full hlists := hs.full (lists_eq_ok.mp hlists)
  lists_inPlace := lists_run
  list_inPlace _ := list_run
  call_inPlace := Call.inPlace_run width
  lists_isOk := ListStore.lists_isOk
  list_isOk _ := hs.list_isOk
  call_isOk _ := Call.on_isOk hs

end ListStore

/--
Building a store stops a machine only if its row would have too many bytes. A store that has been
built and is then worked on in any way goes on for as long as it asks for bytes that can be had, and
at any time its shapes fit into words and into its row or its lists. No operation on it stops the
machine but by asking for too many bytes, what is refused leaves it as it is, and only what is out
of range is refused.
-/
theorem stores_stay_safe {α : Type} (width : Nat) (zero : α) :
    (∀ tuples components value (u : Unit),
      DenseStore.Machine.filled width tuples components value u =
        within ((Shape.elementCount? tuples components).getD 0 * width) u
          (answered u (DenseStore.filled tuples components (value : α)))) ∧
    (∀ tuples (u : Unit), ListStore.Machine.new tuples u =
      within (tuples.size?.getD 0 * ListStore.listWidth) u
        (answered u (ListStore.new tuples : Except StoreError (ListStore α)))) ∧
    (∀ s : DenseStore α, s.Built → ∀ calls,
      (∀ s', DenseStore.play width zero calls s = some s' ↔
        s.Roomy width zero calls ∧ s.run zero calls = s') ∧ (s.run zero calls).Safe width zero) ∧
    ∀ s : ListStore α, s.Built → ∀ calls,
      (∀ s', ListStore.play width calls s = some s' ↔ s.Roomy width calls ∧ s.run calls = s') ∧
        (s.run calls).Safe width := by
  refine ⟨fun _ _ _ _ => DenseStore.filled_run, fun _ _ => ListStore.new_run,
    fun s hs calls => ⟨fun s' => DenseStore.play_eq_some hs.sound, ?_⟩,
    fun s hs calls => ⟨fun s' => ListStore.play_eq_some, ?_⟩⟩
  · exact (DenseStore.sound_run hs.sound calls).safe
  · exact (ListStore.sound_run hs.sound calls).safe

/-- The dense store gets its row and refuses to outgrow the words, and one list gets a value. -/
theorem stores_stay_safe_couple : ∃ (s s' : DenseStore Nat) (l l' : ListStore Nat),
    (DenseStore.shapeOnly [2, 3] [2] = .ok s ∧
      DenseStore.play 8 0 [.allocate, .setComponent 5 1 7, .resizeTuples [2 ^ 32, 2 ^ 32]] s =
        some s' ∧ s'.row? = some #[0, 0, 0, 0, 0, 0, 0, 0, 0, 0, 0, 7] ∧ s'.Safe 8 0) ∧
    ListStore.new [2] = .ok l ∧ ListStore.play 8 [.push 1 5, .push 2 5] l = some l' ∧
      l'.lists? = some #[[], [5]] ∧ l'.Safe 8 := by
  have hs : DenseStore.shapeOnly [2, 3] [2] = .ok (⟨[2, 3], [2], none⟩ : DenseStore Nat) := rfl
  have hl : ListStore.new [2] = .ok (⟨[2], some #[[], []]⟩ : ListStore Nat) := rfl
  obtain ⟨hplay, hsafe⟩ := (stores_stay_safe 8 0).2.2.1 _ (.shapeOnly hs)
    [.allocate, .setComponent 5 1 7, .resizeTuples [2 ^ 32, 2 ^ 32]]
  obtain ⟨hplay', hsafe'⟩ := (stores_stay_safe 8 0).2.2.2 _ (.new hl) [.push 1 5, .push 2 5]
  exact ⟨_, _, _, _, ⟨hs, (hplay _).mpr ⟨by decide, rfl⟩, rfl, hsafe⟩, hl,
    (hplay' _).mpr ⟨by decide, rfl⟩, rfl, hsafe'⟩

/--
Words can count more numbers than there can be bytes, so some stores with sound shapes cannot have
a row. Resizing finds that out when it has already replaced the tuple shape.
-/
theorem stores_stop_without_room :
    (∃ s : DenseStore Float, s.Built ∧
      DenseStore.Machine.allocate ElementType.float64.byteSize 0 s = .error .stop s) ∧
    (∃ s : DenseStore Float, s.Built ∧ s.tupleShape ≠ [2 ^ 60] ∧
      DenseStore.Machine.resizeTuples ElementType.float64.byteSize [2 ^ 60] 0 s =
        .error .stop { s with tupleShape := [2 ^ 60] }) ∧
    ∃ s : ListStore Float, s.Built ∧ ListStore.Machine.allocate s = .error .stop s := by
  have hrow : DenseStore.shapeOnly [2 ^ 60] [1] = .ok (⟨[2 ^ 60], [1], none⟩ : DenseStore Float) :=
    rfl
  have hone : DenseStore.filled [1] [1] 0 = .ok (⟨[1], [1], some #[0]⟩ : DenseStore Float) := rfl
  have hlists : ListStore.shapeOnly [2 ^ 60] = .ok (⟨[2 ^ 60], none⟩ : ListStore Float) := rfl
  exact ⟨⟨_, .shapeOnly hrow, rfl⟩, ⟨_, .filled hone, by decide, rfl⟩, _, .shapeOnly hlists, rfl⟩

end FilterTree
