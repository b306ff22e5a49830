import FilterTree.Proofs.Audit
import FilterTree.Proofs.Change

/-!
# Trees that calls can reach

A program gets a tree by starting from the empty one and calling the edits on
it, in any order and whether or not they are carried out, and by writing values
into arrays and lists in between. `Call` lists what can be called, with the
bodies that can be built; `run` carries calls out and keeps a record of every
number that an object ever had.

One call keeps a `Consistent` history consistent, because each edit makes one
of the changes that keep the invariant, and none of them gives an object a
number below the next one. So it holds of every history, and with it all that
the invariant implies: no object is its own ancestor, and an audit accepts.
-/

namespace FilterTree

/-- The bodies that a program can build by itself. -/
inductive Body.Constructed : Body → Prop where
  | group : Constructed .group
  | matrix (shape : Shape) : Constructed (.matrix shape)
  | array (type : ElementType) (s : DenseStore type.Carrier) (h : s.Built) :
      Constructed (.array ⟨type, s⟩)
  | list (type : ElementType) (s : ListStore type.Carrier) (h : s.Built) :
      Constructed (.list ⟨type, s⟩)
  | image (dimensions : Triple Nat) (spacing origin : Triple Float32) :
      Constructed (.geometry (.bareImage dimensions spacing origin))
  | vertex (count : Nat) : Constructed (.geometry (.bareVertex count))

namespace Body.Constructed

theorem bare {b : Body} (h : b.Constructed) : b.Bare := by
  cases h with
  | image | vertex => exact ⟨rfl, rfl⟩
  | group | matrix | array | list => trivial

/-- A body that was built is sound, but for a matrix whose shape has not been looked at. -/
theorem sound {b : Body} (h : b.Constructed)
    (hfits : ∀ shape, b.tupleShape? = some shape → shape.size?.isSome) : b.Sound := by
  cases h with
  | matrix shape => exact hfits shape rfl
  | array type s h => exact h.sound
  | list type s h => exact h.sound
  | group | image | vertex => trivial

end Body.Constructed

/-- A call on a tree. -/
inductive Call where
  | insert (parent : Path) (name : String) (body : Body) (h : body.Constructed)
  | create (path : Path) (body : Body) (h : body.Constructed)
  | createImage (path : Path) (dimensions : Triple Nat) (spacing origin : Triple Float32)
      (cellDataName : String)
  | createVertex (path : Path) (count : Nat) (vertexDataName coordinatesName : String)
      (allocated : Bool)
  | remove (path : Path)
  | rename (path : Path) (name : String)
  | move (path newParent : Path)
  | resizeMatrix (path : Path) (shape : Shape)
  | writeArray (path : Path) (type : ElementType) (w : ArrayWrite type)
  | writeList (path : Path) (type : ElementType) (w : ListWrite type)

namespace Edit

/-- Write to the array at a path, which must have elements of a type. -/
def writeArray (path : Path) (type : ElementType) (w : ArrayWrite type) : Edit Unit := do
  let s ← ask fun t => t.denseAt path type
  let s' ← ask fun _ => (w.on s).mapError (TreeError.store path)
  modify fun t => t.setBodyAt path (.array ⟨type, s'⟩)

/-- Write to the list at a path, which must have values of a type. -/
def writeList (path : Path) (type : ElementType) (w : ListWrite type) : Edit Unit := do
  let s ← ask fun t => t.listsAt path type
  let s' ← ask fun _ => (w.on s).mapError (TreeError.store path)
  modify fun t => t.setBodyAt path (.list ⟨type, s'⟩)

end Edit

namespace Edit

open FilterTree.Tree

variable {t u : Tree} {path : Path} {type : ElementType}

theorem writeArray_makes (h : WellFormed t) {w : ArrayWrite type} :
    (writeArray path type w).Makes (fun _ => True) t := by
  intro _ u hok
  rw [writeArray, ask_bind_eq_ok] at hok
  obtain ⟨s, hs, hok⟩ := hok
  rw [ask_bind_eq_ok] at hok
  obtain ⟨s', hs', hok⟩ := hok
  obtain ⟨id, o, ho, heq, hshell, hsound⟩ :=
    h.write_denseAt hs fun hsound => w.rewritten hsound (check_mapError_eq_ok.mp hs')
  cases hok
  show t.Change _ (t.setBodyAt path (.array ⟨type, s'⟩))
  rw [heq]
  exact .written ho hshell hsound trivial

theorem writeArray_allOrNothing {w : ArrayWrite type} :
    (writeArray path type w).AllOrNothing t :=
  .ask_bind fun _ _ => .ask_bind fun _ _ => Succeeds.allOrNothing ⟨_, _, rfl⟩

theorem writeList_makes (h : WellFormed t) {w : ListWrite type} :
    (writeList path type w).Makes (fun _ => True) t := by
  intro _ u hok
  rw [writeList, ask_bind_eq_ok] at hok
  obtain ⟨s, hs, hok⟩ := hok
  rw [ask_bind_eq_ok] at hok
  obtain ⟨s', hs', hok⟩ := hok
  obtain ⟨id, o, ho, heq, hshell, hsound⟩ :=
    h.write_listsAt hs fun hsound => w.rewritten hsound (check_mapError_eq_ok.mp hs')
  cases hok
  show t.Change _ (t.setBodyAt path (.list ⟨type, s'⟩))
  rw [heq]
  exact .written ho hshell hsound trivial

theorem writeList_allOrNothing {w : ListWrite type} : (writeList path type w).AllOrNothing t :=
  .ask_bind fun _ _ => .ask_bind fun _ _ => Succeeds.allOrNothing ⟨_, _, rfl⟩

end Edit

namespace Call

open FilterTree.Tree

/-- The edit that a call carries out, with the number it answers with if it creates an object. -/
def edit : Call → Edit (Option ObjectId)
  | insert parent name body _ => do return some (← Edit.insert parent name body)
  | create path body _ => do return some (← Edit.create path body)
  | createImage path dimensions spacing origin cellDataName => do
    return some (← Edit.createImage path dimensions spacing origin cellDataName)
  | createVertex path count vertexDataName coordinatesName allocated => do
    return some (← Edit.createVertex path count vertexDataName coordinatesName allocated)
  | remove path => do let _ ← Edit.remove path; return none
  | rename path name => do let _ ← Edit.rename path name; return none
  | move path newParent => do let _ ← Edit.move path newParent; return none
  | resizeMatrix path shape => do let _ ← Edit.resizeMatrix path shape; return none
  | writeArray path type w => do let _ ← Edit.writeArray path type w; return none
  | writeList path type w => do let _ ← Edit.writeList path type w; return none

/-- Every call makes one of the changes when it is carried out. -/
theorem makes (c : Call) {t : Tree} (h : WellFormed t) : c.edit.Makes (fun _ => True) t := by
  cases c with
  | insert parent name body hb => exact (Edit.insert_makes hb.sound hb.bare trivial).bind_pure
  | create path body hb => exact (Edit.create_makes hb.sound hb.bare trivial).bind_pure
  | createImage => exact (Edit.createImage_makes h).bind_pure
  | createVertex => exact (Edit.createVertex_makes h fun _ _ => trivial).bind_pure
  | remove => exact (Edit.remove_makes h).bind_pure
  | rename => exact (Edit.rename_makes h).bind_pure
  | move => exact (Edit.move_makes h).bind_pure
  | resizeMatrix => exact (Edit.resizeMatrix_makes h).bind_pure
  | writeArray => exact (Edit.writeArray_makes h).bind_pure
  | writeList => exact (Edit.writeList_makes h).bind_pure

/-- A call that is refused leaves the tree as it was. -/
theorem allOrNothing (c : Call) {t : Tree} (h : WellFormed t) : c.edit.AllOrNothing t := by
  cases c with
  | insert => exact Edit.insert_allOrNothing.bind_pure
  | create => exact Edit.create_allOrNothing.bind_pure
  | createImage => exact (Edit.createImage_allOrNothing h).bind_pure
  | createVertex => exact (Edit.createVertex_allOrNothing h).bind_pure
  | remove => exact Edit.remove_allOrNothing.bind_pure
  | rename => exact Edit.rename_allOrNothing.bind_pure
  | move => exact Edit.move_allOrNothing.bind_pure
  | resizeMatrix => exact (Edit.resizeMatrix_allOrNothing h).bind_pure
  | writeArray => exact Edit.writeArray_allOrNothing.bind_pure
  | writeList => exact Edit.writeList_allOrNothing.bind_pure

/-- A call that creates an object answers with the next number. -/
theorem answer_eq (c : Call) {t u : Tree} (h : WellFormed t) {id : ObjectId}
    (hok : c.edit.on t = (.ok (some id), u)) : id = t.nextId ∧ u.Has (some id) := by
  cases c with
  | insert parent name body hb =>
      obtain ⟨i, v, hi, hv⟩ := Edit.bind_eq_ok.mp hok
      cases hv
      obtain ⟨place, -, rfl, rfl⟩ := Edit.insert_eq_ok.mp hi
      exact ⟨rfl, has_addObject (.inl rfl)⟩
  | create path body hb =>
      obtain ⟨i, v, hi, hv⟩ := Edit.bind_eq_ok.mp hok
      cases hv
      obtain ⟨parent, name, place, -, -, rfl, rfl⟩ := Edit.create_eq_ok.mp hi
      exact ⟨rfl, has_addObject (.inl rfl)⟩
  | createImage path dimensions spacing origin cellDataName =>
      obtain ⟨i, v, hi, hv⟩ := Edit.bind_eq_ok.mp hok
      cases hv
      obtain ⟨parent, name, place, -, -, -, -, rfl, rfl⟩ := Edit.createImage_eq_ok h hi
      exact ⟨rfl, has_setBody (has_addObject (.inr (has_addObject (.inl rfl))))⟩
  | createVertex path count vertexDataName coordinatesName allocated =>
      obtain ⟨i, v, hi, hv⟩ := Edit.bind_eq_ok.mp hok
      cases hv
      obtain ⟨parent, name, place, coordinates, -, -, -, -, -, -, rfl, rfl⟩ :=
        Edit.createVertex_eq_ok h hi
      exact ⟨rfl, has_setBody (has_addObject (.inr (has_addObject (.inr (has_addObject
        (.inl rfl))))))⟩
  | remove | rename | move | resizeMatrix | writeArray | writeList =>
      obtain ⟨i, v, hi, hv⟩ := Edit.bind_eq_ok.mp hok
      cases hv

end Call

/-! ## Histories -/

/-- A tree, and every number that an object of it ever had. -/
structure History where
  tree : Tree
  issued : List ObjectId

namespace History

open FilterTree.Tree

/-- Before anything was called. -/
def start : History := ⟨.empty, []⟩

/-- Carry out a call, and record the numbers under which there was no object before. -/
def call (s : History) (c : Call) : History :=
  let u := (c.edit.on s.tree).2
  ⟨u, s.issued ++ u.objects.keys.filter fun i => !s.tree.objects.contains i⟩

/-- Carry out calls in order, from the empty tree. -/
def run (calls : List Call) : History := calls.foldl call start

/-- The invariant of the tree, and that numbers are given out once and upwards. -/
structure Consistent (s : History) : Prop where
  wellFormed : s.tree.WellFormed
  nodup : s.issued.Nodup
  below : ∀ i ∈ s.issued, i < s.tree.nextId
  recorded : ∀ {i o}, s.tree.object? i = some o → i ∈ s.issued

theorem Consistent.start : start.Consistent where
  wellFormed := wellFormed_empty
  nodup := List.nodup_nil
  below := fun _ hi => nomatch hi
  recorded := fun ho => nomatch ho

/-- A number that is recorded by a call was not below the next one. -/
theorem mem_new_iff {t u : Tree} {i : ObjectId} :
    i ∈ (u.objects.keys.filter fun i => !t.objects.contains i) ↔
      u.Has (some i) ∧ t.object? i = none := by
  rw [List.mem_filter, SortedMap.mem_keys_iff, SortedMap.contains_eq]
  simp [Tree.Has, Tree.object?, Option.isSome_iff_exists]

theorem Consistent.call {s : History} (h : s.Consistent) (c : Call) : (s.call c).Consistent := by
  have hchange := (c.makes h.wellFormed).change (c.allOrNothing h.wellFormed)
  have hgrows := hchange.grows
  have hwf := hchange.wellFormed h.wellFormed
  have hnew : ∀ i, (c.edit.on s.tree).2.Has (some i) → s.tree.object? i = none →
      s.tree.nextId ≤ i := by
    rintro i ⟨o, ho⟩ hnone
    by_contra hlt
    obtain ⟨p, hp⟩ := hgrows.old ho (Nat.lt_of_not_le hlt)
    rw [hnone] at hp
    cases hp
  refine ⟨hwf, ?_, ?_, ?_⟩
  · refine List.nodup_append.mpr ⟨h.nodup, SortedMap.nodup_keys.filter _, ?_⟩
    rintro i hi j hj rfl
    obtain ⟨hhas, hnone⟩ := mem_new_iff.mp hj
    exact absurd (h.below i hi) (Nat.not_lt.mpr (hnew i hhas hnone))
  · intro i hi
    rcases List.mem_append.mp hi with hi | hi
    · exact Nat.lt_of_lt_of_le (h.below i hi) hgrows.nextId_le
    · obtain ⟨⟨o, ho⟩, -⟩ := mem_new_iff.mp hi
      exact hwf.numbered ho
  · intro i o ho
    cases hold : s.tree.object? i with
    | some p => exact List.mem_append_left _ (h.recorded hold)
    | none => exact List.mem_append_right _ (mem_new_iff.mpr ⟨⟨o, ho⟩, hold⟩)

/-- Every history is consistent. -/
theorem consistent_run (calls : List Call) : (run calls).Consistent := by
  induction calls using List.reverseRecOn with
  | nil => exact .start
  | append_singleton calls c ih =>
      rw [run, List.foldl_append]
      exact ih.call c

/--
Whatever calls have been made, carried out or refused, the tree satisfies the
invariant, no object of it is its own ancestor, and an audit accepts it; every
number that an object ever had is below the next one and was given out once;
and a further call that creates an object gives it none of these numbers.
-/
theorem run_sound (calls : List Call) :
    (run calls).tree.WellFormed ∧
      (∀ id, ¬ Relation.TransGen (run calls).tree.IsParent id id) ∧
      (run calls).tree.audit = .ok () ∧
      (run calls).issued.Nodup ∧
      (∀ id ∈ (run calls).issued, id < (run calls).tree.nextId) ∧
      (∀ id o, (run calls).tree.object? id = some o → id ∈ (run calls).issued) ∧
      ∀ (c : Call) (id : ObjectId) (u : Tree),
        c.edit.on (run calls).tree = (.ok (some id), u) →
        id ∉ (run calls).issued ∧ u.Has (some id) := by
  have h := consistent_run calls
  refine ⟨h.wellFormed, h.wellFormed.acyclic, h.wellFormed.audit_eq_ok, h.nodup, h.below,
    fun id o ho => h.recorded ho, fun c id u hok => ?_⟩
  obtain ⟨rfl, hhas⟩ := c.answer_eq h.wellFormed hok
  exact ⟨fun hmem => Nat.lt_irrefl _ (h.below _ hmem), hhas⟩

end History

end FilterTree
