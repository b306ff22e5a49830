import FilterTree.Proofs.Batch

/-!
# Edits that differ in elements only

A trial run and a run for good carry out the same edits, except that one of
them creates arrays and lists without elements. Two edits are `Alike` when they
do the same to trees with the same shell: both are carried out, with results
that correspond and again the same shell, or both are refused for the same
reason. That two edits are alike follows step by step. A check has to answer
the same for a tree and for its shell; a write has to commute with leaving out
the elements; and whatever is put together of alike steps is alike.

Nothing is assumed of the trees. Checks and writes look at elements nowhere,
and that is all there is to it.
-/

namespace FilterTree

/-! ## Answers that correspond -/

/-- Both accept, with values that correspond, or both refuse for the same reason. -/
def Agree {ε α β : Type} (R : α → β → Prop) (x : Except ε α) (y : Except ε β) : Prop :=
  (∃ a b, x = .ok a ∧ y = .ok b ∧ R a b) ∨ ∃ e, x = .error e ∧ y = .error e

namespace Agree

variable {ε ε' α α' β β' : Type} {R : α → β → Prop} {S : α' → β' → Prop}

theorem ok {a : α} {b : β} (h : R a b) : Agree R (.ok a : Except ε α) (.ok b) :=
  .inl ⟨a, b, rfl, rfl, h⟩

theorem error {e : ε} : Agree R (.error e) (.error e) := .inr ⟨e, rfl, rfl⟩

theorem of_eq {x y : Except ε α} (h : x = y) : Agree Eq x y := by
  subst h
  cases x with
  | ok a => exact .ok rfl
  | error e => exact .error

/-- Answers that are the same but for a function correspond. -/
theorem of_map {x y : Except ε α} {f : α → α'} (h : x.map f = y.map f) :
    Agree (fun a b => f a = f b) x y := by
  cases x with
  | ok a =>
      cases y with
      | ok b => exact .ok (Except.ok.inj h)
      | error e => cases h
  | error e =>
      cases y with
      | ok b => cases h
      | error e' =>
          cases h
          exact .error

theorem bind {x : Except ε α} {y : Except ε β} {f : α → Except ε α'} {g : β → Except ε β'}
    (h : Agree R x y) (hfg : ∀ a b, R a b → Agree S (f a) (g b)) : Agree S (x >>= f) (y >>= g) := by
  rcases h with ⟨a, b, rfl, rfl, hab⟩ | ⟨e, rfl, rfl⟩
  · exact hfg a b hab
  · exact .error

theorem map {x : Except ε α} {y : Except ε β} {f : α → α'} {g : β → β'} (h : Agree R x y)
    (hfg : ∀ a b, R a b → S (f a) (g b)) : Agree S (x.map f) (y.map g) := by
  rcases h with ⟨a, b, rfl, rfl, hab⟩ | ⟨e, rfl, rfl⟩
  · exact .ok (hfg a b hab)
  · exact .error

theorem mapError {x : Except ε α} {y : Except ε β} {f : ε → ε'} (h : Agree R x y) :
    Agree R (x.mapError f) (y.mapError f) := by
  rcases h with ⟨a, b, rfl, rfl, hab⟩ | ⟨e, rfl, rfl⟩
  · exact .ok hab
  · exact .error

end Agree

/-! ## Stores and bodies -/

theorem DenseStore.agree_fresh {α : Type} {tuples components : Shape}
    {allocated allocated' : Bool} {zero : α} :
    Agree (fun s s' => s.shell = s'.shell) (fresh tuples components allocated zero)
      (fresh tuples components allocated' zero) := by
  cases allocated <;> cases allocated' <;> exact (Agree.of_eq rfl).bind fun _ _ _ => .ok rfl

theorem ListStore.agree_fresh {α : Type} {tuples : Shape} {allocated allocated' : Bool} :
    Agree (fun s s' : ListStore α => s.shell = s'.shell) (fresh tuples allocated)
      (fresh tuples allocated') := by
  cases allocated <;> cases allocated' <;> exact (Agree.of_eq rfl).bind fun _ _ _ => .ok rfl

/-- Whether elements are allocated does not matter to whether an array can be built. -/
theorem DataArray.agree_fresh {type : ElementType} {tuples components : Shape}
    {allocated allocated' : Bool} :
    Agree (fun a b => a.shell = b.shell) (fresh type tuples components allocated)
      (fresh type tuples components allocated') :=
  DenseStore.agree_fresh.map fun s s' h => by rw [shell, shell, h]

theorem NeighborList.agree_fresh {type : ElementType} {tuples : Shape}
    {allocated allocated' : Bool} :
    Agree (fun l m => l.shell = m.shell) (fresh type tuples allocated)
      (fresh type tuples allocated') :=
  ListStore.agree_fresh.map fun s s' h => by rw [shell, shell, h]

/-- Nor to whether a body takes a tuple shape. -/
theorem Body.retuple_shell {b : Body} {shape : Shape} :
    b.shell.retuple shape = (b.retuple shape).map shell := by
  cases b with
  | array a =>
      rw [retuple, DataArray.resizeTuples, DenseStore.resizeTuples]
      show ((Shape.elementCount shape a.store.componentShape >>= _).map _).map _ = _
      cases Shape.elementCount shape a.store.componentShape <;> rfl
  | list l =>
      rw [retuple, NeighborList.resizeTuples, ListStore.resizeTuples]
      show ((ListStore.listCount shape >>= _).map _).map _ = _
      cases ListStore.listCount shape <;> rfl
  | group | matrix _ | geometry _ => rfl

theorem Body.agree_retuple {b b' : Body} {shape : Shape} (h : b.shell = b'.shell) :
    Agree (fun c c' => c.shell = c'.shell) (b.retuple shape) (b'.retuple shape) :=
  .of_map (by rw [← retuple_shell, h, retuple_shell])

/-! ## Checks -/

namespace Tree

variable {t u : Tree} {path : Path} {id : ObjectId}

@[simp] theorem resolve_shell : t.shell.resolve path = t.resolve path := by
  rw [resolve, resolve, idOf?_shell]

@[simp] theorem objectAt_shell : t.shell.objectAt path = (t.objectAt path).map Object.shell := by
  rw [objectAt, objectAt, idOf?_shell]
  cases t.idOf? path with
  | none => rfl
  | some id =>
      rw [Option.bind_some, Option.bind_some, object?_shell]
      cases t.object? id <;> rfl

@[simp] theorem hasChild_shell {place : Option ObjectId} {name : String} :
    t.shell.hasChild place name = t.hasChild place name := by
  rw [hasChild_eq, hasChild_eq, links_shell]

@[simp] theorem parentId_shell {missing : TreeError} :
    t.shell.parentId path missing = t.parentId path missing := by
  rw [parentId, parentId, idOf?_shell]

theorem checkContainer_shell {container : Object} {name : String} {body : Body} :
    checkContainer path container.shell name body.shell =
      checkContainer path container name body := by
  rw [checkContainer, checkContainer, Object.kind_shell, Body.kind_shell, Body.tupleShape?_shell]
  rw [show container.shell.body = container.body.shell from rfl]
  cases container.body <;> rfl

theorem checkAttach_shell {place : Option ObjectId} {name : String} {body : Body} :
    t.shell.checkAttach path place name body.shell = t.checkAttach path place name body := by
  rw [checkAttach.eq_def, checkAttach.eq_def]
  cases place with
  | none => rfl
  | some id =>
      simp only [hasChild_shell, object?_shell]
      cases t.object? id with
      | none => rfl
      | some o =>
          simp only [Option.map_some]
          rw [checkContainer_shell]

theorem checkInsert_shell {name : String} {body : Body} :
    t.shell.checkInsert path name body.shell = t.checkInsert path name body := by
  rw [checkInsert.eq_def, checkInsert.eq_def]
  simp only [Body.tupleShape?_shell, parentId_shell, checkAttach_shell]

theorem checkResize_shell {shape : Shape} :
    t.shell.checkResize path shape id = t.checkResize path shape id := by
  rw [checkResize, checkResize, object?_shell]
  cases t.object? id with
  | none => rfl
  | some o =>
      rw [Option.map_some, Option.map_some, Option.map_some]
      rw [show o.shell.body = o.body.shell from rfl]
      cases o.body <;> rfl

theorem owner?_shell {parent : Option ObjectId} :
    t.shell.owner? id parent = t.owner? id parent := by
  cases parent with
  | none => rfl
  | some p =>
      rw [owner?, owner?]
      show ((t.shell.object? p).bind _) = ((t.object? p).bind _)
      rw [object?_shell]
      cases t.object? p with
      | none => rfl
      | some o =>
          rw [Option.map_some, Option.bind_some, Option.bind_some]
          rw [show o.shell.body = o.body.shell from rfl]
          cases o.body <;> rfl

theorem checkOwner_shell {parent : Option ObjectId} {shape : Shape} :
    t.shell.checkOwner path id parent shape = t.checkOwner path id parent shape := by
  rw [checkOwner.eq_def, checkOwner.eq_def, owner?_shell]
  simp only [checkResize_shell]

/-! ## Writes -/

theorem modify_shell {f : Object → Object} (hf : ∀ o, (f o).shell = f o.shell) :
    (t.modify id f).shell = t.shell.modify id f := by
  refine ext_object? (fun i => ?_) rfl rfl
  rw [object?_shell, object?_modify, object?_modify, object?_shell]
  split
  · cases t.object? i with
    | none => rfl
    | some o => exact congrArg some (hf o)
  · rfl

theorem modifyChildren_shell {place : Option ObjectId}
    {f : SortedMap String ObjectId → SortedMap String ObjectId} :
    (t.modifyChildren place f).shell = t.shell.modifyChildren place f := by
  cases place with
  | none => rfl
  | some id => exact modify_shell fun _ => rfl

theorem setBody_shell {body : Body} :
    (t.setBody id body).shell = t.shell.setBody id body.shell := by
  refine ext_object? (fun i => ?_) rfl rfl
  rw [object?_shell, object?_setBody, object?_setBody, object?_shell]
  cases t.object? i with
  | none => rfl
  | some o =>
      simp only [Option.map_some, Object.shell]
      split <;> rfl

theorem detach_shell : (t.detach id).shell = t.shell.detach id := by
  rw [detach, detach, object?_shell]
  cases t.object? id with
  | none => rfl
  | some o =>
      obtain ⟨name, parent, children, body⟩ := o
      cases parent with
      | none => exact modifyChildren_shell
      | some p =>
          show (((t.detachName (some p) name).modify p _).shell) =
            (t.shell.detachName (some p) name).modify p _
          rw [detachName, detachName, ← modifyChildren_shell]
          refine modify_shell fun o => ?_
          rw [Object.shell, Body.shell_forget]
          rfl

theorem attach_shell {place : Option ObjectId} {name : String} :
    (t.attach place name id).shell = t.shell.attach place name id := modifyChildren_shell

theorem detachName_shell {place : Option ObjectId} {name : String} :
    (t.detachName place name).shell = t.shell.detachName place name := modifyChildren_shell

/-- A function of the links of an object is one of the shell. -/
theorem bind_object?_shell {α : Type} {f : Object → Option α} (hf : ∀ o, f o.shell = f o) :
    (t.shell.object? id).bind f = (t.object? id).bind f := by
  rw [object?_shell]
  cases t.object? id with
  | none => rfl
  | some o => exact hf o

theorem subtree_shell {fuel : Nat} : t.shell.subtree fuel id = t.subtree fuel id := by
  induction fuel generalizing id with
  | zero => rfl
  | succ fuel ih =>
      rw [subtree, subtree, object?_shell]
      cases t.object? id with
      | none => rfl
      | some o =>
          have hbelow : t.shell.subtree fuel = t.subtree fuel := funext fun _ => ih
          show id :: o.children.values.flatMap (t.shell.subtree fuel) = _
          rw [hbelow]

theorem filter_shell {p : ObjectId → Bool} :
    Tree.shell { t with objects := t.objects.filter fun i _ => p i } =
      { t.shell with objects := t.shell.objects.filter fun i _ => p i } := by
  refine ext_object? (fun i => ?_) rfl rfl
  rw [object?_shell, object?, object?, SortedMap.get?_filter, SortedMap.get?_filter]
  rw [show t.shell.objects.get? i = t.shell.object? i from rfl, object?_shell, object?]
  cases t.objects.get? i with
  | none => rfl
  | some o => cases hp : p i <;> simp [Option.filter]

theorem size_shell : t.shell.size = t.size := List.length_map _

theorem size_eq_of_shell_eq (h : t.shell = u.shell) : t.size = u.size := by
  rw [← size_shell, h, size_shell]

theorem addObject_shell {place : Option ObjectId} {name : String} {body : Body} :
    (t.addObject place name body).shell = t.shell.addObject place name body.shell := by
  refine ext_object? (fun i => ?_) ?_ ?_
  · rw [object?_shell, object?_addObject, object?_addObject, object?_shell, nextId_shell]
    split
    · rfl
    · split
      · cases t.object? i <;> rfl
      · rfl
  · cases place <;> rfl
  · rw [nextId_shell, nextId_addObject, nextId_addObject, nextId_shell]

end Tree

/-! ## Edits -/

namespace Edit

open FilterTree.Tree

variable {α α' β β' γ : Type} {R : α → β → Prop} {S : α' → β' → Prop}

/-- Two edits do the same to trees with the same shell. -/
def Alike (R : α → β → Prop) (e : Edit α) (e' : Edit β) : Prop :=
  ∀ t t' : Tree, t.shell = t'.shell →
    Agree R (e.on t).1 (e'.on t').1 ∧ (e.on t).2.shell = (e'.on t').2.shell

namespace Alike

theorem pure {a : α} {b : β} (h : R a b) : Alike R (Pure.pure a) (Pure.pure b) :=
  fun _ _ ht => ⟨.ok h, ht⟩

theorem throw {x : TreeError} : Alike R (MonadExcept.throw x) (MonadExcept.throw x) :=
  fun _ _ ht => ⟨.error, ht⟩

theorem ask {f : Tree → Except TreeError α} {f' : Tree → Except TreeError β}
    (h : ∀ t t' : Tree, t.shell = t'.shell → Agree R (f t) (f' t')) :
    Alike R (Edit.ask f) (Edit.ask f') := by
  intro t t' ht
  rw [on_ask, on_ask]
  exact ⟨h t t' ht, ht⟩

/-- A check that answers the same for a tree and for its shell. -/
theorem ask_of_shell {f : Tree → Except TreeError α} (h : ∀ t : Tree, f t.shell = f t) :
    Alike Eq (Edit.ask f) (Edit.ask f) :=
  ask fun t t' ht => .of_eq (by rw [← h t, ht, h t'])

/-- Two writes that do the same to trees with the same shell. -/
theorem write {f f' : Tree → Tree}
    (h : ∀ t t' : Tree, t.shell = t'.shell → (f t).shell = (f' t').shell) :
    Alike Eq (modify f) (modify f') := fun t t' ht => ⟨.ok rfl, h t t' ht⟩

theorem bind {e : Edit α} {e' : Edit β} {k : α → Edit α'} {k' : β → Edit β'} (h : Alike R e e')
    (hk : ∀ a b, R a b → Alike S (k a) (k' b)) : Alike S (e >>= k) (e' >>= k') := by
  intro t t' ht
  obtain ⟨hagree, hshell⟩ := h t t' ht
  rw [on_bind, on_bind]
  rcases he : e.on t with ⟨r, u⟩
  rcases he' : e'.on t' with ⟨r', u'⟩
  rw [he, he'] at hagree hshell
  rcases hagree with ⟨a, b, rfl, rfl, hab⟩ | ⟨x, rfl, rfl⟩
  · exact hk a b hab u u' hshell
  · exact ⟨.error, hshell⟩

/-- The same step in front of continuations that are alike. -/
theorem bind_eq {e e' : Edit γ} {k : γ → Edit α'} {k' : γ → Edit β'} (h : Alike Eq e e')
    (hk : ∀ a, Alike S (k a) (k' a)) : Alike S (e >>= k) (e' >>= k') :=
  h.bind fun a _ hab => hab ▸ hk a

theorem get_bind {k : Tree → Edit α'} {k' : Tree → Edit β'}
    (hk : ∀ t t' : Tree, t.shell = t'.shell → Alike S (k t) (k' t')) :
    Alike S (get >>= k) (get >>= k') := by
  intro t t' ht
  rw [on_get_bind, on_get_bind]
  exact hk t t' ht t t' ht

theorem set {u u' : Tree} (h : u.shell = u'.shell) :
    Alike Eq (MonadStateOf.set u : Edit Unit) (MonadStateOf.set u') := fun _ _ _ => ⟨.ok rfl, h⟩

theorem ite {p : Prop} [Decidable p] {e f : Edit α} {e' f' : Edit β}
    (he : Alike R e e') (hf : Alike R f f') :
    Alike R (if p then e else f) (if p then e' else f') := by
  split
  · exact he
  · exact hf

theorem forM {l : List γ} {f f' : γ → Edit Unit} (h : ∀ a, Alike Eq (f a) (f' a)) :
    Alike Eq (l.forM f) (l.forM f') := by
  induction l with
  | nil => exact .pure rfl
  | cons a l ih => exact (h a).bind_eq fun _ => ih

end Alike

variable {path : Path} {name : String}

theorem insert_alike {body body' : Body} (hb : body.shell = body'.shell) :
    Alike Eq (insert path name body) (insert path name body') := by
  refine .bind_eq (.ask fun t t' ht => .of_eq ?_) fun place => ?_
  · rw [← checkInsert_shell, ht, hb, checkInsert_shell]
  · refine .get_bind fun t t' ht => .bind_eq (.write fun t t' ht => ?_) fun _ => .pure ?_
    · rw [addObject_shell, addObject_shell, ht, hb]
    · rw [← nextId_shell, ht, nextId_shell]

theorem create_alike {body body' : Body} (hb : body.shell = body'.shell) :
    Alike Eq (create path body) (create path body') :=
  .bind_eq (.ask_of_shell fun _ => rfl) fun _ => insert_alike hb

theorem setBody_alike {id : ObjectId} {body : Body} :
    Alike Eq (modify fun t => t.setBody id body : Edit Unit) (modify fun t => t.setBody id body) :=
  .write fun t t' ht => by rw [setBody_shell, setBody_shell, ht]

theorem createImage_alike {dimensions : Triple Nat} {spacing origin : Triple Float32}
    {cellDataName : String} :
    Alike Eq (createImage path dimensions spacing origin cellDataName)
      (createImage path dimensions spacing origin cellDataName) := by
  refine .bind_eq (.ask_of_shell fun _ => rfl) fun _ => ?_
  refine .bind_eq (.ask_of_shell fun _ => rfl) fun _ => ?_
  refine .bind_eq (create_alike rfl) fun _ => .bind_eq (insert_alike rfl) fun _ => ?_
  exact .bind_eq setBody_alike fun _ => .pure rfl

theorem createVertex_alike {count : Nat} {vertexDataName coordinatesName : String}
    {allocated allocated' : Bool} :
    Alike Eq (createVertex path count vertexDataName coordinatesName allocated)
      (createVertex path count vertexDataName coordinatesName allocated') := by
  refine .bind_eq (.ask_of_shell fun _ => rfl) fun _ => ?_
  refine .bind_eq (.ask_of_shell fun _ => rfl) fun _ => .ite .throw ?_
  refine .bind (.ask fun _ _ _ => DataArray.agree_fresh.mapError) fun a b hab => ?_
  have hbody : (Body.array a).shell = (Body.array b).shell := congrArg Body.array hab
  refine .bind_eq (create_alike rfl) fun _ => .bind_eq (insert_alike hbody) fun _ => ?_
  exact .bind_eq (insert_alike rfl) fun _ => .bind_eq setBody_alike fun _ => .pure rfl

theorem rename_alike : Alike Eq (rename path name) (rename path name) := by
  refine .bind_eq (.ask_of_shell fun _ => rfl) fun ⟨parent, oldName⟩ => ?_
  refine .bind_eq (.ask_of_shell fun _ => rfl) fun _ => ?_
  refine .bind_eq (.ask_of_shell fun _ => resolve_shell) fun id => .ite (.pure rfl) ?_
  refine .get_bind fun t t' ht => ?_
  have hparent : (t.object? id).bind Object.parent = (t'.object? id).bind Object.parent := by
    rw [← bind_object?_shell fun _ => rfl, ht, bind_object?_shell fun _ => rfl]
  have hchild : ∀ place, t.hasChild place name = t'.hasChild place name := by
    intro place
    rw [← hasChild_shell, ht, hasChild_shell]
  simp only [hparent, hchild]
  refine .ite .throw (.set ?_)
  rw [modify_shell, modify_shell, attach_shell, attach_shell, detachName_shell, detachName_shell,
    ht] <;> exact fun _ => rfl

/-- The objects at a path correspond. -/
theorem objectAt_alike :
    Alike (fun o o' => o.shell = o'.shell) (ask fun t => t.objectAt path)
      (ask fun t => t.objectAt path) :=
  .ask fun t t' ht => .of_map (by rw [← objectAt_shell, ht, objectAt_shell])

theorem move_alike {newParent : Path} : Alike Eq (move path newParent) (move path newParent) := by
  refine .bind_eq (.ask_of_shell fun _ => rfl) fun ⟨parent, name⟩ => ?_
  refine .bind_eq (.ask_of_shell fun _ => resolve_shell) fun id => .ite .throw ?_
  refine .bind_eq (.ask_of_shell fun _ => parentId_shell) fun place => ?_
  refine objectAt_alike.bind fun o o' ho => ?_
  have hparent : o.parent = o'.parent := (congrArg Object.parent ho :)
  have hbody : o.body.shell = o'.body.shell := congrArg Object.body ho
  rw [hparent]
  refine .ite (.pure rfl) (.bind_eq (.ask fun t t' ht => .of_eq ?_) fun _ =>
    .write fun t t' ht => ?_)
  · rw [← checkAttach_shell, ht, hbody, checkAttach_shell]
  · rw [modify_shell, modify_shell, attach_shell, attach_shell, detach_shell, detach_shell, ht] <;>
      exact fun _ => rfl

theorem remove_alike : Alike Eq (remove path) (remove path) := by
  refine .ite .throw ?_
  refine .bind_eq (.ask_of_shell fun _ => resolve_shell) fun id => ?_
  refine .get_bind fun t t' ht => ?_
  have hsize := size_eq_of_shell_eq ht
  have hgone : t.subtree t.size id = t'.subtree t'.size id := by
    rw [← subtree_shell, ht, subtree_shell, hsize]
  have hrest : ∀ gone : List ObjectId,
      Tree.shell { t.detach id with
        objects := (t.detach id).objects.filter fun i _ => !gone.contains i } =
      Tree.shell { t'.detach id with
        objects := (t'.detach id).objects.filter fun i _ => !gone.contains i } := by
    intro gone
    rw [filter_shell, filter_shell, detach_shell, detach_shell, ht]
  rw [hgone]
  exact .bind_eq (.set (hrest _)) fun _ =>
    .pure (congrArg₂ (· - ·) hsize (size_eq_of_shell_eq (hrest _)))

theorem retuple_alike {shape : Shape} {id : ObjectId} :
    Alike Eq (retuple path shape id) (retuple path shape id) := by
  refine .get_bind fun t t' ht => ?_
  have hid := congrArg (fun u => u.object? id) ht
  simp only [object?_shell] at hid
  cases ho : t.object? id with
  | none =>
      rw [ho, Option.map_none] at hid
      rw [Option.map_eq_none_iff.mp hid.symm]
      exact .pure rfl
  | some o =>
      rw [ho, Option.map_some] at hid
      obtain ⟨o', ho', heq⟩ := Option.map_eq_some_iff.mp hid.symm
      rw [ho']
      dsimp only
      have hbody : o.body.shell = o'.body.shell := (congrArg Object.body heq.symm :)
      rcases Body.agree_retuple hbody with ⟨b, b', hb, hb', hshell⟩ | ⟨x, hx, hx'⟩
      · rw [hb, hb']
        exact .write fun t t' ht => by rw [setBody_shell, setBody_shell, ht, hshell]
      · rw [hx, hx']
        exact .throw

theorem resizeMatrix_alike {shape : Shape} :
    Alike Eq (resizeMatrix path shape) (resizeMatrix path shape) := by
  refine .bind_eq (.ask_of_shell fun _ => resolve_shell) fun id => ?_
  refine objectAt_alike.bind fun o o' ho => ?_
  have hkind : o.kind = o'.kind := by rw [← Object.kind_shell, ho, Object.kind_shell]
  have hparent : o.parent = o'.parent := (congrArg Object.parent ho :)
  have hchildren : o.children = o'.children := (congrArg Object.children ho :)
  rw [hkind, hparent, hchildren]
  refine .ite .throw (.bind_eq (.ask_of_shell fun _ => rfl) fun _ => ?_)
  refine .bind_eq (.ask_of_shell fun t => ?_) fun _ => ?_
  · exact congrArg (List.forM _) (funext fun _ => checkResize_shell)
  · refine .bind_eq (.ask_of_shell fun _ => checkOwner_shell) fun owner => ?_
    refine .bind_eq (.forM fun _ => retuple_alike) fun _ => ?_
    cases owner with
    | none => exact .pure rfl
    | some p =>
        dsimp only
        cases p.2.coordinates with
        | none => exact setBody_alike
        | some l => exact .bind_eq retuple_alike fun _ => setBody_alike

end Edit

/-! ## Actions and batches -/

open Edit

/-- An action does the same in every mode, but for elements. -/
theorem Action.apply_alike {mode mode' : Mode} (a : Action) :
    Alike Eq (a.apply mode) (a.apply mode') := by
  cases a with
  | createGroup | createMatrix => exact .bind_eq (create_alike rfl) fun _ => .pure rfl
  | createArray =>
      refine .bind (.ask fun _ _ _ => DataArray.agree_fresh.mapError) fun a b hab => ?_
      exact .bind_eq (create_alike (congrArg Body.array hab)) fun _ => .pure rfl
  | createList =>
      refine .bind (.ask fun _ _ _ => NeighborList.agree_fresh.mapError) fun l m hlm => ?_
      exact .bind_eq (create_alike (congrArg Body.list hlm)) fun _ => .pure rfl
  | createImage => exact createImage_alike.bind_eq fun _ => .pure rfl
  | createVertex => exact createVertex_alike.bind_eq fun _ => .pure rfl
  | rename => exact rename_alike
  | move => exact move_alike
  | delete => exact remove_alike.bind_eq fun _ => .pure rfl
  | resizeMatrix => exact resizeMatrix_alike

namespace Batch

variable {mode mode' : Mode} {t t' : Tree}

theorem applyFrom_alike {index : Nat} (b : Batch) (h : t.shell = t'.shell) :
    (b.applyFrom mode index t).1 = (b.applyFrom mode' index t').1 ∧
      (b.applyFrom mode index t).2.shell = (b.applyFrom mode' index t').2.shell := by
  induction b generalizing index t t' with
  | nil => exact ⟨rfl, h⟩
  | cons a b ih =>
      obtain ⟨hagree, hshell⟩ := @Action.apply_alike mode mode' a t t' h
      rw [applyFrom, applyFrom]
      rcases hon : (a.apply mode).on t with ⟨r, u⟩
      rcases hon' : (a.apply mode').on t' with ⟨r', u'⟩
      rw [hon, hon'] at hagree hshell
      rcases hagree with ⟨_, _, rfl, rfl, -⟩ | ⟨x, rfl, rfl⟩
      · exact ih hshell
      · exact ⟨rfl, hshell⟩

/--
A trial run of a batch does the same as a run for good on a tree with the same
shell: both are carried out or both are refused at the same action for the same
reason, and the trees they leave have the same shell. What the trial run has
created is without elements, what the other has created holds zeros and empty
lists only.
-/
theorem preflight_simulates_execute (b : Batch) (h : t.WellFormed) (h' : t'.WellFormed)
    (hshell : t.shell = t'.shell) :
    (b.apply .preflight t).1 = (b.apply .execute t').1 ∧
      (b.apply .preflight t).2.shell = (b.apply .execute t').2.shell ∧
      (∀ id o, t.object? id = none → (b.apply .preflight t).2.object? id = some o →
        o.body.Fresh .preflight) ∧
      ∀ id o, t'.object? id = none → (b.apply .execute t').2.object? id = some o →
        o.body.Fresh .execute := by
  have hfresh : ∀ {mode : Mode} {t : Tree}, t.WellFormed → ∀ id o, t.object? id = none →
      (b.apply mode t).2.object? id = some o → o.body.Fresh mode := by
    intro mode t h id o hnone ho
    obtain ⟨done, u, hc, hu⟩ : ∃ done u, Carries mode done t u ∧ (b.apply mode t).2 = u := by
      rcases apply_spec mode b h with ⟨u, heq, hc⟩ | ⟨done, _, _, _, u, heq, _, hc, _⟩
      · exact ⟨b, u, hc, by rw [heq]⟩
      · exact ⟨done, u, hc, by rw [heq]⟩
    rw [hu] at ho
    refine hc.bodiesFrom (n := t.nextId) h ?_ id o ?_ ho
    · intro i p hi hp
      exact absurd (h.numbered hp) (Nat.not_lt.mpr hi)
    · by_contra hlt
      obtain ⟨p, hp⟩ := (hc.grows h).old ho (Nat.lt_of_not_le hlt)
      rw [hnone] at hp
      cases hp
  obtain ⟨hresult, htree⟩ := @applyFrom_alike .preflight .execute t t' 0 b hshell
  exact ⟨hresult, htree, hfresh h, hfresh h'⟩

/-- A cloud of points and its shell: an array is created in the vertex data, which is resized. -/
theorem preflight_simulates_execute_cloud :
    let b : Batch := [.createArray ⟨["cloud", "data", "a"]⟩ .float32 [2] [1],
      .resizeMatrix ⟨["cloud", "data"]⟩ [5]]
    Tree.cloud.shell.WellFormed ∧ Tree.cloud.WellFormed ∧
      Tree.cloud.shell.shell = Tree.cloud.shell ∧
      (b.apply .preflight Tree.cloud.shell).1 = (b.apply .execute Tree.cloud).1 ∧
      (b.apply .preflight Tree.cloud.shell).2.shell = (b.apply .execute Tree.cloud).2.shell := by
  intro b
  have h := Tree.wellFormed_cloud
  have hsame := preflight_simulates_execute b h.shell h Tree.shell_shell
  exact ⟨h.shell, h, Tree.shell_shell, hsame.1, hsame.2.1⟩

end Batch

end FilterTree
