import FilterTree.Proofs.Frame

/-!
# Trees without elements

The shell of a tree is the tree with the elements of every array and every list
left out, whether they were allocated or not. Two trees agree in everything but
their elements when their shells are equal, and that is the notion by which a
trial run is compared with the run for good.

Being well-formed is a matter of the shell, except that the elements that are
there have to be as many as the shapes say (`WellFormed.of_shell`).
-/

namespace FilterTree

/-- The array without its elements. -/
def DataArray.shell (a : DataArray) : DataArray := { a with store := a.store.shell }

/-- The list without its lists. -/
def NeighborList.shell (l : NeighborList) : NeighborList := { l with store := l.store.shell }

namespace Body

/-- The body without elements. -/
def shell : Body → Body
  | array a => array a.shell
  | list l => list l.shell
  | group => group
  | matrix shape => matrix shape
  | geometry g => geometry g

@[simp] theorem kind_shell {b : Body} : b.shell.kind = b.kind := by cases b <;> rfl

@[simp] theorem tupleShape?_shell {b : Body} : b.shell.tupleShape? = b.tupleShape? := by
  cases b <;> rfl

@[simp] theorem shell_shell {b : Body} : b.shell.shell = b.shell := by cases b <;> rfl

@[simp] theorem shell_forget {b : Body} {id : ObjectId} :
    (b.forget id).shell = b.shell.forget id := by
  cases b <;> rfl

theorem hasTuples_shell {b : Body} {shape : Shape} :
    b.shell.HasTuples shape ↔ b.HasTuples shape := by
  cases b <;> rfl

theorem hasCoordinates_shell {b : Body} {shape : Shape} :
    b.shell.HasCoordinates shape ↔ b.HasCoordinates shape := by
  cases b <;> rfl

theorem shell_eq_matrix {b : Body} {shape : Shape} :
    b.shell = .matrix shape ↔ b = .matrix shape := by
  cases b <;> simp [shell]

theorem shell_eq_geometry {b : Body} {g : Geometry} : b.shell = .geometry g ↔ b = .geometry g := by
  cases b <;> simp [shell]

theorem Sound.shell {b : Body} (h : b.Sound) : b.shell.Sound := by
  cases b with
  | array a => exact ⟨h.counted, fun hrow => nomatch hrow⟩
  | list l => exact ⟨h.counted, fun hlists => nomatch hlists⟩
  | group | matrix _ | geometry _ => exact h

end Body

/-- The object with its body without elements. -/
def Object.shell (o : Object) : Object := { o with body := o.body.shell }

@[simp] theorem Object.kind_shell {o : Object} : o.shell.kind = o.kind := Body.kind_shell

namespace Tree

variable {t u : Tree}

/-- The tree without elements. -/
def shell (t : Tree) : Tree := t.mapBodies fun _ b => b.shell

theorem object?_shell {i : ObjectId} :
    t.shell.object? i = (t.object? i).map Object.shell :=
  object?_mapBodies

theorem object?_shell_of_some {i : ObjectId} {o : Object} (ho : t.object? i = some o) :
    t.shell.object? i = some o.shell := object?_mapBodies_of_some ho

@[simp] theorem links_shell : t.shell.links = t.links := links_mapBodies

@[simp] theorem nextId_shell : t.shell.nextId = t.nextId := rfl

@[simp] theorem idOf?_shell {path : Path} : t.shell.idOf? path = t.idOf? path := idOf?_mapBodies

@[simp] theorem shell_shell : t.shell.shell = t.shell := by
  rw [shell, shell, mapBodies_mapBodies]
  simp

/-- An object of one of two trees with the same shell, as an object of the other. -/
theorem eq_some_of_shell_eq (h : t.shell = u.shell) {i : ObjectId} {o : Object}
    (ho : t.object? i = some o) :
    ∃ p, u.object? i = some p ∧ p.name = o.name ∧ p.parent = o.parent ∧ p.children = o.children ∧
      p.body.shell = o.body.shell := by
  have hshell := object?_shell_of_some ho
  rw [h] at hshell
  obtain ⟨p, hp, heq⟩ := mapBodies_eq_some hshell
  obtain ⟨hname, hparent, hchildren, hbody⟩ := Object.mk.inj heq
  exact ⟨p, hp, hname.symm, hparent.symm, hchildren.symm, hbody.symm⟩

theorem links_eq_of_shell_eq (h : t.shell = u.shell) : t.links = u.links := by
  rw [← links_shell, h, links_shell]

/-- Slots look at nothing that is left out of a shell. -/
theorem Slotted.of_shell_eq (h : t.shell = u.shell) {i : ObjectId} {g : Geometry}
    (hs : t.Slotted i g) : u.Slotted i g where
  element := fun hm => by
    obtain ⟨o, ho, hparent, hbody⟩ := hs.element hm
    obtain ⟨p, hp, -, hparent', -, hbody'⟩ := eq_some_of_shell_eq h ho
    rw [hbody] at hbody'
    exact ⟨p, hp, hparent'.trans hparent, Body.shell_eq_matrix.mp hbody'⟩
  coordinates := fun hl => by
    obtain ⟨o, ho, hparent, hbody⟩ := hs.coordinates hl
    obtain ⟨p, hp, -, hparent', -, hbody'⟩ := eq_some_of_shell_eq h ho
    refine ⟨p, hp, hparent'.trans hparent, ?_⟩
    rw [← Body.hasCoordinates_shell, hbody', Body.hasCoordinates_shell]
    exact hbody

/-- What agrees with a well-formed tree but for its elements is well-formed if they are sound. -/
theorem WellFormed.of_shell_eq (h : WellFormed t) (hshell : t.shell = u.shell)
    (hsound : ∀ {i o}, u.object? i = some o → o.body.Sound) : WellFormed u where
  listed := fun ho => by
    obtain ⟨p, hp, hname, hparent, -⟩ := eq_some_of_shell_eq hshell.symm ho
    rw [← links_eq_of_shell_eq hshell, ← hname, ← hparent]
    exact h.listed hp
  stored := fun hid => by
    rw [← links_eq_of_shell_eq hshell] at hid
    obtain ⟨o, ho, hparent, hname⟩ := h.stored hid
    obtain ⟨p, hp, hname', hparent', -⟩ := eq_some_of_shell_eq hshell ho
    exact ⟨p, hp, hparent'.trans hparent, hname'.trans hname⟩
  reached := fun ho => by
    obtain ⟨p, hp, -⟩ := eq_some_of_shell_eq hshell.symm ho
    obtain ⟨path, hpath⟩ := h.reached hp
    exact ⟨path, by rw [← idOf?_shell, ← hshell, idOf?_shell, hpath]⟩
  numbered := fun ho => by
    obtain ⟨p, hp, -⟩ := eq_some_of_shell_eq hshell.symm ho
    rw [← nextId_shell, ← hshell, nextId_shell]
    exact h.numbered hp
  named := fun ho => by
    obtain ⟨p, hp, hname, -⟩ := eq_some_of_shell_eq hshell.symm ho
    rw [← hname]
    exact h.named hp
  leaf := fun ho hleaf => by
    obtain ⟨p, hp, -, -, hchildren, hbody⟩ := eq_some_of_shell_eq hshell.symm ho
    rw [← hchildren]
    refine h.leaf hp ?_
    rw [Object.kind, ← Body.kind_shell, hbody, Body.kind_shell]
    exact hleaf
  sound := hsound
  fitting := fun ho hmatrix hchild hp => by
    obtain ⟨o', ho', -, -, -, hbody⟩ := eq_some_of_shell_eq hshell.symm ho
    obtain ⟨p', hp', -, -, -, hbody'⟩ := eq_some_of_shell_eq hshell.symm hp
    rw [← links_eq_of_shell_eq hshell] at hchild
    rw [hmatrix] at hbody
    rw [← Body.hasTuples_shell, ← hbody', Body.hasTuples_shell]
    exact h.fitting ho' (Body.shell_eq_matrix.mp hbody) hchild hp'
  slotted := fun ho hg => by
    obtain ⟨o', ho', -, -, -, hbody⟩ := eq_some_of_shell_eq hshell.symm ho
    rw [hg] at hbody
    exact (h.slotted ho' (Body.shell_eq_geometry.mp hbody)).of_shell_eq hshell

/-- The shell of a well-formed tree is well-formed. -/
theorem WellFormed.shell (h : WellFormed t) : WellFormed t.shell := by
  refine h.of_shell_eq shell_shell.symm fun ho => ?_
  obtain ⟨p, hp, rfl⟩ := mapBodies_eq_some ho
  exact (h.sound hp).shell

/-- A body of the same shape leaves the shell as it is. -/
theorem shell_setBody {id : ObjectId} {o : Object} {b : Body} (ho : t.object? id = some o)
    (hshell : b.shell = o.body.shell) : (t.setBody id b).shell = t.shell := by
  rw [setBody_eq, Tree.shell, Tree.shell, mapBodies_mapBodies]
  refine ext_object? (fun i => ?_) rfl rfl
  rw [object?_mapBodies, object?_mapBodies]
  by_cases hi : i = id
  · subst hi
    rw [ho]
    simp [hshell]
  · simp [hi]

/-- Elements may be replaced by others, as long as the shapes stay and are respected. -/
theorem WellFormed.setBody (h : WellFormed t) {id : ObjectId} {o : Object} {b : Body}
    (ho : t.object? id = some o) (hshell : b.shell = o.body.shell) (hb : b.Sound) :
    WellFormed (t.setBody id b) := by
  refine h.of_shell_eq (shell_setBody ho hshell).symm fun {i p} hp => ?_
  rw [object?_setBody] at hp
  obtain ⟨q, hq, rfl⟩ := Option.map_eq_some_iff.mp hp
  dsimp only
  split
  · exact hb
  · exact h.sound hq

end Tree

end FilterTree
