import FilterTree.Proofs.Relocate

/-!
# Removing

An object goes together with everything below it, and what that is is found by
walking down to a depth that the number of objects bounds. Below an object is
what names lead to from it (`Below`); the walk collects exactly that, since no
walk is longer than there are objects (`mem_subtree_iff`).

What stays is closed in both directions: the parent of an object that stays
stays, and so does every child but the removed object. Hence the links that
remain agree, and a geometry that stays keeps what is in its slots, except for
the removed object, which was taken out of them.
-/

namespace FilterTree

open Links

namespace Tree

variable {t : Tree} {id : ObjectId}

/-! ## Below an object -/

/-- An object is below another, or the same. -/
def Below (t : Tree) (id i : ObjectId) : Prop :=
  ∃ names, t.links.walk (some id) names = some (some i)

theorem Below.refl : t.Below id id := ⟨[], rfl⟩

theorem Below.child {i j : ObjectId} {name : String} (h : t.Below id i)
    (hj : t.links (some i) name = some j) : t.Below id j := by
  obtain ⟨names, hnames⟩ := h
  exact ⟨names ++ [name], walk_concat_eq_some.mpr ⟨_, j, hnames, hj, rfl⟩⟩

/-- What is below an object is the object or has its parent below it. -/
theorem Below.parent (h : Linked t) {i : ObjectId} {place : Option ObjectId} {name : String}
    (hb : t.Below id i) (hi : t.links place name = some i) :
    i = id ∨ ∃ p, place = some p ∧ t.Below id p := by
  obtain ⟨names, hnames⟩ := hb
  rcases List.eq_nil_or_concat names with rfl | ⟨xs, n, rfl⟩
  · cases hnames
    exact .inl rfl
  · rw [List.concat_eq_append, walk_concat_eq_some] at hnames
    obtain ⟨q, j, hq, hj, heq⟩ := hnames
    cases heq
    obtain ⟨rfl, rfl⟩ := h.single hi hj
    cases place with
    | some p => exact .inr ⟨p, rfl, xs, hq⟩
    | none =>
        cases xs with
        | nil => cases hq
        | cons x xs => exact absurd hq (walk_ne_top (List.cons_ne_nil x xs))

theorem mem_subtree_of_fuel (h : Linked t) {fuel : Nat} {id i : ObjectId} (hid : t.Has (some id)) :
    i ∈ t.subtree fuel id ↔
      ∃ names, names.length < fuel ∧ t.links.walk (some id) names = some (some i) := by
  induction fuel generalizing id with
  | zero => simp [subtree]
  | succ fuel ih =>
      obtain ⟨o, ho⟩ := hid
      simp only [subtree, ho, List.mem_cons, List.mem_flatMap, SortedMap.mem_values_iff]
      have hchild : ∀ {c : ObjectId} {name : String},
          o.children.get? name = some c ↔ t.links (some id) name = some c := by
        intro c name
        rw [links, ho]
        rfl
      constructor
      · rintro (rfl | ⟨c, ⟨name, hc⟩, hmem⟩)
        · exact ⟨[], Nat.succ_pos _, rfl⟩
        · rw [hchild] at hc
          obtain ⟨c', hc', -⟩ := h.stored hc
          obtain ⟨names, hlen, hwalk⟩ := (ih ⟨c', hc'⟩).mp hmem
          refine ⟨name :: names, Nat.succ_lt_succ hlen, ?_⟩
          rw [walk_cons, hc]
          exact hwalk
      · rintro ⟨_ | ⟨name, names⟩, hlen, hwalk⟩
        · cases hwalk
          exact .inl rfl
        · rw [walk_cons, Option.bind_eq_some_iff] at hwalk
          obtain ⟨c, hc, hwalk⟩ := hwalk
          obtain ⟨c', hc', -⟩ := h.stored hc
          exact .inr ⟨c, ⟨name, hchild.mpr hc⟩,
            (ih ⟨c', hc'⟩).mpr ⟨names, Nat.lt_of_succ_lt_succ hlen, hwalk⟩⟩

/-- The subtree of an object is what is below it. -/
theorem mem_subtree_iff (h : Linked t) {i : ObjectId} (hid : t.Has (some id)) :
    i ∈ t.subtree t.size id ↔ t.Below id i := by
  rw [mem_subtree_of_fuel h hid]
  refine ⟨fun ⟨names, _, hwalk⟩ => ⟨names, hwalk⟩, fun ⟨names, hwalk⟩ => ⟨names, ?_, hwalk⟩⟩
  -- the way to the object takes at least one name
  obtain ⟨o, ho⟩ := hid
  obtain ⟨path, hpath⟩ := h.reached ho
  rw [idOf?_eq_some] at hpath
  have hlong : t.links.walk none (path.names ++ names) = some (some i) := by
    rw [walk_append, hpath]
    exact hwalk
  have hle := h.length_le_size hlong
  have hpos : path.names ≠ [] := by
    intro hnil
    rw [hnil] at hpath
    cases hpath
  have := List.length_pos_iff.mpr hpos
  rw [List.length_append] at hle
  omega

/-! ## An object taken away -/

/-- The tree without some objects, and with a name taken off a list. -/
def prune (t : Tree) (place : Option ObjectId) (name : String) (gone : List ObjectId) : Tree :=
  let rest := t.detachName place name
  { rest with objects := rest.objects.filter fun i _ => !gone.contains i }

variable {place : Option ObjectId} {name : String} {gone : List ObjectId}

theorem object?_prune {i : ObjectId} :
    (t.prune place name gone).object? i =
      if i ∈ gone then none else (t.detachName place name).object? i := by
  rw [prune, object?, SortedMap.get?_filter]
  split
  · next h => simp [h]
  · next h =>
      rw [object?]
      cases (t.detachName place name).objects.get? i <;> simp [h]

theorem prune_eq_some {i : ObjectId} {o : Object}
    (ho : (t.prune place name gone).object? i = some o) :
    i ∉ gone ∧ ∃ p, t.object? i = some p ∧ o.name = p.name ∧ o.parent = p.parent ∧
      o.body = p.body ∧ (p.children = .empty → o.children = .empty) := by
  rw [object?_prune] at ho
  split at ho
  · cases ho
  · next hi =>
      refine ⟨hi, ?_⟩
      rw [detachName, object?_modifyChildren] at ho
      split at ho
      · obtain ⟨p, hp, rfl⟩ := Option.map_eq_some_iff.mp ho
        refine ⟨p, hp, rfl, rfl, rfl, fun hempty => ?_⟩
        dsimp only
        rw [hempty]
        rfl
      · exact ⟨o, ho, rfl, rfl, rfl, fun hempty => hempty⟩

theorem object?_prune_of_some {i : ObjectId} {p : Object} (hp : t.object? i = some p)
    (hi : i ∉ gone) :
    ∃ o, (t.prune place name gone).object? i = some o ∧ o.name = p.name ∧ o.parent = p.parent ∧
      o.body = p.body := by
  obtain ⟨o, ho⟩ : ∃ o, (t.prune place name gone).object? i = some o := by
    rw [object?_prune, if_neg hi, detachName, object?_modifyChildren, hp]
    split <;> exact ⟨_, rfl⟩
  obtain ⟨-, p', hp', hname, hparent, hbody, -⟩ := prune_eq_some ho
  cases Option.some.inj (hp.symm.trans hp')
  exact ⟨o, ho, hname, hparent, hbody⟩

theorem links_prune {p : Option ObjectId} {n : String} :
    (t.prune place name gone).links p n =
      if ∃ i ∈ gone, p = some i then none else t.links.set place name none p n := by
  rw [← links_detachName]
  cases p with
  | none => simp [links, prune]
  | some i =>
      rw [links, object?_prune]
      by_cases hi : i ∈ gone
      · simp [hi]
      · simp [hi, links]

/-- What has to hold so that an object can be taken away: no geometry names it. -/
structure Prunable (t : Tree) (id : ObjectId) (o : Object) (gone : List ObjectId) : Prop where
  found : t.object? id = some o
  mem_gone : ∀ i, i ∈ gone ↔ t.Below id i
  released : ∀ {i p g}, t.object? i = some p → p.body = .geometry g →
    g.elementData ≠ some id ∧ g.coordinates ≠ some id

namespace Prunable

variable {o : Object}

theorem links_eq_some (hp : t.Prunable id o gone) (h : Linked t) {p : Option ObjectId} {n : String}
    {i : ObjectId} (hi : (t.prune o.parent o.name gone).links p n = some i) :
    t.links p n = some i ∧ i ∉ gone := by
  rw [links_prune] at hi
  split at hi
  · cases hi
  · next hstays =>
      have hold := set_none_le hi
      refine ⟨hold, fun hgone => ?_⟩
      rcases Below.parent h ((hp.mem_gone i).mp hgone) hold with rfl | ⟨q, rfl, hq⟩
      · obtain ⟨rfl, rfl⟩ := h.single hold (h.listed hp.found)
        rw [set_self] at hi
        cases hi
      · exact hstays ⟨q, (hp.mem_gone q).mpr hq, rfl⟩

theorem links_of_stays (hp : t.Prunable id o gone) (h : Linked t) {p : Option ObjectId} {n : String}
    {i : ObjectId} (hi : t.links p n = some i) (hstays : i ∉ gone) :
    (t.prune o.parent o.name gone).links p n = some i := by
  rw [links_prune, if_neg, set_of_ne, hi]
  · rintro ⟨rfl, rfl⟩
    rw [h.listed hp.found] at hi
    cases hi
    exact hstays ((hp.mem_gone id).mpr .refl)
  · rintro ⟨q, hq, rfl⟩
    exact hstays ((hp.mem_gone i).mpr (((hp.mem_gone q).mp hq).child hi))

/-- The way to an object that stays, stays. -/
theorem walk_of_stays (hp : t.Prunable id o gone) (h : Linked t) {names : List String}
    {i : ObjectId} (hi : t.links.walk none names = some (some i)) (hstays : i ∉ gone) :
    (t.prune o.parent o.name gone).links.walk none names = some (some i) := by
  induction names using List.reverseRecOn generalizing i with
  | nil => cases hi
  | append_singleton names n ih =>
      rw [walk_concat_eq_some] at hi ⊢
      obtain ⟨q, j, hq, hj, heq⟩ := hi
      cases heq
      refine ⟨q, i, ?_, hp.links_of_stays h hj hstays, rfl⟩
      cases q with
      | none =>
          cases names with
          | nil => rfl
          | cons x xs => exact absurd hq (walk_ne_top (List.cons_ne_nil x xs))
      | some q =>
          refine ih hq fun hgone => hstays ?_
          exact (hp.mem_gone i).mpr (((hp.mem_gone q).mp hgone).child hj)

/-- What is found afterwards was found before and stays. -/
theorem walk_eq_some (hp : t.Prunable id o gone) (h : Linked t) {names : List String}
    {i : ObjectId} : (t.prune o.parent o.name gone).links.walk none names = some (some i) ↔
      t.links.walk none names = some (some i) ∧ i ∉ gone := by
  refine ⟨fun hi => ⟨walk_mono (fun hlink => (hp.links_eq_some h hlink).1) hi, ?_⟩,
    fun ⟨hi, hstays⟩ => hp.walk_of_stays h hi hstays⟩
  rcases List.eq_nil_or_concat names with rfl | ⟨xs, n, rfl⟩
  · cases hi
  · rw [List.concat_eq_append, walk_concat_eq_some] at hi
    obtain ⟨q, j, -, hj, heq⟩ := hi
    cases heq
    exact (hp.links_eq_some h hj).2

end Prunable

theorem Linked.prune {o : Object} (h : Linked t) (hp : t.Prunable id o gone) :
    Linked (t.prune o.parent o.name gone) where
  listed := fun hi => by
    obtain ⟨hstays, p, hold, hname, hparent, -⟩ := prune_eq_some hi
    rw [hname, hparent]
    exact hp.links_of_stays h (h.listed hold) hstays
  stored := fun hi => by
    obtain ⟨hold, hstays⟩ := hp.links_eq_some h hi
    obtain ⟨p, hp, hparent, hname⟩ := h.stored hold
    obtain ⟨o', ho', hname', hparent', -⟩ := object?_prune_of_some hp hstays
    exact ⟨o', ho', hparent'.trans hparent, hname'.trans hname⟩
  reached := fun hi => by
    obtain ⟨hstays, p, hold, -⟩ := prune_eq_some hi
    obtain ⟨path, hpath⟩ := h.reached hold
    exact ⟨path, idOf?_eq_some.mpr (hp.walk_of_stays h (idOf?_eq_some.mp hpath) hstays)⟩

/-- Taking an object away with all that is below it keeps the tree well-formed. -/
theorem WellFormed.prune {o : Object} (h : WellFormed t) (hp : t.Prunable id o gone) :
    WellFormed (t.prune o.parent o.name gone) where
  toLinked := h.toLinked.prune hp
  numbered := fun hi => by
    obtain ⟨-, p, hold, -⟩ := prune_eq_some hi
    show _ < (t.detachName o.parent o.name).nextId
    rw [detachName, nextId_modifyChildren]
    exact h.numbered hold
  named := fun hi => by
    obtain ⟨-, p, hold, hname, -⟩ := prune_eq_some hi
    rw [hname]
    exact h.named hold
  leaf := fun hi hleaf => by
    obtain ⟨-, p, hold, -, -, hbody, hchildren⟩ := prune_eq_some hi
    rw [Object.kind, hbody] at hleaf
    exact hchildren (h.leaf hold hleaf)
  sound := fun hi => by
    obtain ⟨-, p, hold, -, -, hbody, -⟩ := prune_eq_some hi
    rw [hbody]
    exact h.sound hold
  fitting := fun hi hmatrix hchild hq => by
    obtain ⟨-, p, hold, -, -, hbody, -⟩ := prune_eq_some hi
    obtain ⟨-, c, hc, -, -, hbody', -⟩ := prune_eq_some hq
    rw [hbody']
    exact h.fitting hold (hbody.symm.trans hmatrix) (hp.links_eq_some h.toLinked hchild).1 hc
  slotted := fun {i _ g} hi hgeometry => by
    obtain ⟨hstays, p, hold, -, -, hbody, -⟩ := prune_eq_some hi
    rw [hbody] at hgeometry
    refine (h.slotted hold hgeometry).mono fun {m c} hnamed hc hparent => ?_
    have hm : m ∉ gone := by
      intro hgone
      rcases Below.parent h.toLinked ((hp.mem_gone m).mp hgone) (h.listed hc) with rfl | ⟨q, hq, hb⟩
      · obtain ⟨he, hl⟩ := hp.released hold hgeometry
        exact hnamed.elim he hl
      · cases hparent.symm.trans hq
        exact hstays ((hp.mem_gone i).mpr hb)
    obtain ⟨c', hc', -, hparent', hbody'⟩ := object?_prune_of_some hc hm
    exact ⟨c', hc', hparent'.trans hparent, hbody'⟩

/-- An object can be taken away once its parent has let go of it. -/
theorem WellFormed.prunable (h : WellFormed t) {id : ObjectId} {o : Object}
    (ho : t.object? id = some o) :
    (t.release o.parent id).Prunable id o (t.subtree t.size id) where
  found := object?_release_self h.toLinked ho
  mem_gone := fun i => by
    rw [mem_subtree_iff h.toLinked ⟨o, ho⟩, Below, Below, links_release]
  released := fun hp hg => h.released ho hp hg

end Tree

namespace Edit

open FilterTree.Tree

variable {t u : Tree} {path : Path} {n : Nat}

/-- What removing an object comes to. -/
theorem remove_on {id : ObjectId} {o : Object} (hid : t.idOf? path = some id)
    (ho : t.object? id = some o) :
    (remove path).on t =
      let u := (t.release o.parent id).prune o.parent o.name (t.subtree t.size id)
      (.ok (t.size - u.size), u) := by
  have hroot : ¬ path.isRoot = true := fun hroot =>
    names_ne_nil hid (List.isEmpty_iff.mp hroot)
  simp only [remove, if_neg hroot, on_ask_bind, resolve_eq_ok.mpr hid, on_get_bind]
  rw [detach_eq ho]
  rfl

/-- A removal is carried out if the path leads to an object. -/
theorem remove_eq_ok_iff (h : Linked t) :
    (remove path).on t = (.ok n, u) ↔
      ∃ id o, t.idOf? path = some id ∧ t.object? id = some o ∧
        u = (t.release o.parent id).prune o.parent o.name (t.subtree t.size id) ∧
        n = t.size - u.size := by
  constructor
  · intro hok
    have hsteps := hok
    rw [remove] at hsteps
    split at hsteps
    · cases hsteps
    · dsimp only at hsteps
      rw [ask_bind_eq_ok] at hsteps
      obtain ⟨id, hid, -⟩ := hsteps
      rw [resolve_eq_ok] at hid
      obtain ⟨o, ho⟩ := h.object_of_idOf? hid
      rw [remove_on hid ho] at hok
      cases hok
      exact ⟨id, o, hid, ho, rfl, rfl⟩
  · rintro ⟨id, o, hid, ho, rfl, rfl⟩
    exact remove_on hid ho

/-- A removal that is carried out takes away the object at the path and what is below it. -/
theorem remove_eq_ok (h : WellFormed t) (hok : (remove path).on t = (.ok n, u)) :
    ∃ id o, t.idOf? path = some id ∧
      (t.release o.parent id).Prunable id o (t.subtree t.size id) ∧
      u = (t.release o.parent id).prune o.parent o.name (t.subtree t.size id) := by
  obtain ⟨id, o, hid, ho, rfl, -⟩ := (remove_eq_ok_iff h.toLinked).mp hok
  exact ⟨id, o, hid, h.prunable ho, rfl⟩

theorem remove_allOrNothing : (remove path).AllOrNothing t := by
  refine .ite (fun _ => .throw) fun _ => .ask_bind fun id _ => ?_
  exact Succeeds.allOrNothing ⟨_, _, rfl⟩

end Edit

end FilterTree
