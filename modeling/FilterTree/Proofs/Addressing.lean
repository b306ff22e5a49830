import FilterTree.Proofs.Audit
import FilterTree.Proofs.ByteOrder
import Mathlib.Data.List.Nodup
import Mathlib.Logic.Function.Iterate

/-!
# Addresses in an audited tree

An audit looks at links one at a time and at nothing that is far away. Still, a
tree that it accepts is a tree in which every object has exactly one path, the
path leads back to it, and listing the tree shows each object once.

Two things carry this from the single links to the whole. The walk up from an
object ended, or the audit had complained; each of its steps is confirmed by the
parent, so read backwards it is a walk down from the top (`walk_of_ancestry`).
This is where a cycle is excluded: the walk up may take no more steps than there
are objects, and a walk that ends is a path. So the links of an audited tree
agree (`linked_of_audit`), and all that is known of such links applies.

The listing works on a stack of objects that wait to be listed. What it will
list is what has been listed and, for each waiting object, all that lies below
it; a step moves one object from the second part to the first (`step_spec`). So
it ends after as many steps as there are objects, and the order in which it
lists is that of the paths, since a child's path extends its parent's and
siblings wait in the order of their names.
-/

namespace FilterTree.Tree

open Links

variable {t : Tree}

/-! ## What an audit that accepts has seen -/

theorem of_auditRoot {name : String} {id : ObjectId} (h : t.auditRoot name id = .ok ()) :
    ∃ o, t.object? id = some o ∧ o.parent = none ∧ o.name = name := by
  rw [auditRoot] at h
  cases ho : t.object? id with
  | none =>
      rw [ho] at h
      cases h
  | some o =>
      simp only [ho] at h
      split at h
      · cases h
      · next hok =>
          simp only [Bool.or_eq_true, bne_iff_ne, ne_eq, not_or, Bool.not_eq_true,
            Option.isSome_eq_false_iff, Option.isNone_iff_eq_none, not_not] at hok
          exact ⟨o, rfl, hok.1, hok.2⟩

theorem of_auditParent {id : ObjectId} {o : Object} (h : t.auditParent id o = .ok ()) :
    t.links o.parent o.name = some id := by
  rw [auditParent] at h
  cases hparent : o.parent with
  | none =>
      simp only [hparent] at h
      split at h
      · next hroot => exact hroot
      · cases h
  | some p =>
      simp only [hparent] at h
      split at h
      · next hlisted =>
          rw [links]
          cases hp : t.object? p with
          | none => simp [hp] at hlisted
          | some q => simpa [hp] using hlisted
      · cases h

theorem of_auditChild {id child : ObjectId} {o : Object} {name : String}
    (h : t.auditChild id o name child = .ok ()) :
    ∃ c, t.object? child = some c ∧ c.parent = some id ∧ c.name = name := by
  rw [auditChild] at h
  cases hc : t.object? child with
  | none =>
      rw [hc] at h
      cases h
  | some c =>
      simp only [hc] at h
      split at h
      · cases h
      · next hok =>
          rw [not_or, not_not, not_not] at hok
          exact ⟨c, rfl, hok⟩

theorem of_auditObject {id : ObjectId} {o : Object} (h : t.auditObject id o = .ok ()) :
    t.auditParent id o = .ok () ∧ (∀ e ∈ o.children.entries, t.auditChild id o e.1 e.2 = .ok ()) ∧
      (t.pathOf? id).isSome := by
  rw [auditObject.eq_def] at h
  simp only [check_then_eq_ok] at h
  obtain ⟨-, hparent, h⟩ := h
  split at h
  · obtain ⟨hbad, -⟩ := check_then_eq_ok.mp h
    cases hbad
  · simp only [check_then_eq_ok] at h
    obtain ⟨hchildren, -, hpath⟩ := h
    refine ⟨hparent, check_forM_eq_ok.mp hchildren, ?_⟩
    split at hpath
    · cases hpath
    · next hsome => simpa [Option.isSome_iff_ne_none] using hsome

/-! ## From single links to paths -/

/-- Where every object is listed by its parent, the walk up from an object is a walk down to it. -/
theorem walk_of_ancestry
    (hlisted : ∀ {id o}, t.object? id = some o → t.links o.parent o.name = some id)
    {fuel : Nat} {id : ObjectId} {names : List String} (h : t.ancestry fuel id = some names) :
    t.links.walk none names.reverse = some (some id) := by
  induction fuel generalizing id names with
  | zero => cases h
  | succ fuel ih =>
      rw [ancestry] at h
      simp only [Option.bind_eq_bind, Option.bind_eq_some_iff] at h
      obtain ⟨o, ho, h⟩ := h
      have hlast := hlisted ho
      cases hparent : o.parent with
      | none =>
          rw [hparent] at hlast
          simp only [hparent, Option.some.injEq] at h
          subst h
          rw [List.reverse_singleton, walk_cons, hlast]
          rfl
      | some p =>
          rw [hparent] at hlast
          simp only [hparent, Option.map_eq_some_iff] at h
          obtain ⟨above, habove, rfl⟩ := h
          rw [List.reverse_cons, walk_concat_eq_some]
          exact ⟨some p, id, ih habove, hlast, rfl⟩

theorem linked_of_audit (h : t.audit = .ok ()) : Linked t := by
  rw [audit, check_then_eq_ok, check_forM_eq_ok, check_forM_eq_ok] at h
  obtain ⟨hroots, hobjects⟩ := h
  have hobject : ∀ {id o}, t.object? id = some o → t.auditObject id o = .ok () :=
    fun {id o} ho => hobjects (id, o) (SortedMap.get?_eq_some_iff.mp ho)
  have hlisted : ∀ {id o}, t.object? id = some o → t.links o.parent o.name = some id :=
    fun ho => of_auditParent (of_auditObject (hobject ho)).1
  refine ⟨hlisted, ?_, ?_⟩
  · intro place name id hid
    cases place with
    | none =>
        exact of_auditRoot (hroots (name, id) (SortedMap.get?_eq_some_iff.mp hid))
    | some p =>
        rw [links, Option.bind_eq_some_iff] at hid
        obtain ⟨q, hq, hid⟩ := hid
        have hchildren := (of_auditObject (hobject hq)).2.1
        exact of_auditChild (hchildren (name, id) (SortedMap.get?_eq_some_iff.mp hid))
  · intro id o ho
    obtain ⟨path, hpath⟩ := Option.isSome_iff_exists.mp (of_auditObject (hobject ho)).2.2
    rw [pathOf?, Option.map_eq_some_iff] at hpath
    obtain ⟨names, hnames, -⟩ := hpath
    exact ⟨_, idOf?_of_walk (walk_of_ancestry hlisted hnames)⟩

/-- Walking down and walking up are inverse to each other. -/
theorem Linked.idOf?_iff (h : Linked t) {path : Path} {id : ObjectId} :
    t.idOf? path = some id ↔ t.pathOf? id = some path := by
  refine ⟨pathOf?_eq_some h, fun hpath => ?_⟩
  have hup := hpath
  rw [pathOf?, Option.map_eq_some_iff] at hup
  obtain ⟨names, hnames, rfl⟩ := hup
  exact idOf?_of_walk (walk_of_ancestry h.listed hnames)

/-! ## What the listing lists -/

theorem prefix_of_mem_listingBelow {fuel : Nat} {path : Path} {id : ObjectId}
    {e : Path × ObjectKind} (h : e ∈ t.listingBelow fuel path id) :
    path.names <+: e.1.names := by
  induction fuel generalizing path id with
  | zero => cases h
  | succ fuel ih =>
      rw [listingBelow] at h
      split at h
      · cases h
      · rcases List.mem_cons.mp h with rfl | h
        · exact List.prefix_rfl
        · obtain ⟨⟨name, child⟩, -, h⟩ := List.mem_flatMap.mp h
          exact (List.prefix_append path.names [name]).trans (ih h)

/-- The entries of an object's children are the objects found below it. -/
theorem mem_children_iff {path : Path} {id : ObjectId} {o : Object} (hid : t.idOf? path = some id)
    (ho : t.object? id = some o) {e : String × ObjectId} :
    e ∈ o.children.entries ↔ t.idOf? (path.child e.1) = some e.2 := by
  rw [idOf?_eq_some, Path.child, walk_concat, idOf?_eq_some.mp hid, Option.bind_some, links, ho,
    Option.bind_some, ← SortedMap.get?_eq_some_iff]
  cases o.children.get? e.1 <;> simp

theorem mem_roots_iff {e : String × ObjectId} :
    e ∈ t.roots.entries ↔ t.idOf? (.single e.1) = some e.2 := by
  rw [idOf?_eq_some, Path.single, walk_cons, links, ← SortedMap.get?_eq_some_iff]
  cases t.roots.get? e.1 <;> simp

theorem mem_listingBelow (h : Linked t) {fuel : Nat} {path : Path} {id : ObjectId}
    (hid : t.idOf? path = some id) {e : Path × ObjectKind} :
    e ∈ t.listingBelow fuel path id ↔
      e.1.names.length < path.names.length + fuel ∧ path.names <+: e.1.names ∧
        ∃ i o, t.idOf? e.1 = some i ∧ t.object? i = some o ∧ e.2 = o.kind := by
  induction fuel generalizing path id with
  | zero =>
      refine ⟨fun hmem => (nomatch hmem), ?_⟩
      rintro ⟨hlen, hprefix, -⟩
      have := hprefix.length_le
      omega
  | succ fuel ih =>
      obtain ⟨o, ho⟩ := h.object_of_idOf? hid
      simp only [listingBelow, ho, List.mem_cons, List.mem_flatMap, Prod.exists]
      constructor
      · rintro (rfl | ⟨name, child, hmem, he⟩)
        · exact ⟨by simp, List.prefix_rfl, id, o, hid, ho, rfl⟩
        · obtain ⟨hlen, hprefix, hfound⟩ := (ih ((mem_children_iff hid ho).mp hmem)).mp he
          rw [Path.length_names_child] at hlen
          exact ⟨by omega, (List.prefix_append path.names [name]).trans hprefix, hfound⟩
      · rintro ⟨hlen, ⟨rest, hrest⟩, i, p, hi, hp, hkind⟩
        cases rest with
        | nil =>
            rw [List.append_nil] at hrest
            have hpath : e.1 = path := congrArg Path.mk hrest.symm
            rw [hpath, hid, Option.some.injEq] at hi
            subst hi
            rw [ho, Option.some.injEq] at hp
            subst hp
            exact .inl (Prod.ext hpath hkind)
        | cons name rest =>
            -- the walk to the object goes through a child of that name
            have hwalk := idOf?_eq_some.mp hi
            have hsplit : path.names ++ name :: rest = (path.names ++ [name]) ++ rest := by simp
            rw [← hrest, hsplit, walk_append, Option.bind_eq_some_iff] at hwalk
            obtain ⟨place, hplace, -⟩ := hwalk
            obtain ⟨_, child, -, -, rfl⟩ := walk_concat_eq_some.mp hplace
            have hfound : t.idOf? (path.child name) = some child := idOf?_of_walk hplace
            refine .inr ⟨name, child, (mem_children_iff hid ho).mpr hfound,
              (ih hfound).mpr ⟨?_, ?_, i, p, hi, hp, hkind⟩⟩
            · rw [Path.length_names_child]
              omega
            · exact ⟨rest, by rw [← hrest, hsplit]; rfl⟩

theorem mem_listing (h : Linked t) {e : Path × ObjectKind} :
    e ∈ t.listing ↔ ∃ i o, t.idOf? e.1 = some i ∧ t.object? i = some o ∧ e.2 = o.kind := by
  rw [listing, List.mem_flatMap]
  constructor
  · rintro ⟨⟨name, id⟩, hmem, he⟩
    exact ((mem_listingBelow h (mem_roots_iff.mp hmem)).mp he).2.2
  · rintro ⟨i, o, hi, ho, hkind⟩
    have hwalk := idOf?_eq_some.mp hi
    cases hnames : e.1.names with
    | nil =>
        rw [hnames] at hwalk
        cases hwalk
    | cons name rest =>
        have hlen := h.length_le_size hwalk
        rw [hnames, walk_cons, Option.bind_eq_some_iff] at hwalk
        obtain ⟨id, hid, -⟩ := hwalk
        have hroot : (name, id) ∈ t.roots.entries := SortedMap.get?_eq_some_iff.mp hid
        refine ⟨(name, id), hroot, (mem_listingBelow h (mem_roots_iff.mp hroot)).mpr
          ⟨?_, ?_, i, o, hi, ho, hkind⟩⟩
        · rw [Path.single, List.length_singleton]
          omega
        · exact ⟨rest, hnames.symm⟩

/-! ## In which order -/

theorem compare_append_left {xs ys zs : List String} :
    compare (xs ++ ys) (xs ++ zs) = compare ys zs := by
  induction xs with
  | nil => rfl
  | cons x xs ih =>
      have hx : compare x x = .eq := Std.ReflCmp.compare_self
      show List.compareLex compare (x :: (xs ++ ys)) (x :: (xs ++ zs)) = _
      rw [List.compareLex_cons_cons, hx]
      exact ih

theorem ne_of_compare_lt {p q : Path} (h : compare p q = .lt) : p ≠ q := by
  rintro rfl
  have hself : compare p.names p.names = .eq := Std.ReflCmp.compare_self
  cases hself.symm.trans h

theorem compare_lt_of_below {p q : Path} {name : String} (h : (p.child name).names <+: q.names) :
    compare p q = .lt := by
  obtain ⟨rest, hrest⟩ := h
  have hlonger : compare (p.names ++ []) (p.names ++ name :: rest) = .lt :=
    compare_append_left.trans rfl
  rw [List.append_nil] at hlonger
  show compare p.names q.names = .lt
  rwa [← hrest, Path.child, List.append_assoc, List.singleton_append]

/-- What lies below an earlier sibling comes before what lies below a later one. -/
theorem compare_lt_of_siblings {p q r : Path} {m n : String} (hmn : compare m n = .lt)
    (hq : (p.child m).names <+: q.names) (hr : (p.child n).names <+: r.names) :
    compare q r = .lt := by
  obtain ⟨qs, hqs⟩ := hq
  obtain ⟨rs, hrs⟩ := hr
  show compare q.names r.names = .lt
  rw [← hqs, ← hrs, Path.child, Path.child, List.append_assoc, List.append_assoc,
    compare_append_left]
  show List.compareLex compare (m :: qs) (n :: rs) = .lt
  rw [List.compareLex_cons_cons, hmn]
  rfl

/-- Siblings in the order of their names, each followed by what lies below it, are in order. -/
theorem pairwise_siblings {p : Path} {m : SortedMap String ObjectId} {fuel : Nat}
    (hbelow : ∀ e ∈ m.entries, (t.listingBelow fuel (p.child e.1) e.2).Pairwise
      fun a b => compare a.1 b.1 = .lt) :
    (m.entries.flatMap fun e => t.listingBelow fuel (p.child e.1) e.2).Pairwise
      fun a b => compare a.1 b.1 = .lt := by
  refine List.pairwise_flatMap.mpr ⟨hbelow, m.increasing.imp ?_⟩
  intro a b hab x hx y hy
  exact compare_lt_of_siblings hab (prefix_of_mem_listingBelow hx) (prefix_of_mem_listingBelow hy)

theorem pairwise_listingBelow {fuel : Nat} {path : Path} {id : ObjectId} :
    (t.listingBelow fuel path id).Pairwise fun a b => compare a.1 b.1 = .lt := by
  induction fuel generalizing path id with
  | zero => exact .nil
  | succ fuel ih =>
      rw [listingBelow]
      split
      · exact .nil
      · refine List.pairwise_cons.mpr ⟨?_, pairwise_siblings fun e _ => ih⟩
        intro e he
        obtain ⟨⟨name, child⟩, -, he⟩ := List.mem_flatMap.mp he
        exact compare_lt_of_below (prefix_of_mem_listingBelow he)

theorem pairwise_listing : t.listing.Pairwise fun a b => compare a.1 b.1 = .lt :=
  pairwise_siblings (p := .root) fun _ _ => pairwise_listingBelow

/-! ## How often -/

theorem length_listing (h : Linked t) : t.listing.length = t.size := by
  have hkeys : t.size = t.objects.keys.length := by
    rw [size, SortedMap.size, SortedMap.keys, List.length_map]
  have hnodup : t.listing.Nodup :=
    pairwise_listing.imp fun hlt heq => ne_of_compare_lt hlt (congrArg Prod.fst heq)
  have hids : (t.listing.map fun e => t.idOf? e.1).Nodup := by
    refine List.Nodup.map_on ?_ hnodup
    intro a ha b hb heq
    obtain ⟨i, o, hi, ho, hkind⟩ := (mem_listing h).mp ha
    obtain ⟨j, p, hj, hp, hkind'⟩ := (mem_listing h).mp hb
    rw [hi, hj, Option.some.injEq] at heq
    subst heq
    rw [ho, Option.some.injEq] at hp
    subst hp
    exact Prod.ext (h.idOf?_unique hi hj) (hkind.trans hkind'.symm)
  have hall : ∀ x, x ∈ (t.listing.map fun e => t.idOf? e.1) ↔ x ∈ t.objects.keys.map some := by
    intro x
    simp only [List.mem_map, SortedMap.mem_keys_iff]
    constructor
    · rintro ⟨e, he, rfl⟩
      obtain ⟨i, o, hi, ho, -⟩ := (mem_listing h).mp he
      exact ⟨i, Option.isSome_of_eq_some ho, hi.symm⟩
    · rintro ⟨i, hi, rfl⟩
      obtain ⟨o, ho⟩ := Option.isSome_iff_exists.mp hi
      obtain ⟨path, hpath⟩ := h.reached ho
      exact ⟨(path, o.kind), (mem_listing h).mpr ⟨i, o, hpath, ho, rfl⟩, hpath⟩
  have hsome : (t.objects.keys.map some).Nodup :=
    SortedMap.nodup_keys.map fun _ _ => Option.some.inj
  have hlen := ((List.perm_ext_iff_of_nodup hids hsome).mpr hall).length_eq
  rw [List.length_map, List.length_map] at hlen
  rw [hlen, hkeys]

/-! ## How it is found -/

/-- What lies below an object is listed alike to every depth that is great enough. -/
theorem listingBelow_eq_of_deep (h : Linked t) {fuel more : Nat} {path : Path} {id : ObjectId}
    (hid : t.idOf? path = some id) (hfuel : t.size < fuel + path.names.length)
    (hmore : t.size < more + path.names.length) :
    t.listingBelow fuel path id = t.listingBelow more path id := by
  induction fuel generalizing more path id with
  | zero =>
      have := h.length_le_size (idOf?_eq_some.mp hid)
      omega
  | succ fuel ih =>
      cases more with
      | zero =>
          have := h.length_le_size (idOf?_eq_some.mp hid)
          omega
      | succ more =>
          obtain ⟨o, ho⟩ := h.object_of_idOf? hid
          simp only [listingBelow, ho, List.cons.injEq, true_and]
          refine List.flatMap_congr fun e hmem => ?_
          have hlen := @Path.length_names_child path e.1
          exact ih ((mem_children_iff hid ho).mp hmem) (by omega) (by omega)

/-- The objects that wait to be listed, the next one first, and what has been listed. -/
structure Traversal where
  pending : List (Path × ObjectId)
  listed : List (Path × ObjectKind)

namespace Traversal

/-- At the beginning the top-level objects wait. -/
def start (t : Tree) : Traversal := ⟨t.roots.entries.map fun e => (.single e.1, e.2), []⟩

/-- List the next object; its children come next. -/
def step (t : Tree) (s : Traversal) : Traversal :=
  match s.pending with
  | [] => s
  | (path, id) :: rest =>
    match t.object? id with
    | none => ⟨rest, s.listed⟩
    | some o =>
      ⟨(o.children.entries.map fun e => (path.child e.1, e.2)) ++ rest,
        s.listed ++ [(path, o.kind)]⟩

/-- What is still to be listed: the waiting objects, each with all that lies below it. -/
def remaining (t : Tree) (s : Traversal) : List (Path × ObjectKind) :=
  s.pending.flatMap fun e => t.listingBelow t.size e.1 e.2

/-- Every waiting object is the one at its path. -/
def Found (t : Tree) (s : Traversal) : Prop := ∀ e ∈ s.pending, t.idOf? e.1 = some e.2

/-- A step lists one object of those that remain, and leaves the others. -/
theorem step_spec (h : Linked t) {s : Traversal} (hs : s.Found t) (hne : s.pending ≠ []) :
    (s.step t).Found t ∧ ∃ e, (s.step t).listed = s.listed ++ [e] ∧
      s.remaining t = e :: (s.step t).remaining t := by
  obtain ⟨⟨path, id⟩, rest, hpending⟩ := List.exists_cons_of_ne_nil hne
  have hid : t.idOf? path = some id := hs (path, id) (by rw [hpending]; exact List.mem_cons_self)
  obtain ⟨o, ho⟩ := h.object_of_idOf? hid
  have hstep : s.step t = ⟨(o.children.entries.map fun e => (path.child e.1, e.2)) ++ rest,
      s.listed ++ [(path, o.kind)]⟩ := by
    simp only [step, hpending, ho]
  rw [hstep]
  refine ⟨?_, (path, o.kind), rfl, ?_⟩
  · intro e he
    rcases List.mem_append.mp he with he | he
    · obtain ⟨⟨name, child⟩, hmem, rfl⟩ := List.mem_map.mp he
      exact (mem_children_iff hid ho).mp hmem
    · exact hs e (by rw [hpending]; exact List.mem_cons_of_mem _ he)
  · have hlen : 0 < path.names.length := List.length_pos_iff.mpr (names_ne_nil hid)
    have hsize : t.listingBelow t.size path id = t.listingBelow (t.size + 1) path id :=
      listingBelow_eq_of_deep h hid (by omega) (by omega)
    rw [remaining, remaining, hpending, List.flatMap_cons, List.flatMap_append, List.flatMap_map,
      hsize, listingBelow, ho]
    rfl

/-- As many steps as objects remain list them all, and then none waits. -/
theorem iterate_step (h : Linked t) {n : Nat} {s : Traversal} (hs : s.Found t)
    (hn : (s.remaining t).length = n) : (step t)^[n] s = ⟨[], s.listed ++ s.remaining t⟩ := by
  induction n generalizing s with
  | zero =>
      have hdone : s.pending = [] := by
        by_contra hne
        obtain ⟨-, e, -, hrest⟩ := step_spec h hs hne
        rw [hrest] at hn
        cases hn
      cases s
      subst hdone
      simp [remaining]
  | succ n ih =>
      have hne : s.pending ≠ [] := by
        intro hdone
        rw [remaining, hdone] at hn
        cases hn
      obtain ⟨hs', e, hlisted, hrest⟩ := step_spec h hs hne
      rw [hrest, List.length_cons, Nat.add_right_cancel_iff] at hn
      rw [Function.iterate_succ_apply, ih hs' hn, hlisted, hrest, List.append_assoc]
      rfl

/-- The stack is empty after as many steps as there are objects, and all have been listed. -/
theorem iterate_start (h : Linked t) : (step t)^[t.size] (start t) = ⟨[], t.listing⟩ := by
  have hfound : (start t).Found t := by
    intro e he
    obtain ⟨r, hr, rfl⟩ := List.mem_map.mp he
    exact mem_roots_iff.mp hr
  have hall : (start t).remaining t = t.listing := List.flatMap_map ..
  have hend := iterate_step h hfound (congrArg List.length hall)
  rw [hall, length_listing h] at hend
  exact hend

end Traversal

/-! ## Addresses -/

/--
In a tree that its audit accepts the walks between numbers and paths are inverse
to each other. The traversal ends; it lists each object's path with its kind,
every path once and as many as there are objects, and in the order of paths,
which is that of the bytes of their names.
-/
theorem addresses_of_audit (h : t.audit = .ok ()) :
    (∀ id o, t.object? id = some o →
      ∃ path, t.pathOf? id = some path ∧ t.idOf? path = some id) ∧
    (∀ path id, t.idOf? path = some id →
      (t.object? id).isSome ∧ t.pathOf? id = some path) ∧
    (Traversal.step t)^[t.size] (.start t) = ⟨[], t.listing⟩ ∧
    (∀ path kind, (path, kind) ∈ t.listing ↔
      ∃ id o, t.object? id = some o ∧ t.pathOf? id = some path ∧ o.kind = kind) ∧
    (t.listing.map (·.1)).Pairwise (fun p q => compare p q = .lt ∧ p.bytes < q.bytes) ∧
    t.listing.length = t.size := by
  have hl := linked_of_audit h
  refine ⟨?_, ?_, Traversal.iterate_start hl, ?_, ?_, length_listing hl⟩
  · intro id o ho
    obtain ⟨path, hpath⟩ := hl.reached ho
    exact ⟨path, hl.idOf?_iff.mp hpath, hpath⟩
  · intro path id hid
    obtain ⟨o, ho⟩ := hl.object_of_idOf? hid
    exact ⟨Option.isSome_of_eq_some ho, hl.idOf?_iff.mp hid⟩
  · intro path kind
    rw [mem_listing hl]
    constructor
    · rintro ⟨id, o, hid, ho, hkind⟩
      exact ⟨id, o, ho, hl.idOf?_iff.mp hid, hkind.symm⟩
    · rintro ⟨id, o, ho, hpath, hkind⟩
      exact ⟨id, o, hl.idOf?_iff.mpr hpath, ho, hkind.symm⟩
  · refine List.pairwise_map.mpr (pairwise_listing.imp ?_)
    intro a b hlt
    exact ⟨hlt, compare_path_eq_lt.mp hlt⟩

/-- A tree that edits do not make: the next number is in use, and a parent is younger. -/
def scattered : Tree :=
  let grains : Object := ⟨"grains", none, SortedMap.empty.insert "sizes" 3, .group⟩
  let sizes : Object := ⟨"sizes", some 7, .empty, .matrix [2]⟩
  let cells : Object := ⟨"cells", none, .empty, .group⟩
  ⟨((SortedMap.empty.insert 7 grains).insert 3 sizes).insert 5 cells,
    (SortedMap.empty.insert "grains" 7).insert "cells" 5, 3⟩

theorem addresses_scattered :
    scattered.audit = .ok () ∧ scattered.pathOf? 3 = some ⟨["grains", "sizes"]⟩ ∧
      (Traversal.step scattered)^[3] (.start scattered) = ⟨[], [(.single "cells", .dataGroup),
        (.single "grains", .dataGroup), (⟨["grains", "sizes"]⟩, .attributeMatrix)]⟩ := by
  have haudit : scattered.audit = .ok () := rfl
  obtain ⟨-, hpath, htraversal, -⟩ := addresses_of_audit haudit
  exact ⟨haudit, (hpath ⟨["grains", "sizes"]⟩ 3 rfl).2, htraversal⟩

end FilterTree.Tree
