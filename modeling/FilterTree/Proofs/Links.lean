import FilterTree.Geometry
import Mathlib.Data.List.Induction

/-!
# Walks over links

A tree is read by following names. What a name leads to from a place, where a
place is an object or the top, is a table of links, and everything about paths
is a fact about walks over such a table: the objects, their bodies and the way
they are stored do not matter here.

The one property that carries the file is that no object is linked twice
(`Single`). It makes a walk from the top determined by where it ends
(`walk_unique`), because the walk can be read backwards; and then an edit of
one link is visible exactly to the walks that go over it (`walk_set`). Taking a
link away and giving its target another one, which is what renaming and moving
do, is two such edits in a row, and `walk_relink` says what every walk finds
afterwards. A walk visits different objects only, so it is no longer than there
are objects (`length_le_of_walk`).
-/

namespace FilterTree

/-- Where a name leads from a place; the place that is no object is the top. -/
abbrev Links := Option ObjectId → String → Option ObjectId

namespace Links

variable {c d : Links}

/-- Follow names from a place. -/
def walk (c : Links) : Option ObjectId → List String → Option (Option ObjectId)
  | place, [] => some place
  | place, name :: names => (c place name).bind fun id => walk c (some id) names

/-- No object is linked from two places or under two names. -/
def Single (c : Links) : Prop :=
  ∀ {p q : Option ObjectId} {m n : String} {id : ObjectId},
    c p m = some id → c q n = some id → p = q ∧ m = n

/-- The table with one link replaced. -/
def set (c : Links) (place : Option ObjectId) (name : String) (target : Option ObjectId) : Links :=
  fun p n => if p = place ∧ n = name then target else c p n

/-! ## Walks -/

@[simp] theorem walk_nil {place : Option ObjectId} : c.walk place [] = some place := rfl

theorem walk_cons {place : Option ObjectId} {name : String} {names : List String} :
    c.walk place (name :: names) = (c place name).bind fun id => c.walk (some id) names := rfl

theorem walk_append {place : Option ObjectId} {xs ys : List String} :
    c.walk place (xs ++ ys) = (c.walk place xs).bind fun q => c.walk q ys := by
  induction xs generalizing place with
  | nil => rfl
  | cons x xs ih =>
      rw [List.cons_append, walk_cons, walk_cons, Option.bind_assoc]
      exact Option.bind_congr fun id _ => ih

theorem walk_concat {place : Option ObjectId} {xs : List String} {name : String} :
    c.walk place (xs ++ [name]) = (c.walk place xs).bind fun q => (c q name).map some := by
  rw [walk_append]
  refine Option.bind_congr fun q _ => ?_
  rw [walk_cons]
  cases c q name <;> rfl

theorem walk_concat_eq_some {place target : Option ObjectId} {xs : List String} {name : String} :
    c.walk place (xs ++ [name]) = some target ↔
      ∃ q id, c.walk place xs = some q ∧ c q name = some id ∧ target = some id := by
  rw [walk_concat]
  simp only [Option.bind_eq_some_iff, Option.map_eq_some_iff]
  grind

/-- A walk that takes a step ends at an object. -/
theorem walk_ne_top {place : Option ObjectId} {names : List String} (h : names ≠ []) :
    c.walk place names ≠ some none := by
  obtain ⟨xs, name, rfl⟩ := List.eq_nil_or_concat names |>.resolve_left h
  rw [List.concat_eq_append, ne_eq, walk_concat_eq_some]
  rintro ⟨q, id, -, -, hid⟩
  cases hid

/-- More links, the same walks and perhaps others. -/
theorem walk_mono (hcd : ∀ {p n id}, c p n = some id → d p n = some id)
    {place target : Option ObjectId} {names : List String}
    (h : c.walk place names = some target) : d.walk place names = some target := by
  induction names generalizing place with
  | nil => exact h
  | cons name names ih =>
      rw [walk_cons, Option.bind_eq_some_iff] at h
      obtain ⟨id, hid, hrest⟩ := h
      rw [walk_cons, hcd hid]
      exact ih hrest

/-- Where a walk from the top ends says which walk it was. -/
theorem walk_unique (hc : c.Single) {xs ys : List String} {target : Option ObjectId}
    (hx : c.walk none xs = some target) (hy : c.walk none ys = some target) : xs = ys := by
  induction xs using List.reverseRecOn generalizing ys target with
  | nil =>
      cases hx
      by_contra hne
      exact walk_ne_top (Ne.symm hne) hy
  | append_singleton xs m ih =>
      rw [walk_concat_eq_some] at hx
      obtain ⟨p, id, hp, hid, rfl⟩ := hx
      rcases List.eq_nil_or_concat ys with rfl | ⟨ys, n, rfl⟩
      · cases hy
      · rw [List.concat_eq_append] at hy ⊢
        rw [walk_concat_eq_some] at hy
        obtain ⟨q, id', hq, hid', heq⟩ := hy
        cases heq
        obtain ⟨rfl, rfl⟩ := hc hid hid'
        rw [ih hp hq]

/-! ## One link replaced -/

theorem set_self {place target : Option ObjectId} {name : String} :
    c.set place name target place name = target := if_pos ⟨rfl, rfl⟩

theorem set_of_ne {place target p : Option ObjectId} {name n : String}
    (h : ¬ (p = place ∧ n = name)) : c.set place name target p n = c p n := if_neg h

theorem set_none_le {place p : Option ObjectId} {name n : String} {id : ObjectId}
    (h : c.set place name none p n = some id) : c p n = some id := by
  rw [set] at h
  split at h
  · cases h
  · exact h

theorem Single.set_none (hc : c.Single) {place : Option ObjectId} {name : String} :
    (c.set place name none).Single := fun h₁ h₂ => hc (set_none_le h₁) (set_none_le h₂)

/-- A walk from the top that does not go over the replaced link is as it was. -/
theorem walk_set (hc : c.Single) {place target : Option ObjectId} {name : String}
    {xs ys : List String} (hx : c.walk none xs = some place) (hy : ¬ xs ++ [name] <+: ys) :
    (c.set place name target).walk none ys = c.walk none ys := by
  induction ys using List.reverseRecOn with
  | nil => rfl
  | append_singleton ys m ih =>
      have hys : ¬ xs ++ [name] <+: ys := fun h => hy (h.trans (List.prefix_append ys [m]))
      rw [walk_concat, walk_concat, ih hys]
      refine Option.bind_congr fun q hq => ?_
      rw [set_of_ne]
      rintro ⟨rfl, rfl⟩
      rw [walk_unique hc hq hx] at hy
      exact hy List.prefix_rfl

theorem not_concat_prefix {xs : List String} {name : String} : ¬ xs ++ [name] <+: xs := by
  intro h
  have := h.length_le
  rw [List.length_append, List.length_singleton] at this
  omega

/-- The new link is found where it was put. -/
theorem walk_set_self (hc : c.Single) {place : Option ObjectId} {id : ObjectId} {name : String}
    {xs : List String} (hx : c.walk none xs = some place) :
    (c.set place name (some id)).walk none (xs ++ [name]) = some (some id) := by
  rw [walk_concat, walk_set hc hx not_concat_prefix, hx, Option.bind_some, set_self]
  rfl

/-- A walk from a place from which the replaced link is out of reach is as it was. -/
theorem walk_set_of_unreached {place target start : Option ObjectId} {name : String}
    {ys : List String} (h : ∀ zs, c.walk start zs ≠ some place) :
    (c.set place name target).walk start ys = c.walk start ys := by
  induction ys generalizing start with
  | nil => rfl
  | cons y ys ih =>
      have hne : start ≠ place := fun heq => h [] (congrArg some heq)
      rw [walk_cons, walk_cons, set_of_ne fun hy => hne hy.1]
      refine Option.bind_congr fun id hid => ih fun zs hzs => h (y :: zs) ?_
      rw [walk_cons, hid]
      exact hzs

/-! ## A link put elsewhere -/

/-- The target of one link given another link instead. -/
def relink (c : Links) (place : Option ObjectId) (name : String) (place' : Option ObjectId)
    (name' : String) (id : ObjectId) : Links :=
  (c.set place name none).set place' name' (some id)

/--
What walks find after an object at `xs ++ [name]` was linked at `ys ++ [name']`
instead: below the new link what was below the old one, below the old link
nothing, elsewhere what was there.
-/
theorem walk_relink (hc : c.Single) {place place' : Option ObjectId} {name name' : String}
    {id : ObjectId} {xs ys zs : List String} (hx : c.walk none xs = some place)
    (hid : c place name = some id) (hy : c.walk none ys = some place')
    (hapart : ¬ xs ++ [name] <+: ys) :
    (c.relink place name place' name' id).walk none zs =
      if ys ++ [name'] <+: zs then
        c.walk none (xs ++ [name] ++ zs.drop (ys.length + 1))
      else if xs ++ [name] <+: zs then none
      else c.walk none zs := by
  have hself : c.walk none (xs ++ [name]) = some (some id) :=
    walk_concat_eq_some.mpr ⟨place, id, hx, hid, rfl⟩
  have hy₁ : (c.set place name none).walk none ys = some place' := (walk_set hc hx hapart).trans hy
  rw [relink]
  split
  · next hnew =>
      obtain ⟨rest, rfl⟩ := hnew
      rw [walk_append, walk_set_self hc.set_none hy₁, Option.bind_some]
      -- neither end of the change can be reached from the object itself
      have hold : ∀ ws, c.walk (some id) ws ≠ some place := by
        intro ws hws
        have hlong : c.walk none (xs ++ [name] ++ ws) = some place := by
          rw [walk_append, hself]
          exact hws
        have := congrArg List.length (walk_unique hc hlong hx)
        rw [List.length_append, List.length_append, List.length_singleton] at this
        omega
      have hnew : ∀ ws, (c.set place name none).walk (some id) ws ≠ some place' := by
        intro ws hws
        have hlong : c.walk none (xs ++ [name] ++ ws) = some place' := by
          rw [walk_append, hself]
          exact walk_mono set_none_le hws
        exact hapart ⟨ws, walk_unique hc hlong hy⟩
      rw [walk_set_of_unreached hnew, walk_set_of_unreached hold, walk_append, hself]
      simp
  · next hnew =>
      rw [walk_set hc.set_none hy₁ hnew]
      split
      · next hbelow =>
          obtain ⟨rest, rfl⟩ := hbelow
          rw [walk_append, walk_concat, walk_set hc hx not_concat_prefix, hx, Option.bind_some,
            set_self]
          rfl
      · next hbelow => exact walk_set hc hx hbelow

/-! ## The length of a walk -/

/-- The objects on a walk from the top, all different, each at the end of a walk no longer. -/
theorem exists_trail (hc : c.Single) {names : List String} {target : Option ObjectId}
    (h : c.walk none names = some target) :
    ∃ ids : List ObjectId, ids.Nodup ∧ ids.length = names.length ∧
      ∀ id ∈ ids, ∃ xs, xs.length ≤ names.length ∧ c.walk none xs = some (some id) := by
  induction names using List.reverseRecOn generalizing target with
  | nil => exact ⟨[], List.nodup_nil, rfl, by simp⟩
  | append_singleton names name ih =>
      have hlast := h
      rw [walk_concat_eq_some] at h
      obtain ⟨q, id, hq, -, rfl⟩ := h
      obtain ⟨ids, hnodup, hlen, hids⟩ := ih hq
      have hnew : id ∉ ids := by
        intro hmem
        obtain ⟨xs, hle, hxs⟩ := hids id hmem
        rw [walk_unique hc hxs hlast, List.length_append, List.length_singleton] at hle
        omega
      refine ⟨id :: ids, List.nodup_cons.mpr ⟨hnew, hnodup⟩, by simp [hlen], ?_⟩
      intro x hx
      rcases List.mem_cons.mp hx with rfl | hx
      · exact ⟨names ++ [name], Nat.le_refl _, hlast⟩
      · obtain ⟨xs, hle, hxs⟩ := hids x hx
        exact ⟨xs, by rw [List.length_append]; omega, hxs⟩

/-- A walk from the top is no longer than a list of all linked objects. -/
theorem length_le_of_walk (hc : c.Single) {ids : List ObjectId}
    (hids : ∀ {p n id}, c p n = some id → id ∈ ids) {names : List String}
    {target : Option ObjectId} (h : c.walk none names = some target) :
    names.length ≤ ids.length := by
  obtain ⟨trail, hnodup, hlen, htrail⟩ := exists_trail hc h
  rw [← hlen]
  refine hnodup.length_le_of_subset fun x hx => ?_
  obtain ⟨xs, -, hxs⟩ := htrail x hx
  rcases List.eq_nil_or_concat xs with rfl | ⟨xs, n, rfl⟩
  · cases hxs
  · rw [List.concat_eq_append, walk_concat_eq_some] at hxs
    obtain ⟨q, id, -, hid, heq⟩ := hxs
    cases heq
    exact hids hid

end Links

end FilterTree
