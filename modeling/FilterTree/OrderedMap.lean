/-!
# Maps in insertion order

Arguments, parameters and registered filters are listed in the order in which
they first came. Binding a key a second time replaces the value and keeps the
key's place, so the order of the keys only ever grows at its end.

That no key occurs twice is carried by the type: it is what makes "the value
of a key" and "the place of a key" well defined for every value of the type.
-/

namespace FilterTree

/-- Entries with distinct keys, in the order in which the keys first came. -/
structure OrderedMap (κ : Type) (ν : Type u) where
  entries : List (κ × ν)
  nodup : (entries.map (·.1)).Nodup

namespace OrderedMap

variable {κ : Type} {ν : Type u}

/-! ## Binding a key -/

/-- Replace the value of a key that is there, or add the entry at the end. -/
def putEntry [DecidableEq κ] (k : κ) (v : ν) : List (κ × ν) → List (κ × ν)
  | [] => [(k, v)]
  | e :: rest => if e.1 = k then (k, v) :: rest else e :: putEntry k v rest

theorem map_fst_putEntry [DecidableEq κ] (k : κ) (v : ν) (l : List (κ × ν)) :
    (putEntry k v l).map (·.1) = if k ∈ l.map (·.1) then l.map (·.1) else l.map (·.1) ++ [k] := by
  induction l with
  | nil => simp [putEntry]
  | cons e rest ih =>
    unfold putEntry
    by_cases h : e.1 = k
    · simp [h]
    · have h' : ¬ k = e.1 := fun hk => h hk.symm
      simp only [h, if_false, List.map_cons, ih, List.mem_cons, h', false_or]
      split <;> simp

theorem nodup_putEntry [DecidableEq κ] {k : κ} {v : ν} {l : List (κ × ν)}
    (h : (l.map (·.1)).Nodup) : ((putEntry k v l).map (·.1)).Nodup := by
  rw [map_fst_putEntry]
  split
  next => exact h
  next hk => exact List.nodup_append.mpr ⟨h, by simp, by
    intro a ha b hb
    simp only [List.mem_singleton] at hb
    exact fun hab => hk (hb ▸ hab ▸ ha)⟩

/-! ## The operations -/

/-- The map without entries. -/
def empty : OrderedMap κ ν := ⟨[], .nil⟩

instance : Inhabited (OrderedMap κ ν) := ⟨empty⟩

/-- The value under a key. -/
def get? [DecidableEq κ] (m : OrderedMap κ ν) (k : κ) : Option ν :=
  (m.entries.find? fun e => e.1 = k).map (·.2)

/-- Whether a key has an entry. -/
def contains [DecidableEq κ] (m : OrderedMap κ ν) (k : κ) : Bool :=
  m.entries.any fun e => e.1 = k

/-- Number of entries. -/
def size (m : OrderedMap κ ν) : Nat := m.entries.length

/-- Whether there is no entry. -/
def isEmpty (m : OrderedMap κ ν) : Bool := m.entries.isEmpty

/-- The keys in their order. -/
def keys (m : OrderedMap κ ν) : List κ := m.entries.map (·.1)

/-- The values in the order of their keys. -/
def values (m : OrderedMap κ ν) : List ν := m.entries.map (·.2)

/-- The map with `k` bound to `v`: in `k`'s place if it has one, else at the end. -/
def insert [DecidableEq κ] (m : OrderedMap κ ν) (k : κ) (v : ν) : OrderedMap κ ν :=
  ⟨putEntry k v m.entries, nodup_putEntry m.nodup⟩

/-- The map without `k`; the other keys keep their order. -/
def erase [DecidableEq κ] (m : OrderedMap κ ν) (k : κ) : OrderedMap κ ν :=
  ⟨m.entries.filter fun e => e.1 ≠ k, m.nodup.sublist (List.filter_sublist.map _)⟩

/-- Bind every entry of a list in turn. -/
def insertAll [DecidableEq κ] (m : OrderedMap κ ν) (l : List (κ × ν)) : OrderedMap κ ν :=
  l.foldl (fun m e => m.insert e.1 e.2) m

/-- The map a list of entries builds, a later one winning and an earlier one giving the place. -/
def ofList [DecidableEq κ] (l : List (κ × ν)) : OrderedMap κ ν := empty.insertAll l

/-- Maps are equal when their entries are, order included. -/
@[ext] theorem ext {m₁ m₂ : OrderedMap κ ν} (h : m₁.entries = m₂.entries) : m₁ = m₂ := by
  cases m₁; cases m₂; cases h; rfl

instance [DecidableEq κ] [DecidableEq ν] : DecidableEq (OrderedMap κ ν) := fun a b =>
  decidable_of_iff (a.entries = b.entries) ⟨OrderedMap.ext, fun h => h ▸ rfl⟩

end OrderedMap

end FilterTree
