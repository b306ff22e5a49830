/-!
# Maps in key order

Everything the tree keeps by name or by number is listed in the order of its
keys, and two maps with the same contents must be the same value. Both follow
from one representation: the entries as a list whose keys strictly increase,
with that fact carried by the type. A look-up that runs past its key can then
stop early, and no operation has to promise anything about duplicates.

The key type brings its own three-way comparison, lawful in the sense that it
is transitive and that keys which compare equal are equal.
-/

namespace FilterTree

/-- Entries whose keys strictly increase. -/
structure SortedMap (κ : Type) (ν : Type u) [Ord κ] where
  entries : List (κ × ν)
  increasing : entries.Pairwise fun a b => compare a.1 b.1 = .lt

namespace SortedMap

variable {κ : Type} {ν : Type u} [Ord κ]

/-! ## The list operations, and why they keep the keys increasing -/

/-- Put an entry where its key belongs, in place of an entry with the same key. -/
def insertEntry (k : κ) (v : ν) : List (κ × ν) → List (κ × ν)
  | [] => [(k, v)]
  | e :: rest =>
    match compare k e.1 with
    | .lt => (k, v) :: e :: rest
    | .eq => (k, v) :: rest
    | .gt => e :: insertEntry k v rest

/-- The value under a key; an entry with a greater key ends the search. -/
def findEntry? (k : κ) : List (κ × ν) → Option ν
  | [] => none
  | e :: rest =>
    match compare k e.1 with
    | .lt => none
    | .eq => some e.2
    | .gt => findEntry? k rest

theorem mem_insertEntry {k : κ} {v : ν} {e : κ × ν} {l : List (κ × ν)}
    (h : e ∈ insertEntry k v l) : e = (k, v) ∨ e ∈ l := by
  induction l with
  | nil => simpa [insertEntry] using h
  | cons d rest ih =>
    unfold insertEntry at h
    split at h
    next => simpa using h
    next => rcases List.mem_cons.mp h with h | h <;> simp [h]
    next =>
      rcases List.mem_cons.mp h with h | h
      · simp [h]
      · rcases ih h with h | h <;> simp [h]

theorem pairwise_insertEntry [Std.TransOrd κ] [Std.LawfulEqOrd κ] {k : κ} {v : ν}
    {l : List (κ × ν)} (h : l.Pairwise fun a b => compare a.1 b.1 = .lt) :
    (insertEntry k v l).Pairwise fun a b => compare a.1 b.1 = .lt := by
  induction l with
  | nil => simp [insertEntry]
  | cons d rest ih =>
    obtain ⟨hd, hrest⟩ := List.pairwise_cons.mp h
    unfold insertEntry
    split
    next hlt =>
      refine List.pairwise_cons.mpr ⟨fun e he => ?_, h⟩
      rcases List.mem_cons.mp he with rfl | he
      · exact hlt
      · exact Std.TransCmp.lt_trans hlt (hd e he)
    next heq =>
      have hk : k = d.1 := Std.LawfulEqCmp.eq_of_compare heq
      exact List.pairwise_cons.mpr ⟨fun e he => hk ▸ hd e he, hrest⟩
    next hgt =>
      refine List.pairwise_cons.mpr ⟨fun e he => ?_, ih hrest⟩
      rcases mem_insertEntry he with rfl | he
      · exact Std.OrientedCmp.gt_iff_lt.mp hgt
      · exact hd e he

/-! ## The operations -/

/-- The map without entries. -/
def empty : SortedMap κ ν := ⟨[], .nil⟩

instance : Inhabited (SortedMap κ ν) := ⟨empty⟩

/-- The value under a key. -/
def get? (m : SortedMap κ ν) (k : κ) : Option ν := findEntry? k m.entries

/-- Whether a key has an entry. -/
def contains (m : SortedMap κ ν) (k : κ) : Bool := (m.get? k).isSome

/-- Number of entries. -/
def size (m : SortedMap κ ν) : Nat := m.entries.length

/-- Whether there is no entry. -/
def isEmpty (m : SortedMap κ ν) : Bool := m.entries.isEmpty

/-- The keys, increasing. -/
def keys (m : SortedMap κ ν) : List κ := m.entries.map (·.1)

/-- The values in the order of their keys. -/
def values (m : SortedMap κ ν) : List ν := m.entries.map (·.2)

/-- The map with `k` bound to `v`. -/
def insert [Std.TransOrd κ] [Std.LawfulEqOrd κ] (m : SortedMap κ ν) (k : κ) (v : ν) :
    SortedMap κ ν :=
  ⟨insertEntry k v m.entries, pairwise_insertEntry m.increasing⟩

/-- The entries that satisfy `p`. -/
def filter (m : SortedMap κ ν) (p : κ → ν → Bool) : SortedMap κ ν :=
  ⟨m.entries.filter fun e => p e.1 e.2, m.increasing.filter _⟩

/-- The map without an entry for `k`. -/
def erase (m : SortedMap κ ν) (k : κ) : SortedMap κ ν :=
  m.filter fun k' _ => compare k' k != .eq

/-- Every value replaced by a function of its key and itself. -/
def map {ω : Type v} (m : SortedMap κ ν) (f : κ → ν → ω) : SortedMap κ ω :=
  ⟨m.entries.map fun e => (e.1, f e.1 e.2), List.pairwise_map.mpr m.increasing⟩

/-- The map with the value under `k`, if there is one, replaced by `f` of it. -/
def modify (m : SortedMap κ ν) (k : κ) (f : ν → ν) : SortedMap κ ν :=
  m.map fun k' v => if compare k' k == .eq then f v else v

/-- The entries of a list, a later one winning over an earlier one of the same key. -/
def ofList [Std.TransOrd κ] [Std.LawfulEqOrd κ] (l : List (κ × ν)) : SortedMap κ ν :=
  l.foldl (fun m e => m.insert e.1 e.2) empty

/-- Maps are equal when their entries are. -/
@[ext] theorem ext {m₁ m₂ : SortedMap κ ν} (h : m₁.entries = m₂.entries) : m₁ = m₂ := by
  cases m₁; cases m₂; cases h; rfl

instance [DecidableEq κ] [DecidableEq ν] : DecidableEq (SortedMap κ ν) := fun a b =>
  decidable_of_iff (a.entries = b.entries) ⟨SortedMap.ext, fun h => h ▸ rfl⟩

/-- Entry-wise comparison with the values' own equality test. -/
instance [BEq κ] [BEq ν] : BEq (SortedMap κ ν) := ⟨fun a b => a.entries == b.entries⟩

end SortedMap

end FilterTree
