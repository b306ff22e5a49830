import FilterTree.OrderedMap
import Mathlib.Data.List.Nodup

/-!
# What a look-up sees in a map in insertion order

A map in insertion order is its keys, in the order in which they came, together
with what `get?` answers at each of them (`ext_get?`). Every operation is
therefore pinned down by what it does to these two: binding a key changes the
answer at that key alone, and it lengthens the row of keys only if the key is
new. Binding a whole list is the same thing done again and again; where the keys
of the list are distinct no entry of it is overwritten by a later one.
-/

namespace FilterTree.OrderedMap

variable {κ : Type} {ν : Type u} [DecidableEq κ] {m : OrderedMap κ ν} {k k' : κ} {v : ν}

theorem get?_eq_some_iff : m.get? k = some v ↔ (k, v) ∈ m.entries := by
  rw [get?, Option.map_eq_some_iff]
  constructor
  · rintro ⟨⟨k', v'⟩, hfind, rfl⟩
    have hkey : k' = k := by simpa using List.find?_some hfind
    subst hkey
    exact List.mem_of_find?_eq_some hfind
  · intro hmem
    obtain ⟨e, hfind⟩ : ∃ e, m.entries.find? (fun e => e.1 = k) = some e :=
      Option.isSome_iff_exists.mp (List.find?_isSome.mpr ⟨_, hmem, decide_eq_true rfl⟩)
    have hkey : e.1 = k := by simpa using List.find?_some hfind
    -- no key has two entries
    have heq := List.inj_on_of_nodup_map m.nodup (List.mem_of_find?_eq_some hfind) hmem hkey
    exact ⟨e, hfind, congrArg Prod.snd heq⟩

theorem mem_keys_iff : k ∈ m.keys ↔ ∃ v, m.get? k = some v := by
  simp only [keys, List.mem_map, Prod.exists, exists_and_right, exists_eq_right, get?_eq_some_iff]

theorem contains_iff : m.contains k = true ↔ k ∈ m.keys := by
  rw [contains, List.any_eq_true, keys, List.mem_map]
  simp only [decide_eq_true_eq]

theorem get?_eq_none_iff : m.get? k = none ↔ k ∉ m.keys := by
  rw [mem_keys_iff, not_exists, Option.eq_none_iff_forall_ne_some]

/-- A map is determined by its keys in their order and the answers at them. -/
theorem entries_eq : m.entries = m.keys.filterMap fun k => (m.get? k).map (Prod.mk k) := by
  have hfound : ∀ e ∈ m.entries, some e = (m.get? e.1).map (Prod.mk e.1) := by
    intro e he
    rw [get?_eq_some_iff.mpr he, Option.map_some]
  calc m.entries = m.entries.filterMap some := List.filterMap_some.symm
    _ = m.entries.filterMap fun e => (m.get? e.1).map (Prod.mk e.1) := List.filterMap_congr hfound
    _ = m.keys.filterMap fun k => (m.get? k).map (Prod.mk k) := by rw [keys, List.filterMap_map]; rfl

theorem ext_get? {m₁ m₂ : OrderedMap κ ν} (hkeys : m₁.keys = m₂.keys)
    (h : ∀ k ∈ m₁.keys, m₁.get? k = m₂.get? k) : m₁ = m₂ := by
  refine ext ?_
  rw [entries_eq, entries_eq, ← hkeys]
  exact List.filterMap_congr fun k hk => by rw [h k hk]

/-! ## Binding one key -/

theorem keys_insert :
    (m.insert k v).keys = if k ∈ m.keys then m.keys else m.keys ++ [k] := map_fst_putEntry k v _

theorem mem_putEntry {l : List (κ × ν)} {e : κ × ν} (h : (l.map (·.1)).Nodup) :
    e ∈ putEntry k v l ↔ e = (k, v) ∨ e.1 ≠ k ∧ e ∈ l := by
  induction l with
  | nil => simp [putEntry]
  | cons d rest ih =>
      rw [List.map_cons, List.nodup_cons] at h
      rw [putEntry]
      split
      · next hk =>
          subst hk
          have hne : ∀ e ∈ rest, e.1 ≠ d.1 :=
            fun e he heq => h.1 (List.mem_map.mpr ⟨e, he, heq⟩)
          rw [List.mem_cons, List.mem_cons]
          refine or_congr_right ⟨fun he => ⟨hne e he, .inr he⟩, ?_⟩
          rintro ⟨hek, rfl | he⟩
          · exact absurd rfl hek
          · exact he
      · next hk =>
          rw [List.mem_cons, List.mem_cons, ih h.2]
          constructor
          · rintro (rfl | rfl | ⟨hek, he⟩)
            · exact .inr ⟨hk, .inl rfl⟩
            · exact .inl rfl
            · exact .inr ⟨hek, .inr he⟩
          · rintro (rfl | ⟨hek, rfl | he⟩)
            · exact .inr (.inl rfl)
            · exact .inl rfl
            · exact .inr (.inr ⟨hek, he⟩)

theorem get?_insert : (m.insert k v).get? k' = if k' = k then some v else m.get? k' := by
  refine Option.ext fun w => ?_
  rw [get?_eq_some_iff, insert, mem_putEntry m.nodup, Prod.mk.injEq]
  split
  · next h => simp [h, eq_comm]
  · next h => simp [h, get?_eq_some_iff]

/-! ## Binding the entries of a list -/

variable {l : List (κ × ν)}

theorem insertAll_cons {e : κ × ν} : m.insertAll (e :: l) = (m.insert e.1 e.2).insertAll l := rfl

theorem insertAll_append {l' : List (κ × ν)} :
    m.insertAll (l ++ l') = (m.insertAll l).insertAll l' := List.foldl_append

/-- Keys that are there keep their places; new ones come at the end, each where it is first bound. -/
theorem keys_insertAll :
    (m.insertAll l).keys = m.keys ++ ((l.map (·.1)).filter (· ∉ m.keys)).eraseDups := by
  induction l generalizing m with
  | nil => exact (List.append_nil _).symm
  | cons e l ih =>
      rw [insertAll_cons, ih, keys_insert, List.map_cons]
      split
      · next hold => rw [List.filter_cons_of_neg (by simpa using hold)]
      · next hnew =>
          rw [List.filter_cons_of_pos (by simpa using hnew), List.eraseDups_cons,
            List.filter_filter, List.append_assoc, List.singleton_append]
          refine congrArg (fun keys => m.keys ++ e.1 :: keys.eraseDups) (List.filter_congr ?_)
          intro k _
          rw [Bool.eq_iff_iff]
          simp [and_comm]

theorem keys_insertAll_of_mem (h : ∀ e ∈ l, e.1 ∈ m.keys) : (m.insertAll l).keys = m.keys := by
  have hnone : (l.map (·.1)).filter (· ∉ m.keys) = [] :=
    List.filter_eq_nil_iff.mpr <| List.forall_mem_map.mpr fun e he => by simpa using h e he
  rw [keys_insertAll, hnone, List.eraseDups_nil, List.append_nil]

/-- New keys come at the end, in the order of the list. -/
theorem keys_insertAll_of_new (hl : (l.map (·.1)).Nodup) (h : ∀ e ∈ l, e.1 ∉ m.keys) :
    (m.insertAll l).keys = m.keys ++ l.map (·.1) := by
  induction l generalizing m with
  | nil => exact (List.append_nil _).symm
  | cons e l ih =>
      rw [List.map_cons, List.nodup_cons] at hl
      have hkeys : (m.insert e.1 e.2).keys = m.keys ++ [e.1] := by
        rw [keys_insert, if_neg (h e List.mem_cons_self)]
      rw [insertAll_cons, ih hl.2, hkeys, List.map_cons, List.append_assoc]
      · rfl
      · intro d hd
        rw [hkeys, List.mem_append, List.mem_singleton, not_or]
        refine ⟨h d (List.mem_cons_of_mem e hd), fun heq => hl.1 ?_⟩
        exact List.mem_map.mpr ⟨d, hd, heq⟩

/-- The last value that a key is bound to wins. -/
theorem get?_insertAll : (m.insertAll l).get? k = (l.reverse.lookup k).or (m.get? k) := by
  induction l generalizing m with
  | nil => rfl
  | cons e l ih =>
      rw [insertAll_cons, ih, List.reverse_cons, List.lookup_append, Option.or_assoc, get?_insert]
      refine congrArg _ ?_
      split
      · next hk => rw [List.lookup_cons, beq_iff_eq.mpr hk, Option.some_or]
      · next hk => rw [List.lookup_cons, beq_false_of_ne hk, List.lookup_nil, Option.none_or]

theorem get?_insertAll_of_not_mem (h : k ∉ l.map (·.1)) : (m.insertAll l).get? k = m.get? k := by
  induction l generalizing m with
  | nil => rfl
  | cons e l ih =>
      rw [List.map_cons, List.mem_cons, not_or] at h
      rw [insertAll_cons, ih h.2, get?_insert, if_neg h.1]

theorem get?_insertAll_of_mem (hl : (l.map (·.1)).Nodup) (h : (k, v) ∈ l) :
    (m.insertAll l).get? k = some v := by
  induction l generalizing m with
  | nil => cases h
  | cons e l ih =>
      rw [List.map_cons, List.nodup_cons] at hl
      rw [insertAll_cons]
      rcases List.mem_cons.mp h with rfl | hmem
      · rw [get?_insertAll_of_not_mem hl.1, get?_insert, if_pos rfl]
      · exact ih hl.2 hmem

/-- A list of entries with distinct keys is the map of its entries. -/
theorem entries_ofList (hl : (l.map (·.1)).Nodup) : (ofList l).entries = l := by
  have hkeys : (ofList l).keys = l.map (·.1) := keys_insertAll_of_new hl fun e _ he => nomatch he
  rw [entries_eq, hkeys, List.filterMap_map]
  have hfound : ∀ e ∈ l, ((ofList l).get? e.1).map (Prod.mk e.1) = some e := by
    intro e he
    rw [ofList, get?_insertAll_of_mem hl he, Option.map_some]
  exact (List.filterMap_congr hfound).trans List.filterMap_some

theorem ofList_entries : ofList m.entries = m := ext (entries_ofList m.nodup)

end FilterTree.OrderedMap
