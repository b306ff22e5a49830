import FilterTree.SortedMap

/-!
# What a look-up sees in a sorted map

A sorted map is read through `get?` alone, and every operation is pinned down
by what `get?` answers afterwards: `insert` and `erase` change the answer at
one key, `filter` and `map` act on each answer by itself. The bridge is
`get?_eq_some_iff`, which says that a look-up that may stop early finds exactly
the entries; it is the one place where the order of the keys is used.

Two maps with the same answers are the same map, since a strictly increasing
row of entries is determined by its members.
-/

namespace FilterTree.SortedMap

variable {κ : Type} {ν : Type u} [Ord κ]

theorem contains_eq {m : SortedMap κ ν} {k : κ} : m.contains k = (m.get? k).isSome := rfl

variable [Std.LawfulEqOrd κ]

theorem nodup_keys {m : SortedMap κ ν} : m.keys.Nodup := by
  refine List.pairwise_map.mpr (m.increasing.imp ?_)
  intro a b hlt heq
  rw [heq] at hlt
  simp at hlt

theorem nodup_entries {m : SortedMap κ ν} : m.entries.Nodup :=
  (List.pairwise_map.mp nodup_keys).imp fun hne heq => hne (congrArg Prod.fst heq)

variable [Std.TransOrd κ]

theorem findEntry?_eq_some {k : κ} {v : ν} {l : List (κ × ν)}
    (hl : l.Pairwise fun a b => compare a.1 b.1 = .lt) :
    findEntry? k l = some v ↔ (k, v) ∈ l := by
  induction l with
  | nil => exact ⟨fun h => (nomatch h), fun h => (nomatch h)⟩
  | cons e rest ih =>
      obtain ⟨hhead, hrest⟩ := List.pairwise_cons.mp hl
      unfold findEntry?
      rw [List.mem_cons]
      split
      · next hlt =>
          -- every later key is greater still
          refine ⟨fun h => absurd h (by simp), ?_⟩
          rintro (rfl | hmem)
          · simp at hlt
          · have := Std.TransCmp.lt_trans hlt (hhead _ hmem)
            simp at this
      · next heq =>
          have hk : k = e.1 := Std.LawfulEqCmp.eq_of_compare heq
          constructor
          · intro h
            exact .inl (Prod.ext hk (Option.some.inj h).symm)
          · rintro (rfl | hmem)
            · rfl
            · have := hhead _ hmem
              rw [hk] at this
              simp at this
      · next hgt =>
          rw [ih hrest]
          refine ⟨.inr, ?_⟩
          rintro (rfl | hmem)
          · simp at hgt
          · exact hmem

theorem get?_eq_some_iff {m : SortedMap κ ν} {k : κ} {v : ν} :
    m.get? k = some v ↔ (k, v) ∈ m.entries :=
  findEntry?_eq_some m.increasing

theorem mem_insertEntry_iff {k : κ} {v : ν} {e : κ × ν} {l : List (κ × ν)}
    (hl : l.Pairwise fun a b => compare a.1 b.1 = .lt) :
    e ∈ insertEntry k v l ↔ e = (k, v) ∨ e.1 ≠ k ∧ e ∈ l := by
  induction l with
  | nil => simp [insertEntry]
  | cons d rest ih =>
      obtain ⟨hhead, hrest⟩ := List.pairwise_cons.mp hl
      have hne : ∀ {e : κ × ν}, e ∈ rest → e.1 ≠ d.1 := by
        intro e he heq
        have := hhead e he
        rw [heq] at this
        simp at this
      rw [insertEntry]
      split
      · next hlt =>
          have hbelow : ∀ e ∈ d :: rest, e.1 ≠ k := by
            intro e he heq
            rcases List.mem_cons.mp he with rfl | he
            · rw [heq] at hlt
              simp at hlt
            · have := Std.TransCmp.lt_trans hlt (hhead e he)
              rw [heq] at this
              simp at this
          rw [List.mem_cons]
          exact or_congr_right ⟨fun he => ⟨hbelow e he, he⟩, And.right⟩
      · next heq =>
          have hk : k = d.1 := Std.LawfulEqCmp.eq_of_compare heq
          rw [List.mem_cons, List.mem_cons]
          refine or_congr_right ⟨fun he => ⟨hk ▸ hne he, .inr he⟩, ?_⟩
          rintro ⟨hek, rfl | he⟩
          · exact absurd hk.symm hek
          · exact he
      · next hgt =>
          have hdk : d.1 ≠ k := by
            rintro rfl
            simp at hgt
          rw [List.mem_cons, List.mem_cons, ih hrest]
          constructor
          · rintro (rfl | rfl | ⟨hek, he⟩)
            · exact .inr ⟨hdk, .inl rfl⟩
            · exact .inl rfl
            · exact .inr ⟨hek, .inr he⟩
          · rintro (rfl | ⟨hek, rfl | he⟩)
            · exact .inr (.inl rfl)
            · exact .inl rfl
            · exact .inr (.inr ⟨hek, he⟩)

theorem get?_insert [DecidableEq κ] {m : SortedMap κ ν} {k k' : κ} {v : ν} :
    (m.insert k v).get? k' = if k' = k then some v else m.get? k' := by
  refine Option.ext fun w => ?_
  rw [get?_eq_some_iff, insert, mem_insertEntry_iff m.increasing]
  split
  · next h =>
      subst h
      simp only [Prod.mk.injEq, ne_eq, not_true_eq_false, false_and, or_false, true_and,
        Option.some.injEq]
      exact eq_comm
  · next h =>
      rw [get?_eq_some_iff]
      simp [h]

theorem get?_foldl_insert [DecidableEq κ] {m : SortedMap κ ν} {l : List (κ × ν)} {k : κ} :
    (l.foldl (fun m e => m.insert e.1 e.2) m).get? k = (l.reverse.lookup k).or (m.get? k) := by
  induction l generalizing m with
  | nil => rfl
  | cons e l ih =>
      rw [List.foldl_cons, ih, List.reverse_cons, List.lookup_append, Option.or_assoc, get?_insert]
      refine congrArg _ ?_
      split
      · next hk => rw [List.lookup_cons, beq_iff_eq.mpr hk, Option.some_or]
      · next hk => rw [List.lookup_cons, beq_false_of_ne hk, List.lookup_nil, Option.none_or]

/-- Of entries with the same key the last one is found. -/
theorem get?_ofList [DecidableEq κ] {l : List (κ × ν)} {k : κ} :
    (ofList l).get? k = l.reverse.lookup k :=
  get?_foldl_insert.trans Option.or_none

theorem get?_filter {m : SortedMap κ ν} {p : κ → ν → Bool} {k : κ} :
    (m.filter p).get? k = (m.get? k).filter (p k) := by
  refine Option.ext fun v => ?_
  rw [get?_eq_some_iff, filter, List.mem_filter, Option.filter_eq_some_iff, get?_eq_some_iff]

theorem get?_erase [DecidableEq κ] {m : SortedMap κ ν} {k k' : κ} :
    (m.erase k).get? k' = if k' = k then none else m.get? k' := by
  rw [erase, get?_filter]
  split
  · next h =>
      subst h
      exact Option.filter_eq_none_iff.mpr fun v _ => by simp
  · next h =>
      have hc : compare k' k ≠ .eq := fun he => h (Std.LawfulEqCmp.eq_of_compare he)
      cases hget : m.get? k' with
      | none => rfl
      | some v => rw [Option.filter_some, if_pos (bne_iff_ne.mpr hc)]

theorem get?_map {ω : Type v} {m : SortedMap κ ν} {f : κ → ν → ω} {k : κ} :
    (m.map f).get? k = (m.get? k).map (f k) := by
  refine Option.ext fun w => ?_
  rw [get?_eq_some_iff, map, List.mem_map, Option.map_eq_some_iff]
  constructor
  · rintro ⟨⟨k', v⟩, hmem, heq⟩
    cases heq
    exact ⟨v, get?_eq_some_iff.mpr hmem, rfl⟩
  · rintro ⟨v, hget, rfl⟩
    exact ⟨(k, v), get?_eq_some_iff.mp hget, rfl⟩

theorem get?_modify [DecidableEq κ] {m : SortedMap κ ν} {k k' : κ} {f : ν → ν} :
    (m.modify k f).get? k' = if k' = k then (m.get? k').map f else m.get? k' := by
  rw [modify, get?_map]
  by_cases h : k' = k
  · subst h
    simp
  · have hc : compare k' k ≠ .eq := fun he => h (Std.LawfulEqCmp.eq_of_compare he)
    simp [h, hc]

theorem mem_values_iff {m : SortedMap κ ν} {v : ν} : v ∈ m.values ↔ ∃ k, m.get? k = some v := by
  simp only [values, List.mem_map, Prod.exists, exists_eq_right, get?_eq_some_iff]

theorem mem_keys_iff {m : SortedMap κ ν} {k : κ} : k ∈ m.keys ↔ (m.get? k).isSome := by
  simp only [keys, List.mem_map, Prod.exists, exists_and_right, exists_eq_right,
    Option.isSome_iff_exists, get?_eq_some_iff]

/-- Two maps that answer every look-up alike are equal. -/
theorem ext_get? {m₁ m₂ : SortedMap κ ν} (h : ∀ k, m₁.get? k = m₂.get? k) : m₁ = m₂ := by
  refine ext (List.Perm.eq_of_pairwise ?_ m₁.increasing m₂.increasing ?_)
  · intro a b _ _ hab hba
    have := Std.TransCmp.lt_trans hab hba
    simp at this
  · have hmem : ∀ e, e ∈ m₁.entries ↔ e ∈ m₂.entries := by
      rintro ⟨k, v⟩
      rw [← get?_eq_some_iff, h k, get?_eq_some_iff]
    exact (List.perm_ext_iff_of_nodup nodup_entries nodup_entries).mpr hmem

end FilterTree.SortedMap
