import FilterTree.Proofs.Insert
import FilterTree.Proofs.PathText

/-!
# A path that can be read can be created

In the tree without objects a path is created from the top down, one group for each of its names.
What carries the next level is `Descends`: the levels so far have the numbers from zero on, and
below the last of them there is nothing. So the next name is free whatever it is, its parent is a
group and takes anything, and the only thing that can be wrong with it is that it is no valid name.

Reading a text asks of its pieces what the tree asks of a name. So the paths that can be read are
those that can be created, and with what `PathText` says of texts this is all that reading and
writing a path promise (`text_faithful`).
-/

namespace FilterTree

open Links

/-- The paths of the first name, of the first two, and so on down to the path itself. -/
def Path.levels (p : Path) : List Path :=
  (List.range p.names.length).map fun i => ⟨p.names.take (i + 1)⟩

theorem Path.levels_child {p : Path} {name : String} :
    (p.child name).levels = p.levels ++ [p.child name] := by
  rw [levels, child, List.length_append, List.length_singleton, List.range_succ, List.map_append,
    List.map_singleton, levels]
  congr 1
  · refine List.map_congr_left fun i hi => ?_
    rw [List.take_append_of_le_length (Nat.succ_le_of_lt (List.mem_range.mp hi))]
  · rw [List.take_of_length_le (by simp)]

/-- Create a group at every level of a path. -/
def Edit.createLevels (p : Path) : Edit (List ObjectId) := p.levels.mapM fun q => create q .group

namespace Tree

variable {t : Tree} {p : Path} {name : String}

/-- The levels of a path are numbered from zero on, and nothing is below the last. -/
structure Descends (t : Tree) (p : Path) : Prop where
  wellFormed : t.WellFormed
  next : t.nextId = p.names.length
  numbered : ∀ i < p.names.length, t.idOf? ⟨p.names.take (i + 1)⟩ = some i
  ends : ∃ place, t.links.walk none p.names = some place ∧ t.Accepts place .group ∧
    ∀ name, t.links place name = none

theorem descends_empty : Descends .empty .root where
  wellFormed := wellFormed_empty
  next := rfl
  numbered := fun i hi => absurd hi (Nat.not_lt_zero i)
  ends := ⟨none, rfl, fun _ hid => (nomatch hid), fun _ => rfl⟩

/-- One more level can be created exactly because its name is valid. -/
theorem Descends.child (h : t.Descends p) (hname : validName name = true) :
    ∃ u, (Edit.create (p.child name) .group).on t = (.ok p.names.length, u) ∧
      u.Descends (p.child name) := by
  obtain ⟨place, hfound, haccepts, hfree⟩ := h.ends
  have hfits : ∀ shape, Body.group.tupleShape? = some shape → shape.size?.isSome := by
    rintro _ ⟨⟩
  have hi : t.Insertable p name .group place := ⟨hname, hfits, hfound, haccepts, hfree name⟩
  have hwalk := walk_addObject h.wellFormed hi
  refine ⟨t.addObject place name .group, ?_, ?_⟩
  · exact Edit.create_eq_ok.mpr ⟨p, name, place, rfl, hi, h.next.symm, rfl⟩
  · have hnew : (t.addObject place name .group).object? t.nextId =
        some ⟨name, place, .empty, .group⟩ := object?_addObject_self rfl
    refine ⟨h.wellFormed.addObject hi trivial trivial, ?_, fun i hlt => ?_,
      some t.nextId, hwalk, ?_, fun other => ?_⟩
    · rw [nextId_addObject, h.next, Path.child, List.length_append, List.length_singleton]
    · rw [Path.child, List.length_append, List.length_singleton] at hlt
      rw [Path.child]
      rcases Nat.lt_succ_iff_lt_or_eq.mp hlt with hold | rfl
      · rw [List.take_append_of_le_length (Nat.succ_le_of_lt hold)]
        exact idOf?_eq_some.mpr (walk_mono (links_addObject_of_some h.wellFormed hi)
          (idOf?_eq_some.mp (h.numbered i hold)))
      · rw [List.take_of_length_le (by simp), ← h.next]
        exact idOf?_eq_some.mpr hwalk
    · refine (accepts_some hnew).mpr ⟨rfl, ?_⟩
      rintro _ ⟨⟩
    · rw [links, hnew]
      rfl

end Tree

namespace Edit

variable {t u : Tree} {p : Path} {name : String} {ids : List ObjectId}

theorem createLevels_child :
    createLevels (p.child name) = do
      let ids ← createLevels p
      let id ← create (p.child name) .group
      return ids ++ [id] := by
  rw [createLevels, Path.levels_child, List.mapM_append]
  simp only [List.mapM_cons, List.mapM_nil, bind_assoc, pure_bind]
  rfl

theorem createLevels_of_valid (h : p.Valid) :
    ∃ t, (createLevels p).on .empty = (.ok (List.range p.names.length), t) ∧ t.Descends p := by
  obtain ⟨names⟩ := p
  induction names using List.reverseRecOn with
  | nil => exact ⟨.empty, rfl, Tree.descends_empty⟩
  | append_singleton names name ih =>
      obtain ⟨t, ht, hdescends⟩ := ih fun n hn => h n (List.mem_append_left _ hn)
      obtain ⟨u, hu, hchild⟩ :=
        hdescends.child (h name (List.mem_append_right _ (List.mem_singleton_self _)))
      refine ⟨u, ?_, hchild⟩
      rw [show (⟨names ++ [name]⟩ : Path) = Path.child ⟨names⟩ name from rfl, createLevels_child,
        bind_eq_ok]
      refine ⟨_, t, ht, bind_eq_ok.mpr ⟨_, u, hu, ?_⟩⟩
      rw [Path.child, List.length_append, List.length_singleton, List.range_succ]
      rfl

theorem valid_of_createLevels (h : (createLevels p).on t = (.ok ids, u)) : p.Valid := by
  obtain ⟨names⟩ := p
  induction names using List.reverseRecOn generalizing ids u with
  | nil => exact fun name hname => nomatch hname
  | append_singleton names name ih =>
      rw [show (⟨names ++ [name]⟩ : Path) = Path.child ⟨names⟩ name from rfl, createLevels_child,
        bind_eq_ok] at h
      obtain ⟨above, v, habove, h⟩ := h
      obtain ⟨id, w, hcreate, -⟩ := bind_eq_ok.mp h
      obtain ⟨parent, last, place, hpath, hi, -⟩ := create_eq_ok.mp hcreate
      intro n hn
      rcases List.mem_append.mp hn with hold | hnew
      · exact ih habove n hold
      · -- the level that was created last has the last name
        obtain ⟨-, hlast⟩ := List.append_inj' (congrArg Path.names hpath) rfl
        rw [List.mem_singleton.mp hnew, List.head_eq_of_cons_eq hlast]
        exact hi.valid

end Edit

namespace Path

/--
A text and the path it stands for. A text that can be read is the text of its path, and in the tree
without objects that path can be created level by level. A text is refused exactly for the first of
its pieces that is nothing but blanks, if it has one and is not empty. Valid names read back, so
their texts tell them apart, and names are accepted exactly if they can be read from some text.
-/
theorem text_faithful (s : String) :
    (∀ p, ofText? s = .ok p → p.toText = s ∧
      ∃ t, (Edit.createLevels p).on .empty = (.ok (List.range p.names.length), t) ∧
        ∀ i < p.names.length, t.idOf? ⟨p.names.take (i + 1)⟩ = some i) ∧
    (∀ e, ofText? s = .error e ↔ s ≠ "" ∧ ∃ piece,
      ((s.toList.splitOn separator).find? fun piece => piece.all Text.isBlank) = some piece ∧
        e = ⟨String.ofList piece⟩) ∧
    (∀ p : Path, (∀ name ∈ p.names, validName name = true) → ofText? p.toText = .ok p) ∧
    (∀ p q : Path, (∀ name ∈ p.names, validName name = true) →
      (∀ name ∈ q.names, validName name = true) → p.toText = q.toText → p = q) ∧
    (∀ names p, ofNames? names = .ok p ↔ p.names = names ∧ ∃ text, ofText? text = .ok p) ∧
    ∀ p : Path, (∃ ids t, (Edit.createLevels p).on .empty = (.ok ids, t)) ↔
      ∃ text, ofText? text = .ok p := by
  refine ⟨fun p h => ⟨toText_of_ofText? h, ?_⟩, fun e => ofText?_eq_error,
    fun p h => ofText?_toText h, fun p q hp hq h => toText_injective hp hq h,
    fun names p => ofNames?_eq_ok_iff_text, fun p => ⟨?_, ?_⟩⟩
  · obtain ⟨t, ht, hdescends⟩ := Edit.createLevels_of_valid (valid_of_ofText? h)
    exact ⟨t, ht, hdescends.numbered⟩
  · rintro ⟨ids, t, h⟩
    exact ⟨_, ofText?_toText (Edit.valid_of_createLevels h)⟩
  · rintro ⟨text, h⟩
    obtain ⟨t, ht, -⟩ := Edit.createLevels_of_valid (valid_of_ofText? h)
    exact ⟨_, t, ht⟩

/-- A path of two levels and what is read from its text; a text with a blank piece in the middle. -/
theorem text_faithful_image :
    let p : Path := ⟨["Image", "Cell Data"]⟩
    ofText? "Image/Cell Data" = .ok p ∧ p.toText = "Image/Cell Data" ∧
      (∃ t, (Edit.createLevels p).on .empty = (.ok [0, 1], t) ∧ t.idOf? p = some 1) ∧
      (∀ name ∈ p.names, validName name = true) ∧ ofText? p.toText = .ok p ∧
      p = (single "Image").child "Cell Data" ∧ ofText? "a/ //b" = .error ⟨" "⟩ := by
  intro p
  have hread : ofText? "Image/Cell Data" = .ok p := by decide +kernel
  have hvalid : ∀ name ∈ p.names, validName name = true := by decide +kernel
  obtain ⟨hok, -, hback, hinj, -, -⟩ := text_faithful "Image/Cell Data"
  obtain ⟨htext, t, ht, hids⟩ := hok p hread
  have hsame := hinj p ((single "Image").child "Cell Data") hvalid hvalid rfl
  have hrefused := ((text_faithful "a/ //b").2.1 ⟨" "⟩).mpr
    ⟨by decide, [' '], by decide +kernel, rfl⟩
  exact ⟨hread, htext, ⟨t, ht, hids 1 (by decide)⟩, hvalid, hback p hvalid, hsame, hrefused⟩

end Path

end FilterTree
