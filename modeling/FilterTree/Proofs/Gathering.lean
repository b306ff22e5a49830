import FilterTree.Proofs.AllOrNothing
import FilterTree.Proofs.Remnant

/-!
# Moving several objects to one place

A plan looks at all sources in the tree that is there before any of them moves.
It asks for free names at the destination and for different ones, and a move
takes neither away from the moves that follow: it fills one name that no other
wants, and nothing else changes at the destination (`Movable`). What a move does
take away is its own path, with all paths below. So one thing decides how the
moves end, and it is the order. A source below another has to come before it; if
it comes after, it is no longer where it was, and its move is the one that is
refused (`Batch.applyFrom_moves`).

No path of a source comes back. It could only do so below a new path, but then
something would have been at that path before, and its name was found free.
-/

namespace FilterTree

open Edit

/-- What is not there cannot be moved. -/
theorem Edit.move_of_absent {t : Tree} {p q : Path} (hp : p ≠ .root) (hid : t.idOf? p = none) :
    (move p q).on t = (.error (.pathNotFound p), t) := by
  rcases List.eq_nil_or_concat p.names with hnil | ⟨names, name, hnames⟩
  · exact absurd (congrArg Path.mk hnil) hp
  · have hsplit : Tree.splitPath p = .ok (⟨names⟩, name) :=
      Tree.splitPath_eq_ok.mpr (congrArg Path.mk (hnames.trans List.concat_eq_append))
    have hresolve : t.resolve p = .error (.pathNotFound p) := by
      rw [Tree.resolve, hid]
    rw [move, on_ask_bind, hsplit]
    dsimp only
    rw [on_ask_bind, hresolve]

namespace Tree

variable {t u : Tree} {path destination : Path} {rest : List Path} {id : ObjectId}

/-- At a path is a data group or a geometry. -/
def GroupAt (t : Tree) (path : Path) : Prop :=
  ∃ id o, t.idOf? path = some id ∧ t.object? id = some o ∧
    (o.kind = .dataGroup ∨ o.kind.isGeometry = true)

/-- A data group or a geometry takes any body. -/
theorem GroupAt.container (h : t.GroupAt path) {body : Body} :
    ∃ id o, t.idOf? path = some id ∧ t.object? id = some o ∧ o.kind.isContainer = true ∧
      ∀ shape, o.body = .matrix shape → body.HasTuples shape := by
  obtain ⟨id, o, hid, ho, hkind⟩ := h
  refine ⟨id, o, hid, ho, ?_, fun shape hshape => ?_⟩
  · cases hk : o.kind <;> simp_all [ObjectKind.isContainer, ObjectKind.isGeometry]
  · simp [Object.kind, hshape, Body.kind, ObjectKind.isGeometry] at hkind

@[simp] theorem kind_forget {b : Body} : (b.forget id).kind = b.kind := by
  cases b with
  | geometry g => cases g <;> rfl
  | group | matrix _ | array _ | list _ => rfl

/--
Objects that can be moved to a destination, as far as the destination goes: it
is not below them, they are not there yet, and their names are free and
different. The paths that they would leave are not below those they would get.
-/
structure Movable (t : Tree) (destination : Path) (sources : List Path) : Prop where
  group : t.GroupAt destination
  named : ∀ p ∈ sources, p ≠ .root
  apart : ∀ p ∈ sources, ¬ p.leadsTo destination
  away : ∀ p ∈ sources, p.parent? ≠ some destination
  free : ∀ p ∈ sources, ∀ name, p.name? = some name → t.contains (destination.child name) = false
  distinct : sources.Pairwise fun p q => p.name? ≠ q.name?
  unreached : ∀ p ∈ sources, ∀ name, p.name? = some name →
    ∀ q ∈ sources, ¬ (destination.child name).leadsTo q

namespace Movable

theorem not_leadsTo_child (hm : t.Movable destination rest) (hp : path ∈ rest) {name : String} :
    ¬ path.leadsTo (destination.child name) := by
  intro hleads
  rcases List.prefix_concat_iff.mp (leadsTo_iff.mp hleads) with hsame | habove
  · obtain rfl : path = destination.child name := congrArg Path.mk hsame
    exact hm.away _ hp Path.parent?_child
  · exact hm.apart path hp (leadsTo_iff.mpr habove)

/-- The move of an object that is there is carried out. -/
theorem succeeds (hm : t.Movable destination (path :: rest)) (h : WellFormed t)
    (hid : t.idOf? path = some id) : ∃ u, (move path destination).on t = (.ok (), u) := by
  obtain ⟨parent, name, rfl⟩ := eq_child_of_idOf? hid
  obtain ⟨o, ho, rfl, -⟩ := h.object_at hid
  obtain ⟨i, d, hi, -⟩ := hm.group
  obtain ⟨⟨⟩, u, hok⟩ := (move_succeeds_iff h).mpr
    ⟨ne_root_of_idOf? hid, id, o, o.name, hid, ho, Path.name?_child, hm.apart _ List.mem_cons_self,
      .inr (Option.isSome_of_eq_some hi), .inr
        ⟨h.named ho, Body.fits_of_sound (h.sound ho), .inr hm.group.container,
          hm.free _ List.mem_cons_self _ Path.name?_child⟩⟩
  exact ⟨u, hok⟩

/-- After a move the rest is still movable. -/
theorem move (hm : t.Movable destination (path :: rest)) (h : WellFormed t)
    (hok : (move path destination).on t = (.ok (), u)) : u.Movable destination rest := by
  obtain ⟨id, name, -, hname, hrel, hkept⟩ := move_relocates h.toLinked hok
  have hmem : ∀ {q}, q ∈ rest → q ∈ path :: rest := List.mem_cons_of_mem path
  obtain ⟨hhead, hdistinct⟩ := List.pairwise_cons.mp hm.distinct
  refine ⟨?_, fun p hp => hm.named p (hmem hp), fun p hp => hm.apart p (hmem hp),
    fun p hp => hm.away p (hmem hp), ?_, hdistinct,
    fun p hp n hn q hq => hm.unreached p (hmem hp) n hn q (hmem hq)⟩
  · obtain ⟨i, o, hi, ho, hkind⟩ := hm.group
    have hbody := hkept.bodies i
    rw [ho, Option.map_some] at hbody
    obtain ⟨o', ho', hbody⟩ := Option.map_eq_some_iff.mp hbody
    refine ⟨i, o', move_stays h hok hi (hm.apart _ List.mem_cons_self), ho', ?_⟩
    have hsame : o'.kind = o.kind := by
      rw [Object.kind, Object.kind, hbody]
      split
      · exact kind_forget
      · rfl
    rwa [hsame]
  · intro q hq n hn
    have hne : name ≠ n := by
      rintro rfl
      exact hhead q hq (hname.trans hn.symm)
    have hother : ¬ (destination.child name).leadsTo (destination.child n) := by
      intro hleads
      have hnames := (leadsTo_iff.mp hleads).eq_of_length (by simp [Path.child])
      exact hne (by simpa [Path.child] using hnames)
    have hold := hm.free q (hmem hq) n hn
    rw [contains] at hold ⊢
    rwa [hrel.elsewhere _ hother (hm.not_leadsTo_child List.mem_cons_self)]

/-- The paths of other sources lead where they did, unless they led over the moved object. -/
theorem idOf?_of_move (hm : t.Movable destination (path :: rest)) (h : WellFormed t)
    (hok : (Edit.move path destination).on t = (.ok (), u)) {q : Path} (hq : q ∈ rest) :
    u.idOf? q = if path.leadsTo q then none else t.idOf? q := by
  obtain ⟨id, name, -, hname, hrel, -⟩ := move_relocates h.toLinked hok
  have hnew := hm.unreached path List.mem_cons_self name hname q (List.mem_cons_of_mem path hq)
  split
  · next hold => exact hrel.vacated q hnew hold
  · next hold => exact hrel.elsewhere q hnew hold

end Movable

end Tree

namespace Batch

open FilterTree.Tree

variable {mode : Mode} {t u : Tree} {destination : Path} {sources : List Path}

/-- What lies below none of the sources stays. -/
theorem Carries.moves_keep (hc : Carries mode (sources.map (Action.move · destination)) t u)
    (h : WellFormed t) {r : Path} {id : ObjectId} (hapart : ∀ p ∈ sources, ¬ p.leadsTo r)
    (hid : t.idOf? r = some id) : u.idOf? r = some id :=
  hc.keeps (I := fun t => t.idOf? r = some id) h (fun a ha t u ht hok hr => by
    obtain ⟨p, hp, rfl⟩ := List.mem_map.mp ha
    exact move_stays ht hok hr (hapart p hp)) hid

/-- What was moved is found at the destination under its name. -/
theorem Carries.gathers (hc : Carries mode (sources.map (Action.move · destination)) t u)
    (hm : t.Movable destination sources) (h : WellFormed t) :
    ∀ p ∈ sources, ∃ id name, t.idOf? p = some id ∧ p.name? = some name ∧
      u.idOf? (destination.child name) = some id := by
  induction sources generalizing t with
  | nil => exact fun _ hp => nomatch hp
  | cons p sources ih =>
      cases hc with
      | cons ha hrest =>
          have hwell := ((Action.move p destination).makes h _ _ ha).wellFormed h
          refine List.forall_mem_cons.mpr ⟨?_, fun q hq => ?_⟩
          · obtain ⟨id, name, hid, hname, hrel, -⟩ := move_relocates h.toLinked ha
            have hnew := hrel.below []
            simp only [List.append_nil] at hnew
            exact ⟨id, name, hid, hname, hrest.moves_keep hwell
              (fun q hq => hm.not_leadsTo_child (List.mem_cons_of_mem p hq)) (hnew.trans hid)⟩
          · obtain ⟨id, name, hid, hname, hplace⟩ := ih hrest (hm.move h ha) hwell q hq
            rw [hm.idOf?_of_move h ha hq] at hid
            split at hid
            · cases hid
            · exact ⟨id, name, hid, hname, hplace⟩

/--
Moves to one destination are all carried out, or the first is refused whose
object is not there, or is no longer there because another one took it along.
-/
theorem applyFrom_moves {index : Nat} (hm : t.Movable destination sources) (h : WellFormed t) :
    (∃ u, applyFrom mode index (sources.map (Action.move · destination)) t = (.ok (), u) ∧
      Carries mode (sources.map (Action.move · destination)) t u ∧
      sources.Pairwise fun p q => ¬ p.leadsTo q) ∨
    ∃ done q rest u, sources = done ++ q :: rest ∧
      applyFrom mode index (sources.map (Action.move · destination)) t =
        (.error ⟨index + done.length, .move q destination, .pathNotFound q⟩, u) ∧
      (t.contains q = false ∨ ∃ p ∈ done, p.leadsTo q = true) := by
  induction sources generalizing t index with
  | nil => exact .inl ⟨t, rfl, .nil, .nil⟩
  | cons p sources ih =>
      cases hid : t.idOf? p with
      | none =>
          have hbad : ((Action.move p destination).apply mode).on t =
              (.error (.pathNotFound p), t) := move_of_absent (hm.named p List.mem_cons_self) hid
          refine .inr ⟨[], p, sources, t, rfl, ?_, .inl (by rw [contains, hid]; rfl)⟩
          rw [List.map_cons, applyFrom, hbad]
          rfl
      | some id =>
          obtain ⟨u, hok⟩ := hm.succeeds h hid
          have ha : ((Action.move p destination).apply mode).on t = (.ok (), u) := hok
          have hwell := ((Action.move p destination).makes h _ _ ha).wellFormed h
          rw [List.map_cons, applyFrom, ha]
          dsimp only
          rcases ih (hm.move h hok) hwell with ⟨v, happly, hc, hapart⟩ |
            ⟨done, q, rest, v, rfl, happly, hgone⟩
          · refine .inl ⟨v, happly, .cons ha hc, List.pairwise_cons.mpr ⟨?_, hapart⟩⟩
            intro q hq hleads
            -- all moves were carried out, so the object was there when its turn came
            obtain ⟨i, -, hi, -⟩ := hc.gathers (hm.move h hok) hwell q hq
            rw [hm.idOf?_of_move h hok hq, if_pos hleads] at hi
            cases hi
          · refine .inr ⟨p :: done, q, rest, v, rfl, ?_, ?_⟩
            · rw [List.length_cons, Nat.add_comm done.length, ← Nat.add_assoc]
              exact happly
            · rcases hgone with hnone | ⟨r, hr, hleads⟩
              · rw [contains, hm.idOf?_of_move h hok (List.mem_append_right done List.mem_cons_self)]
                  at hnone
                split at hnone
                · next hleads => exact .inr ⟨p, List.mem_cons_self, hleads⟩
                · exact .inl hnone
              · exact .inr ⟨r, List.mem_cons_of_mem p hr, hleads⟩

end Batch

/-! ## The selection and its plan -/

theorem Path.eq_child_of_parent? {p q : Path} (h : p.parent? = some q) :
    ∃ name, p = q.child name := by
  rw [parent?] at h
  split at h
  · cases h
  · next hne =>
      cases h
      have hnames := List.dropLast_append_getLast (List.isEmpty_eq_false_iff.mp (by simpa using hne))
      exact ⟨_, congrArg Path.mk hnames.symm⟩

/-- On the way to an object there are objects. -/
theorem Tree.contains_of_leadsTo {t : Tree} {p q : Path} (hleads : p.leadsTo q = true)
    (hp : p ≠ .root) (hq : t.contains q = true) : t.contains p = true := by
  obtain ⟨rest, hrest⟩ := leadsTo_iff.mp hleads
  obtain ⟨id, hid⟩ := Option.isSome_iff_exists.mp hq
  rw [idOf?_eq_some, ← hrest, Links.walk_append, Option.bind_eq_some_iff] at hid
  obtain ⟨place, hplace, -⟩ := hid
  exact (place_iff.mp ⟨place, hplace⟩).resolve_left hp

namespace Builtin

open FilterTree.Tree

namespace Move

variable {args bound : Arguments} {t : Tree} {sources : List Path} {destination : Path}

/-- Arguments select objects and a destination: they bind, and this is what they bind to. -/
def Selects (args : Arguments) (sources : List Path) (destination : Path) : Prop :=
  ∃ bound, (schema.bind args).outcome = .ok bound ∧ bound.get .paths sourcesKey = .ok sources ∧
    bound.get .path destinationKey = .ok destination

/-- The sources that are not yet where they are to be. -/
def moving (sources : List Path) (destination : Path) : List Path :=
  sources.filter fun path => !isInPlace destination path

theorem mem_moving {p : Path} :
    p ∈ moving sources destination ↔ p ∈ sources ∧ p.parent? ≠ some destination := by
  simp [moving, isInPlace]

/-- Each name that is moved is free at the destination, and no name is moved twice. -/
theorem names_of_checkSources {incoming : List String} {warnings : List Warning}
    (h : checkSources t destination incoming sources = .ok warnings) :
    (∀ p ∈ moving sources destination, ∃ name, p.name? = some name ∧
      t.contains (destination.child name) = false ∧ name ∉ incoming) ∧
    (moving sources destination).Pairwise fun p q => p.name? ≠ q.name? := by
  induction sources generalizing incoming warnings with
  | nil => exact ⟨fun _ hp => (nomatch hp), .nil⟩
  | cons path rest ih =>
      obtain ⟨name, hname, -, incoming', warnings', hrest, hcases⟩ := checkSources_cons h
      obtain ⟨hfree, hdistinct⟩ := ih hrest
      rcases hcases with ⟨hplace, rfl⟩ | ⟨hplace, hpath, hnew, rfl⟩
      · have hskip : moving (path :: rest) destination = moving rest destination :=
          List.filter_cons_of_neg (by simp [hplace])
        rw [hskip]
        exact ⟨hfree, hdistinct⟩
      · have htake : moving (path :: rest) destination = path :: moving rest destination :=
          List.filter_cons_of_pos (by simp [hplace])
        rw [htake]
        refine ⟨List.forall_mem_cons.mpr ⟨⟨name, hname, hpath, hnew⟩, fun p hp => ?_⟩,
          List.pairwise_cons.mpr ⟨fun p hp => ?_, hdistinct⟩⟩
        · obtain ⟨n, hn, hcontains, hmem⟩ := hfree p hp
          exact ⟨n, hn, hcontains, fun h => hmem (List.mem_cons_of_mem name h)⟩
        · obtain ⟨n, hn, -, hmem⟩ := hfree p hp
          rw [hname, hn]
          rintro ⟨⟩
          exact hmem List.mem_cons_self

/-- What a plan finds out in the tree that is there holds up during all of its moves. -/
theorem movable {warnings : List Warning} (hgroup : t.GroupAt destination)
    (hfound : ∀ p ∈ sources, t.contains p = true)
    (h : checkSources t destination [] sources = .ok warnings) :
    t.Movable destination (moving sources destination) := by
  obtain ⟨hnames, hdistinct⟩ := names_of_checkSources h
  have hfree : ∀ p ∈ moving sources destination, ∀ name, p.name? = some name →
      t.contains (destination.child name) = false := by
    intro p hp name hname
    obtain ⟨n, hn, hcontains, -⟩ := hnames p hp
    cases hname.symm.trans hn
    exact hcontains
  refine ⟨hgroup, ?_, ?_, fun p hp => (mem_moving.mp hp).2, hfree, hdistinct, ?_⟩
  · rintro p hp rfl
    obtain ⟨n, hn, -⟩ := hnames _ hp
    cases hn
  · exact fun p hp => not_leadsTo_of_checkSources h p (mem_moving.mp hp).1
  · intro p hp name hname q hq hleads
    have hthere := contains_of_leadsTo hleads (by simp [Path.child, Path.root])
      (hfound q (mem_moving.mp hq).1)
    cases (hfree p hp name hname).symm.trans hthere

/-- A source may come after one that it lies below, if that one is in place. -/
theorem pairwise_moving {warnings : List Warning}
    (h : checkSources t destination [] sources = .ok warnings) :
    (moving sources destination).Pairwise (fun p q => ¬ p.leadsTo q) ↔
      sources.Pairwise fun p q => p.isAncestorOf q = true → p.parent? = some destination := by
  constructor
  · intro hapart
    rw [moving, List.pairwise_filter] at hapart
    refine hapart.imp_of_mem fun {p q} hp hq hpq habove => ?_
    obtain ⟨hleads, hshorter⟩ := Path.isAncestorOf_iff.mp habove
    by_contra hplace
    by_cases hqplace : q.parent? = some destination
    · -- then the destination lies below the first one
      obtain ⟨name, rfl⟩ := Path.eq_child_of_parent? hqplace
      rcases List.prefix_concat_iff.mp (leadsTo_iff.mp hleads) with hsame | hprefix
      · rw [hsame] at hshorter
        simp [Path.child] at hshorter
      · exact not_leadsTo_of_checkSources h p hp (leadsTo_iff.mpr hprefix)
    · exact hpq (by simpa [isInPlace] using hplace) (by simpa [isInPlace] using hqplace) hleads
  · intro hordered
    have hdistinct := (names_of_checkSources h).2
    refine (hdistinct.and (hordered.filter _)).imp_of_mem fun {p q} hp _ hboth hleads => ?_
    rcases Path.leadsTo_cases hleads with rfl | habove
    · exact hboth.1 rfl
    · exact (mem_moving.mp hp).2 (hboth.2 habove)

/-- A preflight is valid when the sources are there and the plan's checks accept them. -/
theorem preflight_spec {run : Run} {batch : Batch}
    (hok : (filter.preflight t args run).1.actions.outcome = .ok batch) :
    ∃ sources destination warnings, Selects args sources destination ∧
      (∀ p ∈ sources, t.contains p = true) ∧
      checkSources t destination [] sources = .ok warnings ∧
      batch = (moving sources destination).map (Action.move · destination) := by
  obtain ⟨bound, q, hbind, hchecked, hplan, hout⟩ :=
    (Filter.preflight_eq_ok (g := plan) fun _ _ => rfl).mp hok
  obtain ⟨sources, hsources, hplan⟩ := check_bind_eq_ok.mp hplan
  obtain ⟨destination, hdestination, hplan⟩ := check_bind_eq_ok.mp hplan
  obtain ⟨warnings, hwarnings, hplan⟩ := check_bind_eq_ok.mp hplan
  cases hplan
  cases hout
  have hfound := Schema.contains_of_checked hchecked (p := (Parameter.objectsSelection sourcesKey
    "Data to Move" "Objects to reparent" []).consuming) List.mem_cons_self rfl rfl hsources
  exact ⟨sources, destination, warnings, ⟨bound, hbind, hsources, hdestination⟩, hfound,
    hwarnings, rfl⟩

/-- After its moves every source is a child of the destination. -/
theorem gathered {mode : Mode} {u : Tree} (hm : t.Movable destination (moving sources destination))
    (h : WellFormed t) (hfound : ∀ p ∈ sources, t.contains p = true)
    (hc : Batch.Carries mode ((moving sources destination).map (Action.move · destination)) t u) :
    u.idOf? destination = t.idOf? destination ∧
      ∀ p ∈ sources, ∃ id name, t.idOf? p = some id ∧ p.name? = some name ∧
        u.idOf? (destination.child name) = some id := by
  obtain ⟨i, o, hi, -⟩ := hm.group
  refine ⟨(hc.moves_keep h hm.apart hi).trans hi.symm, fun p hp => ?_⟩
  by_cases hplace : p.parent? = some destination
  · obtain ⟨name, rfl⟩ := Path.eq_child_of_parent? hplace
    obtain ⟨id, hid⟩ := Option.isSome_iff_exists.mp (hfound _ hp)
    exact ⟨id, name, hid, Path.name?_child,
      hc.moves_keep h (fun q hq => hm.not_leadsTo_child hq) hid⟩
  · exact hc.gathers hm h p (mem_moving.mpr ⟨hp, hplace⟩)

end Move

variable {args : Arguments} {t : Tree} {run : Run} {batch : Batch}

/--
Moves with a valid preflight, on a well-formed tree, to a group or a geometry.
They are carried out exactly if every source that lies below another comes
before it, or the other one is in place already. Then all sources are children of
the destination under their old names, those that were in place included. If they
are not carried out, the refused move is that of a source below another source,
which is no longer where it was.
-/
theorem moves_gather (h : t.WellFormed)
    (hok : (Move.filter.preflight t args run).1.actions.outcome = .ok batch) :
    ∃ sources destination, Move.Selects args sources destination ∧
      (t.GroupAt destination → ∀ mode,
        ((∃ u, batch.apply mode t = (.ok (), u)) ↔
          sources.Pairwise fun p q => p.isAncestorOf q = true → p.parent? = some destination) ∧
        (∀ u, batch.apply mode t = (.ok (), u) →
          u.idOf? destination = t.idOf? destination ∧
          ∀ p ∈ sources, ∃ id name, t.idOf? p = some id ∧ p.name? = some name ∧
            u.idOf? (destination.child name) = some id) ∧
        ∀ e u, batch.apply mode t = (.error e, u) →
          ∃ q ∈ sources, e.action = .move q destination ∧ e.cause = .pathNotFound q ∧
            ∃ p ∈ sources, p.isAncestorOf q = true) := by
  obtain ⟨sources, destination, warnings, hselects, hfound, hchecks, rfl⟩ :=
    Move.preflight_spec hok
  refine ⟨sources, destination, hselects, fun hgroup mode => ?_⟩
  have hm := Move.movable hgroup hfound hchecks
  rw [← Move.pairwise_moving hchecks]
  rcases @Batch.applyFrom_moves mode t destination (Move.moving sources destination) 0 hm h with
    ⟨v, hv, hc, hapart⟩ | ⟨done, q, rest, v, hsplit, hv, hgone⟩
  · refine ⟨⟨fun _ => hapart, fun _ => ⟨v, hv⟩⟩, fun u happly => ?_, fun e u happly => ?_⟩
    · cases hv.symm.trans happly
      exact Move.gathered hm h hfound hc
    · cases hv.symm.trans happly
  · have hq : q ∈ Move.moving sources destination :=
      hsplit ▸ List.mem_append_right done List.mem_cons_self
    have hthere := hfound q (Move.mem_moving.mp hq).1
    obtain ⟨p, hp, hleads⟩ := hgone.resolve_left fun hnone => by
      cases hnone.symm.trans hthere
    have hbefore : ∀ {R : Path → Path → Prop},
        (Move.moving sources destination).Pairwise R → R p q := by
      intro R hR
      rw [hsplit, List.pairwise_append] at hR
      exact hR.2.2 p hp q List.mem_cons_self
    refine ⟨⟨fun ⟨u, happly⟩ => ?_, fun hapart => absurd hleads (hbefore hapart)⟩,
      fun u happly => ?_, fun e u happly => ?_⟩
    · cases hv.symm.trans happly
    · cases hv.symm.trans happly
    · cases hv.symm.trans happly
      have habove := (Path.leadsTo_cases hleads).resolve_left fun hsame =>
        hbefore hm.distinct (congrArg Path.name? hsame)
      have hp : p ∈ Move.moving sources destination := hsplit ▸ List.mem_append_left _ hp
      exact ⟨q, (Move.mem_moving.mp hq).1, rfl, rfl, p, (Move.mem_moving.mp hp).1, habove⟩

/-- A group in a group and the one around it, the inner one first. -/
theorem moves_gather_nested :
    Move.nested.WellFormed ∧ ∃ batch u,
      (Move.filter.preflight Move.nested
        ((Arguments.none.insert Move.sourcesKey (.paths [⟨["a", "b"]⟩, .single "a"])).insert
          Move.destinationKey (.path (.single "c"))) (.new 1)).1.actions.outcome = .ok batch ∧
      Move.nested.GroupAt (.single "c") ∧
      batch.apply .execute Move.nested = (.ok (), u) ∧
      u.idOf? ⟨["c", "b"]⟩ = Move.nested.idOf? ⟨["a", "b"]⟩ := by
  have hok : (Move.filter.preflight Move.nested
      ((Arguments.none.insert Move.sourcesKey (.paths [⟨["a", "b"]⟩, .single "a"])).insert
        Move.destinationKey (.path (.single "c"))) (.new 1)).1.actions.outcome =
      .ok [.move ⟨["a", "b"]⟩ (.single "c"), .move (.single "a") (.single "c")] := rfl
  have hgroup : Move.nested.GroupAt (.single "c") := ⟨_, _, rfl, rfl, .inl rfl⟩
  obtain ⟨sources, destination, ⟨bound, hbind, hsources, hdestination⟩, hall⟩ :=
    moves_gather Move.wellFormed_nested hok
  cases hbind
  cases hsources
  cases hdestination
  obtain ⟨hiff, hplaced, -⟩ := hall hgroup .execute
  obtain ⟨u, hu⟩ := hiff.mpr (by simp [Path.isAncestorOf, Path.below?, Path.single])
  obtain ⟨id, name, hid, hname, hnew⟩ := (hplaced u hu).2 _ List.mem_cons_self
  cases hname
  exact ⟨Move.wellFormed_nested, _, u, hok, hgroup, hu, hnew.trans hid.symm⟩

/-- The same sources in the other order: the plan accepts them, and the second move is refused. -/
theorem moves_scatter_nested :
    Move.nested.WellFormed ∧ Move.nested.GroupAt (.single "c") ∧ ∃ batch,
      (Move.filter.preflight Move.nested
        ((Arguments.none.insert Move.sourcesKey (.paths [.single "a", ⟨["a", "b"]⟩])).insert
          Move.destinationKey (.path (.single "c"))) (.new 1)).1.actions.outcome = .ok batch ∧
      ∀ mode, ∃ e u, batch.apply mode Move.nested = (.error e, u) ∧
        e.cause = .pathNotFound ⟨["a", "b"]⟩ := by
  refine ⟨Move.wellFormed_nested, ⟨_, _, rfl, rfl, .inl rfl⟩, _, rfl, fun mode => ?_⟩
  cases mode <;> exact ⟨_, _, rfl, rfl⟩

end Builtin

end FilterTree
