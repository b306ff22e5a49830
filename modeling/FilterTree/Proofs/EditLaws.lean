import FilterTree.Proofs.Checks
import FilterTree.Tree.Edit

/-!
# Edits as sequences of checks and writes

The laws by which a proof reads an edit. `on_bind` runs an edit step by step;
where only a successful run is of interest, `bind_eq_ok` and `ask_bind_eq_ok`
take it apart into the results of its steps, so that a proof about an edit
never has to unfold the monad.

`AllOrNothing` says that a refused edit has left the tree as it was. It goes
through every check (`ask_bind`) and through every write after which nothing
can be refused any more (`bind_of_succeeds`). An edit of several writes is
therefore all or nothing exactly because its first checks foresee all later
ones.
-/

namespace FilterTree

namespace Edit

variable {α β : Type} {t u : Tree}

@[simp] theorem on_get : (get : Edit Tree).on t = (.ok t, t) := rfl

@[simp] theorem on_modify {f : Tree → Tree} : (modify f : Edit Unit).on t = (.ok (), f t) := rfl

theorem on_bind {e : Edit α} {k : α → Edit β} :
    (e >>= k).on t =
      match e.on t with
      | (.ok a, u) => (k a).on u
      | (.error x, u) => (.error x, u) := by
  simp only [on, ExceptT.run_bind, StateT.run_bind]
  change (match (ExceptT.run e).run t with | (r, v) => _) = _
  rcases (ExceptT.run e).run t with ⟨_ | a, v⟩ <;> rfl

theorem on_get_bind {k : Tree → Edit β} : (get >>= k).on t = (k t).on t := by
  rw [on_bind, on_get]

@[simp] theorem on_ask {f : Tree → Except TreeError α} : (ask f).on t = (f t, t) := by
  rw [ask, on_bind, on_get]
  dsimp only
  cases f t <;> rfl

theorem on_ask_bind {f : Tree → Except TreeError α} {k : α → Edit β} :
    (ask f >>= k).on t =
      match f t with
      | .ok a => (k a).on t
      | .error x => (.error x, t) := by
  rw [on_bind, on_ask]
  cases f t <;> rfl

theorem bind_eq_ok {e : Edit α} {k : α → Edit β} {b : β} :
    (e >>= k).on t = (.ok b, u) ↔
      ∃ a v, e.on t = (.ok a, v) ∧ (k a).on v = (.ok b, u) := by
  rw [on_bind]
  rcases e.on t with ⟨_ | a, v⟩
  · exact ⟨fun h => (nomatch h), fun ⟨_, _, h, _⟩ => (nomatch h)⟩
  · exact ⟨fun h => ⟨a, v, rfl, h⟩, fun ⟨_, _, ha, h⟩ => by cases ha; exact h⟩

theorem ask_bind_eq_ok {f : Tree → Except TreeError α} {k : α → Edit β} {b : β} :
    (ask f >>= k).on t = (.ok b, u) ↔ ∃ a, f t = .ok a ∧ (k a).on t = (.ok b, u) := by
  rw [on_ask_bind]
  cases f t with
  | error x => exact ⟨fun h => (nomatch h), fun ⟨_, h, _⟩ => (nomatch h)⟩
  | ok a => exact ⟨fun h => ⟨a, rfl, h⟩, fun ⟨_, ha, h⟩ => by cases ha; exact h⟩

/-- A check in front is refused, or what follows it is. -/
theorem ask_bind_eq_error {f : Tree → Except TreeError α} {k : α → Edit β} {x : TreeError} :
    ((ask f >>= k).on t).1 = .error x ↔
      f t = .error x ∨ ∃ a, f t = .ok a ∧ ((k a).on t).1 = .error x := by
  rw [on_ask_bind]
  cases f t with
  | error y => simp
  | ok a => simp

/-- An edit that is refused leaves the tree as it was. -/
def AllOrNothing (e : Edit α) (t : Tree) : Prop := ∀ x u, e.on t = (.error x, u) → u = t

/-- An edit that is not refused. -/
def Succeeds (e : Edit α) (t : Tree) : Prop := ∃ a u, e.on t = (.ok a, u)

theorem Succeeds.allOrNothing {e : Edit α} (h : e.Succeeds t) : e.AllOrNothing t := by
  intro x u herr
  obtain ⟨a, v, hok⟩ := h
  rw [hok] at herr
  cases herr

theorem Succeeds.bind {e : Edit α} {k : α → Edit β} {a : α} (he : e.on t = (.ok a, u))
    (hk : (k a).Succeeds u) : (e >>= k).Succeeds t := by
  obtain ⟨b, v, hb⟩ := hk
  exact ⟨b, v, bind_eq_ok.mpr ⟨a, u, he, hb⟩⟩

namespace AllOrNothing

theorem pure {a : α} : (Pure.pure a : Edit α).AllOrNothing t := fun _ _ h => nomatch h

theorem throw {x : TreeError} : (MonadExcept.throw x : Edit α).AllOrNothing t := by
  intro y u h
  cases h
  rfl

theorem get_bind {k : Tree → Edit β} (h : (k t).AllOrNothing t) :
    (get >>= k).AllOrNothing t := by
  intro x u herr
  rw [on_get_bind] at herr
  exact h x u herr

/-- A check in front. -/
theorem ask_bind {f : Tree → Except TreeError α} {k : α → Edit β}
    (h : ∀ a, f t = .ok a → (k a).AllOrNothing t) : (Edit.ask f >>= k).AllOrNothing t := by
  intro x u herr
  rw [on_ask_bind] at herr
  split at herr
  · next a ha => exact h a ha x u herr
  · cases herr
    rfl

/-- Nothing behind it can be refused. -/
theorem bind_of_succeeds {e : Edit α} {k : α → Edit β} (he : e.AllOrNothing t)
    (hk : ∀ a u, e.on t = (.ok a, u) → (k a).Succeeds u) : (e >>= k).AllOrNothing t := by
  intro x u herr
  rw [on_bind] at herr
  split at herr
  · next a v hok =>
      obtain ⟨b, w, hb⟩ := hk a v hok
      rw [hb] at herr
      cases herr
  · next y v hbad =>
      cases herr
      exact he _ _ hbad

/-- A result passed on. -/
theorem bind_pure {e : Edit α} {f : α → β} (he : e.AllOrNothing t) :
    (e >>= fun a => Pure.pure (f a)).AllOrNothing t :=
  he.bind_of_succeeds fun a u _ => ⟨f a, u, rfl⟩

theorem ite {p : Prop} [Decidable p] {e f : Edit α} (he : p → e.AllOrNothing t)
    (hf : ¬ p → f.AllOrNothing t) : (if p then e else f).AllOrNothing t := by
  split
  · next h => exact he h
  · next h => exact hf h

end AllOrNothing

end Edit

end FilterTree
