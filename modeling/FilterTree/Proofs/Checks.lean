import Mathlib.Data.List.Forall2

/-!
# When checks accept

A check answers with `Except`, and what a proof wants to know of it is when it
accepts. Each lemma says so for one way to put checks together, so that a
function made of checks is read as a conjunction of conditions and the order
and the texts of the refusals drop out.

Where it is the refusals that matter, `RefusesFor` says which reasons a check may
give. It goes through every way to put checks together, so of a function made of
checks only its refusals have to be looked at, one by one.
-/

namespace FilterTree

/-- Checks in a row accept when each of them does. -/
theorem check_bind_eq_ok {ε α β : Type} {x : Except ε α} {k : α → Except ε β} {b : β} :
    (x >>= k) = .ok b ↔ ∃ a, x = .ok a ∧ k a = .ok b := by
  cases x with
  | error e => exact ⟨fun h => (nomatch h), fun ⟨_, h, _⟩ => (nomatch h)⟩
  | ok a => exact ⟨fun h => ⟨a, rfl, h⟩, fun ⟨_, ha, h⟩ => Except.ok.inj ha ▸ h⟩

theorem check_bind_isOk {ε α β : Type} {x : Except ε α} {k : α → Except ε β} :
    (x >>= k).isOk ↔ ∃ a, x = .ok a ∧ (k a).isOk := by
  cases x with
  | error e =>
      refine iff_of_false Bool.false_ne_true ?_
      rintro ⟨_, ha, -⟩
      cases ha
  | ok a =>
      refine ⟨fun h => ⟨a, rfl, h⟩, ?_⟩
      rintro ⟨_, ha, h⟩
      cases ha
      exact h

theorem check_then_eq_ok {ε β : Type} {x : Except ε Unit} {k : Unit → Except ε β} {b : β} :
    (x >>= k) = .ok b ↔ x = .ok () ∧ k () = .ok b :=
  check_bind_eq_ok.trans ⟨fun ⟨_, hx, hk⟩ => ⟨hx, hk⟩, fun ⟨hx, hk⟩ => ⟨(), hx, hk⟩⟩

theorem check_mapError_eq_ok {ε ε' α : Type} {x : Except ε α} {f : ε → ε'} {a : α} :
    x.mapError f = .ok a ↔ x = .ok a := by
  cases x with
  | error e => exact ⟨fun h => (nomatch h), fun h => (nomatch h)⟩
  | ok b => exact ⟨fun h => congrArg _ (Except.ok.inj h), fun h => congrArg _ (Except.ok.inj h)⟩

theorem check_map_eq_ok {ε α β : Type} {x : Except ε α} {f : α → β} {b : β} :
    x.map f = .ok b ↔ ∃ a, x = .ok a ∧ f a = b := by
  cases x with
  | error e => exact ⟨fun h => (nomatch h), fun ⟨_, h, _⟩ => (nomatch h)⟩
  | ok a => exact ⟨fun h => ⟨a, rfl, Except.ok.inj h⟩, fun ⟨_, ha, h⟩ => Except.ok.inj ha ▸ h ▸ rfl⟩

theorem check_forM_eq_ok {ε α : Type} {l : List α} {f : α → Except ε Unit} :
    l.forM f = .ok () ↔ ∀ a ∈ l, f a = .ok () := by
  induction l with
  | nil => exact ⟨fun _ a h => (nomatch h), fun _ => rfl⟩
  | cons a l ih =>
      rw [show (a :: l).forM f = (f a >>= fun _ => l.forM f) from rfl, check_then_eq_ok,
        List.forall_mem_cons, ← ih]

theorem check_mapM_eq_ok {ε α β : Type} {l : List α} {f : α → Except ε β} {bs : List β} :
    l.mapM f = .ok bs ↔ List.Forall₂ (fun a b => f a = .ok b) l bs := by
  induction l generalizing bs with
  | nil =>
      rw [List.forall₂_nil_left_iff]
      exact ⟨fun h => (Except.ok.inj h).symm, fun h => h ▸ rfl⟩
  | cons a l ih =>
      rw [List.mapM_cons, List.forall₂_cons_left_iff, check_bind_eq_ok]
      refine exists_congr fun b => ?_
      rw [check_bind_eq_ok, ← exists_and_left]
      refine exists_congr fun bs' => and_congr_right fun _ => and_congr ih ?_
      exact ⟨fun h => (Except.ok.inj h).symm, fun h => congrArg _ h.symm⟩

/-! ## When checks refuse -/

/-- Whatever a check refuses, it refuses for a reason of a sort. -/
def RefusesFor {ε α : Type} (P : ε → Prop) (x : Except ε α) : Prop := ∀ e, x = .error e → P e

namespace RefusesFor

variable {ε ε' α β : Type} {P : ε → Prop} {Q : ε' → Prop} {x : Except ε α}

theorem ok {a : α} : RefusesFor P (.ok a) := fun _ h => nomatch h

theorem error {e : ε} (h : P e) : RefusesFor P (.error e : Except ε α) :=
  fun _ he => Except.error.inj he ▸ h

theorem bind {k : α → Except ε β} (hx : RefusesFor P x)
    (hk : ∀ a, x = .ok a → RefusesFor P (k a)) : RefusesFor P (x >>= k) := by
  intro e he
  cases hxa : x with
  | error e' =>
      rw [hxa] at he
      cases he
      exact hx e hxa
  | ok a =>
      rw [hxa] at he
      exact hk a hxa e he

theorem mapError {f : ε → ε'} (h : ∀ e, x = .error e → Q (f e)) : RefusesFor Q (x.mapError f) := by
  intro e he
  cases hx : x with
  | error e' =>
      rw [hx] at he
      cases he
      exact h e' hx
  | ok a =>
      rw [hx] at he
      cases he

theorem map {f : α → β} (h : RefusesFor P x) : RefusesFor P (x.map f) :=
  h.bind fun _ _ => .ok

theorem mapM {f : β → Except ε α} {l : List β} (h : ∀ b ∈ l, RefusesFor P (f b)) :
    RefusesFor P (l.mapM f) := by
  induction l with
  | nil => exact .ok
  | cons b l ih =>
      rw [List.mapM_cons]
      have hrest := fun c hc => h c (List.mem_cons_of_mem b hc)
      exact (h b List.mem_cons_self).bind fun _ _ => (ih hrest).bind fun _ _ => .ok

theorem forM {f : β → Except ε Unit} {l : List β} (h : ∀ b ∈ l, RefusesFor P (f b)) :
    RefusesFor P (l.forM f) := by
  induction l with
  | nil => exact .ok
  | cons b l ih =>
      have hrest := fun c hc => h c (List.mem_cons_of_mem b hc)
      exact (h b List.mem_cons_self).bind fun _ _ => ih hrest

end RefusesFor

/-! ## What checks answer -/

/-- A check fails with what is wrong, if anything is, and else has a value of a sort. -/
def Answers {ε α : Type} (wrong : Option ε) (Q : α → Prop) : Except ε α → Prop
  | .ok a => wrong = none ∧ Q a
  | .error e => wrong = some e

/-- Checks of a list in turn answer with the first thing that is wrong. -/
theorem Answers.mapM {ε α β : Type} {wrong : α → Option ε} {R : α → β → Prop}
    {f : α → Except ε β} {l : List α} (h : ∀ a ∈ l, Answers (wrong a) (R a) (f a)) :
    Answers (l.findSome? wrong) (List.Forall₂ R l) (l.mapM f) := by
  induction l with
  | nil => exact ⟨rfl, .nil⟩
  | cons a l ih =>
      have hhead := h a List.mem_cons_self
      have htail := ih fun b hb => h b (List.mem_cons_of_mem a hb)
      rw [List.mapM_cons, List.findSome?_cons]
      cases hfa : f a with
      | error e =>
          rw [hfa] at hhead
          rw [show wrong a = some e from hhead]
          exact rfl
      | ok b =>
          rw [hfa] at hhead
          obtain ⟨hnone, hb⟩ := hhead
          rw [hnone]
          show Answers _ _ (l.mapM f >>= fun bs => pure (b :: bs))
          cases hrest : l.mapM f with
          | error e =>
              rw [hrest] at htail
              exact htail
          | ok bs =>
              rw [hrest] at htail
              exact ⟨htail.1, .cons hb htail.2⟩

end FilterTree
