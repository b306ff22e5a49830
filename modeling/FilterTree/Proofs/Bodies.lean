import FilterTree.Builtin.FilledArray
import FilterTree.Builtin.Misorientation
import FilterTree.Proofs.Reading
import FilterTree.Proofs.Shell

/-!
# What the bodies of filters do to a workspace

A body writes elements and sends messages. Whether it ends well or fails, the
run it leaves is the one it found with more messages (`Run.Continues`), and the
tree has the shell it had (`Workspace.Refilled`): nothing is created, moved or
reshaped outside of a filter's actions. A run that has been cancelled stays so,
and a body that says it was cancelled leaves such a run.

The body that fills an array does more. Where the array has the type of the
value and its elements are allocated it cannot fail at all.
-/

namespace FilterTree

/-! ## Messages -/

namespace Run

variable {run run' run'' : Run}

/-- One run is another to which messages have been sent. -/
def Continues (run run' : Run) : Prop := ∃ messages : List Message, run' = messages.foldl send run

namespace Continues

theorem refl : run.Continues run := ⟨[], rfl⟩

theorem send {m : Message} : run.Continues (run.send m) := ⟨[m], rfl⟩

theorem trans (h : run.Continues run') (h' : run'.Continues run'') : run.Continues run'' := by
  obtain ⟨messages, rfl⟩ := h
  obtain ⟨messages', rfl⟩ := h'
  exact ⟨messages ++ messages', by rw [List.foldl_append]⟩

/-- A run that nobody cancels comes to its end. -/
theorem undisturbed (h : run.Continues run') (hstart : run.cancelled = false)
    (hnone : run.cancelAfter = none) : run'.cancelled = false := by
  obtain ⟨messages, rfl⟩ := h
  induction messages generalizing run with
  | nil => exact hstart
  | cons m messages ih =>
      refine ih ?_ hnone
      rw [Run.send, hstart, hnone]
      rfl

/-- A flag that is raised stays up. -/
theorem cancelled (h : run.Continues run') (hstart : run.cancelled = true) :
    run'.cancelled = true := by
  obtain ⟨messages, rfl⟩ := h
  induction messages generalizing run with
  | nil => exact hstart
  | cons m messages ih =>
      refine ih ?_
      rw [Run.send, hstart]
      rfl

end Continues

end Run

theorem Counter.advance_continues {c : Counter} {n : Nat} {run : Run} :
    run.Continues (c.advance n run).2 := by
  rw [advance]
  split
  · exact .refl
  · dsimp only
    split
    · exact .send
    · exact .refl

/-! ## Attempts -/

/-- Elements may have been written and messages sent. -/
structure Workspace.Refilled (w w' : Workspace) : Prop where
  continues : w.run.Continues w'.run
  wellFormed : w'.tree.WellFormed
  shell_eq : w'.tree.shell = w.tree.shell

namespace Attempt

variable {α β : Type} {w w' : Workspace}

@[simp] theorem run_get : (get : Attempt Workspace).run w = (.ok w, w) := rfl

@[simp] theorem run_ofExcept {r : Except Failure α} : (ofExcept r).run w = (r, w) := rfl

theorem run_bind {a : Attempt α} {k : α → Attempt β} :
    (a >>= k).run w =
      match a.run w with
      | (.ok x, w') => (k x).run w'
      | (.error e, w') => (.error e, w') := by
  rcases hrun : a.run w with ⟨_ | x, v⟩ <;>
  · change StateT.run (ExceptT.run (a >>= k)) w = _
    rw [ExceptT.run_bind, StateT.run_bind, show StateT.run (ExceptT.run a) w = _ from hrun]
    rfl

theorem run_bind_of_ok {a : Attempt α} {k : α → Attempt β} {x : α}
    (ha : a.run w = (.ok x, w')) : (a >>= k).run w = (k x).run w' := by
  rw [run_bind, ha]

@[simp] theorem run_ask {f : Tree → Except TreeError α} :
    (ask f).run w = ((f w.tree).mapError Failure.ofTree, w) := rfl

/--
However the attempt ends, only elements have been written and messages sent;
where it ends with a value, `Q` holds of that and of the workspace it leaves.
-/
def Refills (a : Attempt α) (w : Workspace) (Q : α → Workspace → Prop) : Prop :=
  w.tree.WellFormed → w.Refilled (a.run w).2 ∧ ∀ x, (a.run w).1 = .ok x → Q x (a.run w).2

namespace Refills

variable {Q : α → Workspace → Prop} {R : β → Workspace → Prop}

theorem pure {a : α} (h : Q a w) : (Pure.pure a : Attempt α).Refills w Q :=
  fun hw => ⟨⟨.refl, hw, rfl⟩, fun _ hx => Except.ok.inj hx ▸ h⟩

theorem bind {a : Attempt α} {k : α → Attempt β} (ha : a.Refills w Q)
    (hk : ∀ x w', Q x w' → (k x).Refills w' R) : (a >>= k).Refills w R := by
  intro hw
  obtain ⟨hfirst, hvalue⟩ := ha hw
  rw [run_bind]
  rcases hrun : a.run w with ⟨e | x, v⟩
  · rw [hrun] at hfirst
    exact ⟨hfirst, fun _ h => (nomatch h)⟩
  · rw [hrun] at hfirst hvalue
    obtain ⟨hrest, hend⟩ := hk x v (hvalue x rfl) hfirst.wellFormed
    exact ⟨⟨hfirst.continues.trans hrest.continues, hrest.wellFormed,
      hrest.shell_eq.trans hfirst.shell_eq⟩, hend⟩

theorem ofExcept_bind {r : Except Failure α} {k : α → Attempt β}
    (hk : ∀ x, r = .ok x → (k x).Refills w R) : (ofExcept r >>= k).Refills w R := by
  have hr : (ofExcept r).Refills w fun x w' => r = .ok x ∧ w' = w :=
    fun hw => ⟨⟨.refl, hw, rfl⟩, fun _ hx => ⟨hx, rfl⟩⟩
  refine hr.bind ?_
  rintro x _ ⟨hx, rfl⟩
  exact hk x hx

theorem get_bind {k : Workspace → Attempt β} (hk : (k w).Refills w R) :
    (get >>= k).Refills w R := by
  intro hw
  rw [run_bind, run_get]
  exact hk hw

theorem ask_bind {f : Tree → Except TreeError α} {k : α → Attempt β}
    (hk : ∀ x, f w.tree = .ok x → (k x).Refills w R) : (ask f >>= k).Refills w R := by
  have hf : (ask f).Refills w fun x w' => f w.tree = .ok x ∧ w' = w :=
    fun hw => ⟨⟨.refl, hw, rfl⟩, fun _ hx => ⟨check_mapError_eq_ok.mp hx, rfl⟩⟩
  refine hf.bind ?_
  rintro x _ ⟨hx, rfl⟩
  exact hk x hx

theorem modify_bind {f : Workspace → Workspace} {k : Unit → Attempt β}
    (hf : w.tree.WellFormed → w.Refilled (f w)) (hk : (k ()).Refills (f w) R) :
    (modify f >>= k).Refills w R := by
  have hm : (modify f : Attempt Unit).Refills w fun _ w' => w' = f w :=
    fun hw => ⟨hf hw, fun _ _ => rfl⟩
  refine hm.bind ?_
  rintro ⟨⟩ _ rfl
  exact hk

end Refills

end Attempt

/-! ## Writing elements -/

namespace Workspace

variable {w : Workspace} {path : Path} {type : ElementType}

theorem refilled_array {s s' : DenseStore type.Carrier} {run : Run} (hw : w.tree.WellFormed)
    (hs : w.tree.denseAt path type = .ok s) (hs' : s.Sound → s.Rewritten s')
    (hrun : w.run.Continues run) :
    w.Refilled ⟨w.tree.setBodyAt path (.array ⟨type, s'⟩), run⟩ := by
  obtain ⟨id, o, ho, heq, hshell, hsound⟩ := hw.write_denseAt hs hs'
  rw [heq]
  exact ⟨hrun, hw.setBody ho hshell hsound, Tree.shell_setBody ho hshell⟩

theorem refilled_list {s s' : ListStore type.Carrier} (hw : w.tree.WellFormed)
    (hs : w.tree.listsAt path type = .ok s) (hs' : s.Rewritten s') :
    w.Refilled ⟨w.tree.setBodyAt path (.list ⟨type, s'⟩), w.run⟩ := by
  obtain ⟨id, o, ho, heq, hshell, hsound⟩ := hw.write_listsAt hs fun _ => hs'
  rw [heq]
  exact ⟨.refl, hw.setBody ho hshell hsound, Tree.shell_setBody ho hshell⟩

end Workspace

namespace Builtin

/-! ## The body that fills an array -/

namespace CreateArray

variable {α : Type} {value : α}

theorem foldl_fillChunk {starts : List Nat} {row row' : Array α} {counter counter' : Counter}
    {run run' : Run}
    (h : starts.foldl (fillChunk value) (row, counter, run) = (row', counter', run')) :
    row'.size = row.size ∧ run.Continues run' := by
  induction starts generalizing row counter run with
  | nil =>
      cases h
      exact ⟨rfl, .refl⟩
  | cons start starts ih =>
      rw [List.foldl_cons, fillChunk] at h
      split at h
      · exact ih h
      · obtain ⟨hsize, hrun⟩ := ih h
        exact ⟨hsize.trans DenseStore.size_modifyRow, Counter.advance_continues.trans hrun⟩

-- about the function as a whole: applied to a row it would be checked by going through its chunks
theorem fillRow_eq : @fillRow α = fun value row run =>
    match (chunkStarts row.size).foldl (fillChunk value)
      (row, Counter.new "Initializing array" row.size, run) with
    | (row, _, run) => (row, run) := rfl

/-- Filling keeps the length of the row. -/
theorem fillRow_spec {row row' : Array α} {run run' : Run}
    (h : fillRow value row run = (row', run')) : row'.size = row.size ∧ run.Continues run' := by
  rcases hfold : (chunkStarts row.size).foldl (fillChunk value)
    (row, Counter.new "Initializing array" row.size, run) with ⟨filled, counter, last⟩
  rw [fillRow_eq] at h
  beta_reduce at h
  rw [hfold] at h
  cases h
  exact foldl_fillChunk hfold

/-- A value of the array's type is written to all of its elements that are allocated. -/
theorem fill_run {type : ElementType} {path : Path} {text : String} {value : type.Carrier}
    {w : Workspace} {s : DenseStore type.Carrier} {row filled : Array type.Carrier} {run : Run}
    (hvalue : type.parse? text = some value) (hs : w.tree.denseAt path type = .ok s)
    (hrow : s.row? = some row) (hfill : fillRow value row w.run = (filled, run)) :
    (fill type path text).run w =
      (.ok (if run.cancelled then .cancelled else .finished),
        ⟨w.tree.setBodyAt path (.array ⟨type, { s with row? := some filled }⟩), run⟩) := by
  have hstore : (Attempt.ask fun t => t.denseAt path type).run w = (.ok s, w) := by
    rw [Attempt.run_ask, hs]
    rfl
  have helements : (Attempt.ask fun _ => s.row.mapError (TreeError.store path)).run w =
      (.ok row, w) := by
    rw [Attempt.run_ask, DenseStore.row, hrow]
    rfl
  rw [fill, hvalue]
  refine (Attempt.run_bind_of_ok rfl).trans ?_
  refine (Attempt.run_bind_of_ok hstore).trans ?_
  refine (Attempt.run_bind_of_ok helements).trans ?_
  refine (Attempt.run_bind_of_ok Attempt.run_get).trans ?_
  rw [hfill]
  rfl

end CreateArray

/-! ## The body that computes misorientations -/

namespace Misorientation

open Attempt

variable {w : Workspace} {path : Path}

theorem Inputs.allAngles_continues {inputs : Inputs} {feature : Nat} {lists : List (List Int32)}
    {counter : Counter} {run : Run} :
    run.Continues (inputs.allAngles feature lists counter run).2 := by
  induction lists generalizing feature counter run with
  | nil => exact .refl
  | cons neighbors rest ih =>
      rw [allAngles]
      split
      · exact ih
      · dsimp only
        split
        · exact Counter.advance_continues
        · exact Counter.advance_continues.trans ih

theorem writeLists_refills {lists : List (List Float32)} :
    (writeLists path lists).Refills w fun _ w' => w'.run = w.run := by
  refine .ask_bind fun s hs => .ask_bind fun s' hs' hw => ?_
  have hset := ListStore.Rewritten.ofSetLists (check_mapError_eq_ok.mp hs')
  exact ⟨Workspace.refilled_list hw hs hset, fun _ _ => rfl⟩

theorem writeElements_refills {values : List Float32} :
    (writeElements path values).Refills w fun _ w' => w'.run = w.run := by
  refine .ask_bind fun s hs => .ofExcept_bind fun s' hs' hw => ?_
  have hset := check_mapError_eq_ok.mp hs'
  exact ⟨Workspace.refilled_array hw hs (fun hsound => hsound.overwrite hset) .refl,
    fun _ _ => rfl⟩

/-- What has been computed is written to the end. -/
theorem write_refills {p : Places} {lists : List (List Float32)} :
    (write p lists).Refills w fun c w' => c = .cancelled → w'.run.cancelled = true := by
  refine writeLists_refills.bind fun _ w' _ => ?_
  split
  · exact .pure (nomatch ·)
  · exact writeElements_refills.bind fun _ _ _ => .pure (nomatch ·)

theorem compute_refills {p : Places} {inputs : Inputs} {neighbors : Array (List Int32)} :
    (compute oneWorker p inputs neighbors).Refills w fun c w' =>
      c = .cancelled → w'.run.cancelled = true := by
  refine .get_bind (.modify_bind (fun hw => ⟨Inputs.allAngles_continues, hw, rfl⟩) ?_)
  refine .ofExcept_bind fun lists _ => ?_
  split
  · next hcancelled => exact .pure fun _ => hcancelled
  · exact write_refills

/-- The body only writes elements, and ends cancelled only if the run has been cancelled. -/
theorem work_refills {args : Arguments} :
    (work oneWorker args).Refills w fun c w' => c = .cancelled → w'.run.cancelled = true := by
  refine .ofExcept_bind fun p _ => .get_bind (.ofExcept_bind fun _ _ => ?_)
  refine .ask_bind fun codes _ => .ask_bind fun orientations _ => .ask_bind fun phases _ => ?_
  exact .ask_bind fun neighbors _ => compute_refills

end Misorientation

end Builtin

end FilterTree
