import FilterTree.Builtin.Creation
import FilterTree.Filter.Instance
import FilterTree.Proofs.Foresight
import Mathlib.Data.List.Induction

/-!
# The life of an invocation, call by call

Whoever holds an instance may call it in any order, with another tree and
another run each time, and may go on after a refusal. `Invocation.run` carries
out such calls and keeps a record of them; what the instance holds is then said
in terms of the record.

An instance drops the outcome of its own transitions, so that it keeps in step
with its life is nothing that a call checks. It follows from the case lemma
`event_step`: a call that the state does not allow changes nothing, and for one
that it does allow the transitions which the call makes are allowed as well,
because a state from which there is any way on also has one to failure. The
invariant `Orderly` is then carried through the record call by call. That
actions are there once an invocation has been preflighted is part of it, so
applying never meets an instance without actions.
-/

namespace FilterTree

namespace Instance

/-- What an instance can be called to do. -/
inductive Operation where
  | bind (args : Arguments)
  | preflight
  | apply (mode : Mode)
  | execute
  | finish

/-- The state that an operation leads to. -/
def Operation.target : Operation → LifeState
  | bind _ => .bound
  | preflight => .preflighted
  | apply _ => .applied
  | execute => .executed
  | finish => .done

/-- What a call answers with if it has not failed. -/
inductive Answer where
  | done
  | planned (actions : Batch)
  | ended (completion : Completion)

/-- Carry out a call. -/
def call (i : Instance) : Operation → Working (Report Answer × Instance)
  | .bind args => do
    let (report, i) := i.bind args
    return (report.map fun _ => .done, i)
  | .preflight => do
    let (report, i) ← Working.sending (i.preflight (← Working.tree))
    return (report.map .planned, i)
  | .apply mode => do
    let (report, i) ← i.apply mode
    return (report.map fun _ => .done, i)
  | .execute => do
    let (report, i) ← i.execute
    return (report.map .ended, i)
  | .finish => do
    let (result, i) := i.finish
    return (.ofExcept ((result.mapError IllegalTransition.failure).map fun _ => .done), i)

/-- A call with what it was given, what it answered and what it left. -/
structure Event where
  call : Operation
  before : Instance
  given : Workspace
  reply : Report Answer
  after : Instance
  left : Workspace

/-- What becomes of a call. -/
def event (i : Instance) (c : Operation) (w : Workspace) : Event :=
  let ((reply, after), left) := i.call c w
  ⟨c, i, w, reply, after, left⟩

namespace Event

variable (e : Event)

/-- Whether the state allowed what the call asked for. -/
def granted : Bool := e.before.state.allows e.call.target

/-- Whether actions were applied. -/
def applies : Bool := e.granted && e.call.target == .applied

/-- Whether the filter's body was run. -/
def executes : Bool := e.granted && e.call.target == .executed

end Event

/-- The plan in force after a call, from the one before and the answer: binding anew drops it. -/
def replan (c : Operation) (answer : Option Answer) (plan : Option Batch) : Option Batch :=
  match c, answer with
  | .bind _, some _ => none
  | .preflight, some (.planned actions) => some actions
  | _, _ => plan

/-- The plan that succeeded last since arguments were last bound. -/
def lastPlan (events : List Event) : Option Batch :=
  events.foldl (fun plan e => replan e.call e.reply.value? plan) none

/-- What an instance holds in each state if a plan is in force. -/
structure Holds (i : Instance) (plan : Option Batch) : Prop where
  bound : i.state = .bound → i.arguments.isSome ∧ i.actions = none ∧ i.advice = []
  planned : i.state ∈ [.preflighted, .applied, .executed, .done, .cancelled] →
    i.arguments.isSome ∧ ∃ actions, i.actions = some actions ∧ plan = some actions

/-! ## One call -/

/-- What a call may do to an instance, with the value it answers. -/
inductive Step (i : Instance) : Operation → Option Answer → Instance → Prop where
  | refused {c : Operation} (h : i.state.allows c.target = false) : Step i c none i
  | failed {c : Operation} (h : i.state.allows c.target = true) :
      Step i c none { i with state := .failed }
  | bound {args : Arguments} (h : i.state.allows .bound = true) (bound : Arguments) :
      Step i (.bind args) (some .done) ⟨i.filter, .bound, some bound, none, []⟩
  | planned (h : i.state.allows .preflighted = true) (actions : Batch) (advice : List Advice) :
      Step i .preflight (some (.planned actions))
        ⟨i.filter, .preflighted, i.arguments, some actions, advice⟩
  | idle {mode : Mode} (h : i.state.allows .applied = true) (hnone : i.actions = none) :
      Step i (.apply mode) (some .done) i
  | applied {mode : Mode} (h : i.state.allows .applied = true) {actions : Batch}
      (hsome : i.actions = some actions) :
      Step i (.apply mode) (some .done) { i with state := .applied }
  | executed (h : i.state.allows .executed = true) :
      Step i .execute (some (.ended .finished)) { i with state := .executed }
  | cancelled (h : i.state.allows .executed = true) :
      Step i .execute (some (.ended .cancelled)) { i with state := .cancelled }
  | finished (h : i.state.allows .done = true) :
      Step i .finish (some .done) { i with state := .done }

end Instance

namespace LifeState

variable {a b : LifeState}

theorem allows_failed (h : a.allows b = true) : a.allows .failed = true := by
  cases a with
  | done | failed | cancelled => cases h
  | unbound | bound | preflighted | applied | executed => rfl

theorem allows_bound : a.allows .bound = true ↔ a ∈ [unbound, bound, preflighted] := by
  cases a <;> decide

theorem allows_preflighted : a.allows .preflighted = true ↔ a = .bound ∨ a = .preflighted := by
  cases a <;> decide

theorem allows_applied : a.allows .applied = true ↔ a = .preflighted := by
  cases a <;> decide

theorem allows_executed : a.allows .executed = true ↔ a = .applied := by
  cases a <;> decide

theorem allows_done : a.allows .done = true ↔ a = .executed := by
  cases a <;> decide

end LifeState

theorem Sending.bind_apply {s : Sending α} {k : α → Sending β} {run : Run} :
    (s >>= k) run = k (s run).1 (s run).2 := rfl

theorem Report.value?_map {r : Report α} {f : α → β} : (r.map f).value? = r.value?.map f := by
  rw [value?, value?, map]
  cases r.outcome <;> rfl

namespace Instance

theorem Event.applies_iff {e : Event} :
    e.applies = true ↔ e.before.state = .preflighted ∧ ∃ mode, e.call = .apply mode := by
  rw [applies, granted, Bool.and_eq_true, beq_iff_eq]
  cases hcall : e.call with
  | apply mode => simp [Operation.target, LifeState.allows_applied]
  | bind | preflight | execute | finish => simp [Operation.target]

theorem Event.executes_iff {e : Event} :
    e.executes = true ↔ e.before.state = .applied ∧ e.call = .execute := by
  rw [executes, granted, Bool.and_eq_true, beq_iff_eq]
  cases hcall : e.call with
  | execute => simp [Operation.target, LifeState.allows_executed]
  | bind | preflight | apply | finish => simp [Operation.target]

variable {i : Instance} {c : Operation} {w : Workspace}

theorem goTo_eq {s : LifeState} (h : i.state.allows s = true) :
    i.goTo s = { i with state := s } := if_pos h

theorem fail_eq {s : LifeState} (h : i.state.allows s = true) :
    i.fail = { i with state := .failed } := goTo_eq (LifeState.allows_failed h)

/-- A call that the state does not allow is answered with that and changes nothing. -/
theorem event_of_refused (h : i.state.allows c.target = false) :
    i.event c w = ⟨c, i, w, .fail (IllegalTransition.mk i.state c.target).failure, i, w⟩ := by
  have hcheck : i.state.check c.target = .error ⟨i.state, c.target⟩ := by
    rw [LifeState.check, h]
    rfl
  -- every operation asks the state first
  cases c
  all_goals
    simp only [Operation.target] at hcheck
    simp only [event, call, bind, preflight, apply, execute, finish, hcheck]
    rfl

/-! ## Calls that the state allows -/

theorem bind_eq (h : i.state.allows .bound = true) {args : Arguments} :
    i.bind args = ((i.filter.schema.bind args).discard,
      match (i.filter.schema.bind args).value? with
      | some bound => ⟨i.filter, .bound, some bound, none, []⟩
      | none => { i with state := .failed }) := by
  have hcheck : i.state.check .bound = .ok () := if_pos h
  simp only [bind, hcheck]
  cases (i.filter.schema.bind args).value? with
  | some bound => exact congrArg (Prod.mk _) (goTo_eq h)
  | none => exact congrArg (Prod.mk _) (fail_eq h)

theorem preflight_apply (h : i.state.allows .preflighted = true) {t : Tree} {run run' : Run}
    {plan : Plan} (hplan : i.filter.preflight t (i.arguments.getD .none) run = (plan, run')) :
    i.preflight t run = ((plan.actions,
      match plan.actions.value? with
      | some actions => ⟨i.filter, .preflighted, i.arguments, some actions, plan.advice⟩
      | none => { i with state := .failed }), run') := by
  have hcheck : i.state.check .preflighted = .ok () := if_pos h
  simp only [preflight, hcheck, Sending.bind_apply, hplan]
  cases plan.actions.value? with
  | some actions => exact congrArg (fun j => ((plan.actions, j), run')) (goTo_eq h)
  | none => exact congrArg (fun j => ((plan.actions, j), run')) (fail_eq h)

theorem apply_apply (h : i.state.allows .applied = true) {actions : Batch} {mode : Mode}
    (hsome : i.actions = some actions) :
    i.apply mode w = (match (actions.apply mode w.tree).1 with
      | .ok _ => (.ok (), { i with state := .applied })
      | .error e => (.fail e.failure, { i with state := .failed }),
      { w with tree := (actions.apply mode w.tree).2 }) := by
  have hcheck : i.state.check .applied = .ok () := if_pos h
  have hgo := goTo_eq h
  have hfail := fail_eq h
  obtain ⟨filter, state, arguments, _, advice⟩ := i
  cases hsome
  simp only [apply, hcheck, Working.bind_apply, Working.applyBatch_apply, hgo, hfail]
  cases (actions.apply mode w.tree).1 <;> rfl

theorem apply_idle (h : i.state.allows .applied = true) {mode : Mode} (hnone : i.actions = none) :
    i.apply mode w = ((.ok (), i), w) := by
  have hcheck : i.state.check .applied = .ok () := if_pos h
  obtain ⟨filter, state, arguments, _, advice⟩ := i
  cases hnone
  simp only [apply, hcheck]
  rfl

theorem execute_apply (h : i.state.allows .executed = true) {w' : Workspace}
    {report : Report Completion}
    (hreport : i.filter.execute (i.arguments.getD .none) w = (report, w')) :
    i.execute w = ((report,
      match report.value? with
      | some .finished => { i with state := .executed }
      | some .cancelled => { i with state := .cancelled }
      | none => { i with state := .failed }), w') := by
  have hcheck : i.state.check .executed = .ok () := if_pos h
  have hcancelled : i.state.allows .cancelled = true := by
    rw [LifeState.allows_executed.mp h]
    rfl
  simp only [execute, hcheck, Working.bind_apply, hreport]
  rcases report.value? with _ | _ | _
  · rw [fail_eq h]
    rfl
  · rw [goTo_eq h]
    rfl
  · rw [goTo_eq hcancelled]
    rfl

theorem finish_eq (h : i.state.allows .done = true) :
    i.finish = (.ok (), { i with state := .done }) := by
  have hcheck : i.state.check .done = .ok () := if_pos h
  simp only [finish, hcheck]

/-! ## One call, whichever it is -/

theorem event_step (i : Instance) (c : Operation) (w : Workspace) :
    i.Step c (i.event c w).reply.value? (i.event c w).after := by
  by_cases h : i.state.allows c.target = true
  · cases c with
    | bind args =>
        simp only [event, call, bind_eq h, Report.discard]
        show i.Step _ (((i.filter.schema.bind args).map _).map _).value? _
        rw [Report.value?_map, Report.value?_map]
        cases (i.filter.schema.bind args).value? with
        | none => exact .failed h
        | some bound => exact .bound h bound
    | preflight =>
        rcases hplan : i.filter.preflight w.tree (i.arguments.getD .none) w.run with ⟨plan, run⟩
        simp only [event, call, Working.bind_apply, Working.tree_apply, Working.sending,
          preflight_apply h hplan]
        show i.Step _ (plan.actions.map _).value? _
        rw [Report.value?_map]
        cases plan.actions.value? with
        | none => exact .failed h
        | some actions => exact .planned h actions plan.advice
    | apply mode =>
        cases hactions : i.actions with
        | none =>
            simp only [event, call, Working.bind_apply, apply_idle h hactions]
            exact .idle h hactions
        | some actions =>
            simp only [event, call, Working.bind_apply, apply_apply h hactions]
            cases (actions.apply mode w.tree).1 with
            | ok _ => exact .applied h hactions
            | error e => exact .failed h
    | execute =>
        rcases hreport : i.filter.execute (i.arguments.getD .none) w with ⟨report, w'⟩
        simp only [event, call, Working.bind_apply, execute_apply h hreport]
        show i.Step _ (report.map _).value? _
        rw [Report.value?_map]
        rcases report.value? with _ | _ | _
        · exact .failed h
        · exact .executed h
        · exact .cancelled h
    | finish =>
        simp only [event, call, finish_eq h]
        exact .finished h
  · rw [Bool.not_eq_true] at h
    rw [event_of_refused h]
    exact .refused h

/-! ## What a call does to the tree -/

/-- A call that applies actions leaves the tree they lead to, also if one of them is refused. -/
theorem event_apply (h : i.state.allows .applied = true) {actions : Batch} {mode : Mode}
    (hsome : i.actions = some actions) :
    (i.event (.apply mode) w).left.tree = (actions.apply mode w.tree).2 := by
  simp only [event, call, Working.bind_apply, apply_apply h hsome]
  rfl

/-- A call that runs the body hands its arguments and the workspace to the filter. -/
theorem event_execute (h : i.state.allows .executed = true) :
    (i.event .execute w).reply = (i.filter.execute (i.arguments.getD .none) w).1.map .ended ∧
      (i.event .execute w).left = (i.filter.execute (i.arguments.getD .none) w).2 := by
  simp only [event, call, Working.bind_apply, execute_apply h rfl]
  exact ⟨rfl, rfl⟩

theorem event_tree (happlies : (i.event c w).applies = false)
    (hexecutes : (i.event c w).executes = false) : (i.event c w).left.tree = w.tree := by
  by_cases h : i.state.allows c.target = true
  · cases c with
    | bind => rfl
    | preflight => rfl
    | apply mode =>
        have hgranted : (i.event (.apply mode) w).applies = true :=
          Event.applies_iff.mpr ⟨LifeState.allows_applied.mp h, mode, rfl⟩
        cases happlies.symm.trans hgranted
    | execute =>
        have hgranted : (i.event .execute w).executes = true :=
          Event.executes_iff.mpr ⟨LifeState.allows_executed.mp h, rfl⟩
        cases hexecutes.symm.trans hgranted
    | finish => rfl
  · rw [Bool.not_eq_true] at h
    rw [event_of_refused h]

/-! ## What an instance holds -/

/-- Once there is a plan, only its state changes until arguments are bound anew. -/
theorem Holds.advance {plan : Option Batch} {s : LifeState} (hi : i.Holds plan)
    (hstate : i.state ∈ [.preflighted, .applied, .executed, .done, .cancelled])
    (hs : s ≠ .bound) : ({ i with state := s } : Instance).Holds plan :=
  ⟨fun h => absurd h hs, fun _ => hi.planned hstate⟩

namespace Step

variable {j : Instance} {answer : Option Answer} {plan : Option Batch}

theorem filter_eq (h : i.Step c answer j) : j.filter = i.filter := by cases h <;> rfl

theorem state_allowed (h : i.Step c answer j) : j.state = i.state ∨ i.state.allows j.state := by
  cases h with
  | refused | idle => exact .inl rfl
  | failed h => exact .inr (LifeState.allows_failed h)
  | bound h | planned h | applied h | executed h | finished h => exact .inr h
  | cancelled h =>
      rw [LifeState.allows_executed.mp h]
      exact .inr rfl

theorem eq_of_terminal (h : i.Step c answer j) (hterminal : i.state.isTerminal) : j = i := by
  have hnone : ∀ s, i.state.allows s = false := by
    intro s
    cases hstate : i.state <;> rw [hstate] at hterminal <;> first | rfl | cases hterminal
  cases h with
  | refused | idle => rfl
  | failed h | bound h | planned h | applied h | executed h | cancelled h | finished h =>
      cases (hnone _).symm.trans h

/-- A plan outlasts every call but a new binding, and its actions are there to be applied. -/
theorem holds (h : i.Step c answer j) (hi : i.Holds plan) : j.Holds (replan c answer plan) := by
  cases h with
  | refused =>
      have hplan : replan c none plan = plan := by cases c <;> rfl
      rwa [hplan]
  | failed =>
      -- a failed instance may hold anything
      exact ⟨fun h => (nomatch h), fun h => by simp at h⟩
  | bound => exact ⟨fun _ => ⟨rfl, rfl, rfl⟩, fun h => by simp at h⟩
  | planned hallows actions advice =>
      refine ⟨fun h => (nomatch h), fun _ => ⟨?_, actions, rfl, rfl⟩⟩
      rcases LifeState.allows_preflighted.mp hallows with hbound | hplanned
      · exact (hi.bound hbound).1
      · exact (hi.planned (by simp [hplanned])).1
  | idle => exact hi
  | applied hallows =>
      exact hi.advance (by simp [LifeState.allows_applied.mp hallows]) (by decide)
  | executed hallows | cancelled hallows =>
      exact hi.advance (by simp [LifeState.allows_executed.mp hallows]) (by decide)
  | finished hallows =>
      exact hi.advance (by simp [LifeState.allows_done.mp hallows]) (by decide)

/-- There is no way back to before the actions were applied. -/
theorem unapplied (h : i.Step c answer j) (hj : j.state ∈ [.unbound, .bound, .preflighted]) :
    i.state ∈ [.unbound, .bound, .preflighted] := by
  cases h with
  | refused | idle => exact hj
  | bound hallows => exact LifeState.allows_bound.mp hallows
  | planned hallows => simp [LifeState.allows_preflighted.mp hallows]
  | failed | applied | executed | cancelled | finished => simp at hj

theorem unexecuted (h : i.Step c answer j)
    (hj : j.state ∈ [.unbound, .bound, .preflighted, .applied]) :
    i.state ∈ [.unbound, .bound, .preflighted, .applied] := by
  cases h with
  | refused | idle => exact hj
  | bound hallows => exact List.mem_append_left [.applied] (LifeState.allows_bound.mp hallows)
  | planned hallows =>
      rcases LifeState.allows_preflighted.mp hallows with hbound | hplanned
      · simp [hbound]
      · simp [hplanned]
  | applied hallows => simp [LifeState.allows_applied.mp hallows]
  | failed | executed | cancelled | finished => simp at hj

theorem of_apply {mode : Mode} (h : i.Step (.apply mode) answer j) (hi : i.Holds plan)
    (hstate : i.state = .preflighted) : j.state ∈ [.applied, .failed] := by
  cases h with
  | refused hrefused => cases hrefused.symm.trans (LifeState.allows_applied.mpr hstate)
  | idle _ hnone =>
      obtain ⟨-, actions, hsome, -⟩ := hi.planned (by simp [hstate])
      cases hnone.symm.trans hsome
  | failed | applied => simp

theorem of_execute (h : i.Step .execute answer j) (hstate : i.state = .applied) :
    j.state ∈ [.executed, .cancelled, .failed] := by
  cases h with
  | refused hrefused => cases hrefused.symm.trans (LifeState.allows_executed.mpr hstate)
  | failed | executed | cancelled => simp

/-- An instance gets to where its actions have been applied by applying them. -/
theorem to_applied (h : i.Step c answer j) (hj : j.state = .applied) :
    i.state = .applied ∨ i.state = .preflighted ∧ (∃ mode, c = .apply mode) ∧ answer.isSome := by
  cases h with
  | refused | idle => exact .inl hj
  | applied hallows => exact .inr ⟨LifeState.allows_applied.mp hallows, ⟨_, rfl⟩, rfl⟩
  | failed | bound | planned | executed | cancelled | finished => cases hj

end Step

end Instance

/-! ## Many calls -/

open Instance

/-- An instance and what has become of the calls on it. -/
structure Invocation where
  current : Instance
  events : List Event

namespace Invocation

/-- Before any call. -/
def start (f : Filter) : Invocation := ⟨.new f, []⟩

/-- One more call. -/
def call (v : Invocation) (c : Operation) (w : Workspace) : Invocation :=
  ⟨(v.current.event c w).after, v.events ++ [v.current.event c w]⟩

/-- More calls in order, each on a workspace of its own. -/
def run (v : Invocation) (calls : List (Operation × Workspace)) : Invocation :=
  calls.foldl (fun v c => v.call c.1 c.2) v

/-- The instance holds what its state and its past demand, and nothing was done to a tree twice. -/
structure Orderly (f : Filter) (v : Invocation) : Prop where
  filter_eq : v.current.filter = f
  holds : v.current.Holds (lastPlan v.events)
  unapplied : v.current.state ∈ [.unbound, .bound, .preflighted] →
    v.events.countP Event.applies = 0
  unexecuted : v.current.state ∈ [.unbound, .bound, .preflighted, .applied] →
    v.events.countP Event.executes = 0
  applied : v.current.state = .applied → ∃ e ∈ v.events, e.applies ∧ e.reply.isValid
  appliedOnce : v.events.countP Event.applies ≤ 1
  executedOnce : v.events.countP Event.executes ≤ 1

theorem Orderly.start {f : Filter} : Orderly f (start f) where
  filter_eq := rfl
  holds := ⟨fun h => (nomatch h), fun h => by simp [Invocation.start, Instance.new] at h⟩
  unapplied := fun _ => rfl
  unexecuted := fun _ => rfl
  applied := fun h => nomatch h
  appliedOnce := Nat.zero_le 1
  executedOnce := Nat.zero_le 1

variable {f : Filter} {v : Invocation} {c : Operation} {w : Workspace}

theorem countP_call {p : Event → Bool} : (v.call c w).events.countP p =
    v.events.countP p + if p (v.current.event c w) then 1 else 0 := by
  rw [call, List.countP_append, List.countP_singleton]

theorem Orderly.call (h : v.Orderly f) : (v.call c w).Orderly f := by
  have hstep := event_step v.current c w
  have happlies : (v.current.event c w).applies = true →
      v.current.state = .preflighted ∧ (v.call c w).current.state ∈ [.applied, .failed] := by
    intro happlies
    obtain ⟨hbefore, mode, hcall⟩ := Event.applies_iff.mp happlies
    cases hcall
    exact ⟨hbefore, hstep.of_apply h.holds hbefore⟩
  have hexecutes : (v.current.event c w).executes = true →
      v.current.state = .applied ∧
        (v.call c w).current.state ∈ [.executed, .cancelled, .failed] := by
    intro hexecutes
    obtain ⟨hbefore, hcall⟩ := Event.executes_iff.mp hexecutes
    cases hcall
    exact ⟨hbefore, hstep.of_execute hbefore⟩
  -- what was done before is counted by the state, so nothing can be done a second time
  refine ⟨hstep.filter_eq.trans h.filter_eq, ?_, ?_, ?_, ?_, ?_, ?_⟩
  · rw [Invocation.call, lastPlan, List.foldl_concat]
    exact hstep.holds h.holds
  · intro hstate
    rw [countP_call, h.unapplied (hstep.unapplied hstate)]
    split
    · next happlied =>
        have hafter := (happlies happlied).2
        generalize (v.call c w).current.state = s at hstate hafter
        cases s <;> simp at hstate hafter
    · rfl
  · intro hstate
    rw [countP_call, h.unexecuted (hstep.unexecuted hstate)]
    split
    · next hexecuted =>
        have hafter := (hexecutes hexecuted).2
        generalize (v.call c w).current.state = s at hstate hafter
        cases s <;> simp at hstate hafter
    · rfl
  · intro hstate
    rcases hstep.to_applied hstate with hbefore | ⟨hbefore, ⟨mode, rfl⟩, hvalid⟩
    · obtain ⟨e, he, happlied⟩ := h.applied hbefore
      exact ⟨e, List.mem_append_left _ he, happlied⟩
    · exact ⟨_, List.mem_append_right _ (List.mem_singleton_self _),
        Event.applies_iff.mpr ⟨hbefore, mode, rfl⟩, hvalid⟩
  · rw [countP_call]
    split
    · next happlied =>
        have hnone := h.unapplied (by simp [(happlies happlied).1])
        omega
    · exact h.appliedOnce
  · rw [countP_call]
    split
    · next hexecuted =>
        have hnone := h.unexecuted (by simp [(hexecutes hexecuted).1])
        omega
    · exact h.executedOnce

theorem orderly_run (h : v.Orderly f) (calls : List (Operation × Workspace)) :
    (v.run calls).Orderly f := by
  induction calls generalizing v with
  | nil => exact h
  | cons call calls ih => exact ih h.call

theorem run_of_terminal (h : v.current.state.isTerminal) (calls : List (Operation × Workspace)) :
    (v.run calls).current = v.current := by
  induction calls generalizing v with
  | nil => rfl
  | cons call calls ih =>
      have hsame : (v.call call.1 call.2).current = v.current :=
        (event_step v.current call.1 call.2).eq_of_terminal h
      exact (ih (hsame ▸ h)).trans hsame

/--
Whatever calls have been made on a fresh instance: a bound one has arguments and
no plan; from being preflighted on, and unless it failed, it has arguments and
the actions of the last plan that succeeded since; actions were applied at most
once and the body run at most once; and in a final state it stays as it is.
A further call takes the state along an allowed transition or leaves it; where
the state does not allow the call, it is answered with that and nothing changes;
where it applies actions these are the last plan's, and where it runs the body
that is the filter's on the bound arguments, and actions have been applied.
-/
theorem lifecycle (f : Filter) (calls : List (Operation × Workspace)) :
    let v := (start f).run calls
    (v.current.state = .bound →
      v.current.arguments.isSome ∧ v.current.actions = none ∧ v.current.advice = []) ∧
    (v.current.state ∈ [.preflighted, .applied, .executed, .done, .cancelled] →
      v.current.arguments.isSome ∧
        ∃ actions, v.current.actions = some actions ∧ lastPlan v.events = some actions) ∧
    v.events.countP Event.applies ≤ 1 ∧
    v.events.countP Event.executes ≤ 1 ∧
    (v.current.state.isTerminal → ∀ more, (v.run more).current = v.current) ∧
    ∀ (c : Operation) (w : Workspace),
      let e := v.current.event c w
      (e.after.state = e.before.state ∨ e.before.state.allows e.after.state) ∧
      (e.granted = false → e.after = e.before ∧ e.left = e.given ∧
        e.reply = .fail ⟨.state, -300, (IllegalTransition.mk e.before.state c.target).message⟩) ∧
      (e.applies → ∃ mode actions, c = .apply mode ∧ lastPlan v.events = some actions ∧
        e.left.tree = (actions.apply mode w.tree).2) ∧
      (e.executes → (∃ a ∈ v.events, a.applies ∧ a.reply.isValid) ∧
        ∃ args, v.current.arguments = some args ∧ e.reply = (f.execute args w).1.map .ended ∧
          e.left = (f.execute args w).2) ∧
      (e.applies = false → e.executes = false → e.left.tree = w.tree) := by
  intro v
  have h : v.Orderly f := orderly_run .start calls
  refine ⟨h.holds.bound, h.holds.planned, h.appliedOnce, h.executedOnce,
    fun hterminal => run_of_terminal hterminal, ?_⟩
  intro c w e
  refine ⟨(event_step v.current c w).state_allowed, ?_, ?_, ?_, event_tree⟩
  · intro hrefused
    have he : e = ⟨c, v.current, w, _, v.current, w⟩ := event_of_refused hrefused
    rw [he]
    exact ⟨rfl, rfl, rfl⟩
  · intro happlies
    obtain ⟨hstate, mode, hcall⟩ := Event.applies_iff.mp happlies
    obtain ⟨-, actions, hsome, hplan⟩ := h.holds.planned (by
      show e.before.state ∈ _
      simp [hstate])
    cases hcall
    exact ⟨mode, actions, rfl, hplan, event_apply (LifeState.allows_applied.mpr hstate) hsome⟩
  · intro hexecutes
    obtain ⟨hstate, hcall⟩ := Event.executes_iff.mp hexecutes
    obtain ⟨hargs, -⟩ := h.holds.planned (by
      show e.before.state ∈ _
      simp [hstate])
    obtain ⟨args, hargs⟩ := Option.isSome_iff_exists.mp hargs
    have hrun := @event_execute v.current w (LifeState.allows_executed.mpr hstate)
    cases hcall
    refine ⟨h.applied hstate, args, hargs, ?_⟩
    rw [hargs, h.filter_eq] at hrun
    exact hrun

/-- Called in order, an invocation comes to its end. -/
example :
    let calls : List Operation :=
      [.bind Builtin.CreateGroup.schema.defaults, .preflight, .apply .execute, .execute, .finish]
    let v := (start Builtin.CreateGroup.filter).run (calls.map fun c => (c, ⟨.empty, .new 1⟩))
    v.current.state = .done ∧ v.events.countP Event.executes = 1 := ⟨rfl, rfl⟩

end Invocation

end FilterTree
