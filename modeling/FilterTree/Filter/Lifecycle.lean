import FilterTree.Report

/-!
# The life of an invocation

An invocation of a filter is bound, preflighted, applied and executed, and then
done. Until its actions have been applied it may go back to be bound or
preflighted again; from each step it may fail, and from the last two it may be
cancelled. What is done, failed or cancelled stays so.
-/

namespace FilterTree

/-- Where an invocation stands. -/
inductive LifeState where
  | unbound
  | bound
  | preflighted
  | applied
  | executed
  | done
  | failed
  | cancelled
deriving DecidableEq, Repr

namespace LifeState

/-- Every state in order. -/
def all : List LifeState :=
  [unbound, bound, preflighted, applied, executed, done, failed, cancelled]

/-- Name of a state. -/
def text : LifeState → String
  | unbound => "unbound"
  | bound => "bound"
  | preflighted => "preflighted"
  | applied => "applied"
  | executed => "executed"
  | done => "done"
  | failed => "failed"
  | cancelled => "cancelled"

/-- Whether no transition leaves a state. -/
def isTerminal : LifeState → Bool
  | done | failed | cancelled => true
  | _ => false

/-- The states that may follow a state. -/
def next : LifeState → List LifeState
  | unbound => [bound, failed]
  | bound => [bound, preflighted, failed]
  | preflighted => [bound, preflighted, applied, failed]
  | applied => [executed, failed, cancelled]
  | executed => [done, failed, cancelled]
  | done | failed | cancelled => []

/-- Whether a state may follow another. -/
def allows (a b : LifeState) : Bool := a.next.contains b

end LifeState

/-- A transition that is not allowed. -/
structure IllegalTransition where
  source : LifeState
  target : LifeState
deriving DecidableEq, Repr

namespace IllegalTransition

/-- The text of a transition that is not allowed. -/
def message (e : IllegalTransition) : String :=
  "illegal filter state transition " ++ e.source.text ++ " -> " ++ e.target.text

/-- A transition that is not allowed as a failure. -/
def failure (e : IllegalTransition) : Failure := ⟨.state, -300, e.message⟩

end IllegalTransition

/-- Accept an allowed transition. -/
def LifeState.check (a b : LifeState) : Except IllegalTransition Unit :=
  if a.allows b then .ok () else .error ⟨a, b⟩

end FilterTree
