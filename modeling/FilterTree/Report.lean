import FilterTree.Json.Basic
import FilterTree.Tree.Error

/-!
# Reports

A step of the program answers with a value or with everything that kept it from
having one, and in both cases with warnings. Warnings never decide anything and
are never lost: every way of combining reports keeps those of all parts, in
order. Failures are kept the same way, so that one pass over an input can show
all that is wrong with it.

A failure is what the user sees: a kind, a code and a text. The modules that
detect failures have types of their own for the causes and turn them into
failures at their border. One kind is different. A crash ends the whole program,
so a report that holds one is a report that nobody gets to see; it is passed on
like any other failure, and no step goes on behind it.
-/

namespace FilterTree

/-- What a failure is about. -/
inductive FailureKind where
  | structural
  | argument
  | execution
  | legacyImport
  | state
  /-- The program has come to a stop. -/
  | crash
deriving DecidableEq, Repr

/-- Name of a kind of failure. -/
def FailureKind.text : FailureKind → String
  | structural => "structural"
  | argument => "argument"
  | execution => "execution"
  | legacyImport => "import"
  | state => "state"
  | crash => "panic"

/-- Something that kept a step from having a value. -/
structure Failure where
  kind : FailureKind
  code : Int
  message : String
deriving DecidableEq, Repr

namespace Failure

/-- A failure on one line. -/
def text (f : Failure) : String :=
  f.kind.text ++ " error " ++ Numeral.intText f.code ++ ": " ++ f.message

/-- A failure as a record. -/
def toJson (f : Failure) : Json :=
  .obj [("kind", .str f.kind.text), ("code", .int f.code), ("message", .str f.message)]

/-- What the tree refused. -/
def ofTree (e : TreeError) : Failure := ⟨.structural, e.code, e.message⟩

end Failure

/-- Something worth knowing that kept nothing from happening. -/
structure Warning where
  code : Int
  message : String
deriving DecidableEq, Repr

/-- A warning on one line. -/
def Warning.text (w : Warning) : String :=
  "warning " ++ Numeral.intText w.code ++ ": " ++ w.message

/-- A warning as a record. -/
def Warning.toJson (w : Warning) : Json :=
  .obj [("code", .int w.code), ("message", .str w.message)]

/-- A value or failures, and warnings either way. -/
structure Report (α : Type) where
  outcome : Except (List Failure) α
  warnings : List Warning

namespace Report

variable {α β : Type}

/-- A report of a value. -/
def ok (a : α) : Report α := ⟨.ok a, []⟩

/-- A report of failures; an empty list of them counts as failed too. -/
def failed (failures : List Failure) : Report α := ⟨.error failures, []⟩

/-- A report of one failure. -/
def fail (failure : Failure) : Report α := failed [failure]

/-- A value, or its failure, as a report. -/
def ofExcept : Except Failure α → Report α
  | .ok a => ok a
  | .error f => fail f

/-- What the tree says, as a report. -/
def ofTree (r : Except TreeError α) : Report α := ofExcept (r.mapError Failure.ofTree)

variable (r : Report α)

/-- The value, if there is one. -/
def value? : Option α := r.outcome.toOption

/-- Whether there is a value. -/
def isValid : Bool := r.value?.isSome

/-- The failures; none of a report with a value. -/
def failures : List Failure :=
  match r.outcome with
  | .ok _ => []
  | .error fs => fs

/-- Whether the program has come to a stop. -/
def crashed : Bool := r.failures.any fun f => f.kind == .crash

/-- Whether a failure has a code. -/
def hasFailure (code : Int) : Bool := r.failures.any fun f => f.code == code

/-- Whether a warning has a code. -/
def hasWarning (code : Int) : Bool := r.warnings.any fun w => w.code == code

/-- Add warnings at the end. -/
def warnAll (ws : List Warning) : Report α := { r with warnings := r.warnings ++ ws }

/-- Add a warning at the end. -/
def warn (w : Warning) : Report α := r.warnAll [w]

/-- Add failures at the end; a value is dropped. -/
def addFailures (fs : List Failure) : Report α := { r with outcome := .error (r.failures ++ fs) }

/-- Add a failure at the end; a value is dropped. -/
def addFailure (f : Failure) : Report α := r.addFailures [f]

/-- Apply a function to the value. -/
def map (f : α → β) : Report β := ⟨r.outcome.map f, r.warnings⟩

/-- Drop the value. -/
def discard : Report Unit := r.map fun _ => ()

/-- Go on with the value; the warnings of both steps are kept. -/
def andThen (f : α → Report β) : Report β :=
  match r.outcome with
  | .ok a => ⟨(f a).outcome, r.warnings ++ (f a).warnings⟩
  | .error fs => ⟨.error fs, r.warnings⟩

/-- Take over the warnings and failures of another report; the result has its value beside it. -/
def absorb (s : Report β) : Report α × Option β :=
  let warned := r.warnAll s.warnings
  match s.outcome with
  | .ok b => (warned, some b)
  | .error fs => (warned.addFailures fs, none)

/-- Both values, if both are there; failures and warnings of both. -/
def zip (s : Report β) : Report (α × β) where
  warnings := r.warnings ++ s.warnings
  outcome :=
    match r.outcome, s.outcome with
    | .ok a, .ok b => .ok (a, b)
    | .error fs, .error gs => .error (fs ++ gs)
    | .error fs, .ok _ | .ok _, .error fs => .error fs

/-- All values, if all are there; failures and warnings of all. -/
def collect (rs : List (Report α)) : Report (List α) :=
  let step (acc : Report Unit × List α) (r : Report α) : Report Unit × List α :=
    match acc.1.absorb r with
    | (report, some a) => (report, acc.2 ++ [a])
    | (report, none) => (report, acc.2)
  let (report, values) := rs.foldl step (ok (), [])
  report.map fun _ => values

end Report

/-- How a run ended that did not fail. -/
inductive Completion where
  | finished
  | cancelled
deriving DecidableEq, Repr

/-- Name of an ending. -/
def Completion.text : Completion → String
  | finished => "finished"
  | cancelled => "cancelled"

end FilterTree
