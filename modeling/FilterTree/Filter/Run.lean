import FilterTree.Tree.Basic

/-!
# Runs

While a filter works it sends messages to whoever started it and looks from
time to time whether it has been cancelled. Both are part of one value that is
handed through the run: the messages that were sent, and when the receiver
cancels. A receiver that cancels does so before the run or upon a message, so
the flag can change only when a message is sent, and a run is a function of its
inputs.

Counting work sends a message only when the percentage has grown by a step
since the last one. The counter therefore remembers the percentage it last
sent, and what it withholds is less than a step.
-/

namespace FilterTree

/-- How urgent a message is. -/
inductive MessageLevel where
  | info
  | progress
  | warning
deriving DecidableEq, Repr

/-- Name of a level. -/
def MessageLevel.text : MessageLevel → String
  | info => "info"
  | progress => "progress"
  | warning => "warning"

/-- A message of a run; one about progress has a percentage. -/
structure Message where
  level : MessageLevel
  text : String
  percent : Option Nat
deriving DecidableEq, Repr

namespace Message

/-- A message for information. -/
def info (text : String) : Message := ⟨.info, text, none⟩

/-- A warning. -/
def warning (text : String) : Message := ⟨.warning, text, none⟩

/-- A message about progress; percentages end at 100. -/
def progress (text : String) (percent : Nat) : Message := ⟨.progress, text, some (min percent 100)⟩

end Message

/-- The state of a run: what was sent, and when it is cancelled. -/
structure Run where
  cancelled : Bool
  /-- The number of messages upon which the receiver cancels. -/
  cancelAfter : Option Nat
  /-- Least growth of a percentage between two messages. -/
  step : Nat
  messages : List Message
deriving DecidableEq, Repr

namespace Run

/-- A run that nobody cancels. -/
def new (step : Nat) : Run := ⟨false, none, step, []⟩

/-- Send a message; the receiver may cancel upon it. -/
def send (run : Run) (m : Message) : Run :=
  let messages := run.messages ++ [m]
  { run with
    messages := messages
    cancelled := run.cancelled || run.cancelAfter == some messages.length }

end Run

/-- Counts finished work. -/
structure Counter where
  label : String
  total : Nat
  done : Nat
  lastPercent : Nat
deriving DecidableEq, Repr

namespace Counter

/-- A counter of so many pieces of work, none of them done. -/
def new (label : String) (total : Nat) : Counter := ⟨label, total, 0, 0⟩

/-- The share of the work that is done, in percent; work that was not announced does not count. -/
def percent (c : Counter) : Nat := min c.done c.total * 100 / c.total

/-- Record finished work; the percentage is sent if it has grown by a step. -/
def advance (c : Counter) (n : Nat) (run : Run) : Counter × Run :=
  if c.total = 0 then (c, run)
  else
    let c := { c with done := c.done + n }
    let percent := c.percent
    if c.lastPercent + max run.step 1 ≤ percent then
      ({ c with lastPercent := percent },
        run.send (.progress (c.label ++ s!" {percent}%") percent))
    else (c, run)

end Counter

/-! ## What a filter works on -/

/-- The tree and the run that a filter works on. -/
structure Workspace where
  tree : Tree
  run : Run

/-- A computation that sends messages. -/
abbrev Sending (α : Type) : Type := StateM Run α

/-- A computation on the tree that sends messages. -/
abbrev Working (α : Type) : Type := StateM Workspace α

namespace Working

/-- The tree. -/
def tree : Working Tree := return (← get).tree

/-- Replace the tree. -/
def setTree (t : Tree) : Working Unit := modify fun w => { w with tree := t }

/-- Whether the run has been cancelled. -/
def isCancelled : Working Bool := return (← get).run.cancelled

/-- A computation that only sends messages. -/
def sending (s : Sending α) : Working α := fun w =>
  let (a, run) := s w.run
  (a, { w with run := run })

end Working

/-- Send a message. -/
def Sending.send (m : Message) : Sending Unit := modify fun run => run.send m

end FilterTree
