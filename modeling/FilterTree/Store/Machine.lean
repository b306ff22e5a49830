import FilterTree.Store.Dense
import FilterTree.Store.Lists

/-!
# Stores in the memory of a machine

The operations on stores are functions from store to store over natural numbers. A machine does the
same to a store in its memory, with words of 64 bits, and that differs in three ways. A sum or a
product that is no word stops it, and so does a slice that does not lie in the row. A row of more
than `byteLimit` bytes cannot be had: asking for one stops the machine too, whether or not it has
that much memory. And what the machine has written by the time it stops or refuses stays written.

Here the operations are given as a machine carries them out, step by step. They bear the names of
the functions that they carry out. Those that may ask for memory are told how many bytes an element
takes. A row that grows asks for as much as it needs.
-/

namespace FilterTree

/-- Why an operation does not end well: the machine stops, or it refuses the operation. -/
inductive Fault where
  | stop
  | refused (e : StoreError)

/-- What a machine does with something in its memory. -/
abbrev InPlace (σ β : Type) := EStateM Fault σ β

/-- The bytes that a row has at most. -/
def byteLimit : Nat := Nat.pow 2 63 - 1

namespace InPlace

variable {σ β : Type}

/-- Go on with a result, or refuse. -/
def check : Except StoreError β → InPlace σ β
  | .ok b => pure b
  | .error e => throw (.refused e)

def mul (a b : Nat) : InPlace σ Nat := if a * b < sizeLimit then pure (a * b) else throw .stop

def add (a b : Nat) : InPlace σ Nat := if a + b < sizeLimit then pure (a + b) else throw .stop

/-- Ask for the memory of a row: so many elements of so many bytes. -/
def reserve (width count : Nat) : InPlace σ Unit :=
  if count * width ≤ byteLimit then pure () else throw .stop

end InPlace

open InPlace

variable {α : Type}

namespace DenseStore.Machine

/-! ## Dense stores -/

def filled {σ : Type} (width : Nat) (tuples components : Shape) (value : α) :
    InPlace σ (DenseStore α) := do
  let n ← check (Shape.elementCount tuples components)
  reserve width n
  return ⟨tuples, components, some (Array.replicate n value)⟩

def row : InPlace (DenseStore α) (Array α) := do
  let s ← getThe (DenseStore α)
  match s.row? with
  | some row => return row
  | none => throw (.refused .notAllocated)

def size : InPlace (DenseStore α) Nat := do
  let s ← getThe (DenseStore α)
  mul s.tupleCount s.componentCount

def place (tuple component : Nat) : InPlace (DenseStore α) Nat := do
  let s ← getThe (DenseStore α)
  if s.tupleCount ≤ tuple then throw (.refused (.tupleOutOfRange tuple s.tupleCount))
  else if s.componentCount ≤ component then
    throw (.refused (.componentOutOfRange component s.componentCount))
  else
    let start ← mul tuple s.componentCount
    add start component

/-- Where a tuple starts in the row, and where it stops. -/
def range (tuple : Nat) : InPlace (DenseStore α) (Nat × Nat) := do
  let s ← getThe (DenseStore α)
  if s.tupleCount ≤ tuple then throw (.refused (.tupleOutOfRange tuple s.tupleCount))
  else
    let start ← mul tuple s.componentCount
    let next ← add tuple 1
    let stop ← mul next s.componentCount
    return (start, stop)

def slice (row : Array α) (start stop : Nat) : InPlace (DenseStore α) (Array α) :=
  -- a part of the row with other ends is what stops a machine
  if start ≤ stop ∧ stop ≤ row.size then return row.extract start stop else throw .stop

def putRow (row : Array α) : InPlace (DenseStore α) Unit :=
  modify fun s => { s with row? := some row }

def get (index : Nat) : InPlace (DenseStore α) α := do
  let row ← row
  match row[index]? with
  | some value => return value
  | none => throw (.refused (.indexOutOfRange index row.size))

def set (index : Nat) (value : α) : InPlace (DenseStore α) Unit := do
  let row ← row
  if index < row.size then putRow (row.setIfInBounds index value)
  else throw (.refused (.indexOutOfRange index row.size))

def getComponent (tuple component : Nat) : InPlace (DenseStore α) α := do
  get (← place tuple component)

def setComponent (tuple component : Nat) (value : α) : InPlace (DenseStore α) Unit := do
  set (← place tuple component) value

def tuple (tuple : Nat) : InPlace (DenseStore α) (Array α) := do
  let (start, stop) ← range tuple
  slice (← row) start stop

def editTuple (tuple : Nat) (f : Nat → α → α) : InPlace (DenseStore α) Unit := do
  let (start, stop) ← range tuple
  let row ← row
  let _ ← slice row start stop
  putRow (row.mapIdx fun i a => if start ≤ i ∧ i < stop then f (i - start) a else a)

def editRow (f : Nat → α → α) : InPlace (DenseStore α) Unit := do
  let row ← row
  putRow (row.mapIdx f)

def fill (value : α) : InPlace (DenseStore α) Unit := do
  let row ← row
  putRow (row.map fun _ => value)

def allocate (width : Nat) (zero : α) : InPlace (DenseStore α) Unit := do
  let s ← getThe (DenseStore α)
  if s.isAllocated then return ()
  else
    let n ← size
    reserve width n
    putRow (Array.replicate n zero)

def resizeTuples (width : Nat) (tuples : Shape) (zero : α) : InPlace (DenseStore α) Unit := do
  let s ← getThe (DenseStore α)
  -- counted before anything is written: from here on nothing is refused
  let n ← check (Shape.elementCount tuples s.componentShape)
  modify fun s => { s with tupleShape := tuples }
  match s.row? with
  | some row =>
    if row.size < n then reserve width n
    putRow (resizeRow zero n row)
  | none => return ()

end DenseStore.Machine

namespace ListStore

/-- The bytes that a list takes in the row of the lists, however long it is. -/
def listWidth : Nat := 24

namespace Machine

/-! ## List stores -/

def new {σ : Type} (tuples : Shape) : InPlace σ (ListStore α) := do
  let n ← check (listCount tuples)
  reserve listWidth n
  return ⟨tuples, some (Array.replicate n [])⟩

def lists : InPlace (ListStore α) (Array (List α)) := do
  let s ← getThe (ListStore α)
  match s.lists? with
  | some lists => return lists
  | none => throw (.refused .notAllocated)

def putLists (lists : Array (List α)) : InPlace (ListStore α) Unit :=
  modify fun s => { s with lists? := some lists }

def list (tuple : Nat) : InPlace (ListStore α) (List α) := do
  let s ← getThe (ListStore α)
  let lists ← lists
  match lists[tuple]? with
  | some l => return l
  | none => throw (.refused (.tupleOutOfRange tuple s.tupleCount))

def modifyList (tuple : Nat) (f : List α → List α) : InPlace (ListStore α) Unit := do
  let s ← getThe (ListStore α)
  let lists ← lists
  if tuple < lists.size then putLists (lists.modify tuple f)
  else throw (.refused (.tupleOutOfRange tuple s.tupleCount))

def push (width tuple : Nat) (value : α) : InPlace (ListStore α) Unit := do
  let l ← list tuple
  reserve width (l.length + 1)
  modifyList tuple fun l => l ++ [value]

def editLists (f : Nat → List α → List α) : InPlace (ListStore α) Unit := do
  let lists ← lists
  putLists (lists.mapIdx f)

def setLists (lists : Array (List α)) : InPlace (ListStore α) Unit := do
  let s ← getThe (ListStore α)
  if lists.size = s.tupleCount then putLists lists
  else throw (.refused (.lengthMismatch s.tupleCount lists.size))

def allocate : InPlace (ListStore α) Unit := do
  let s ← getThe (ListStore α)
  if s.isAllocated then return ()
  else
    reserve listWidth s.tupleCount
    putLists (Array.replicate s.tupleCount [])

def resizeTuples (tuples : Shape) : InPlace (ListStore α) Unit := do
  let s ← getThe (ListStore α)
  let n ← check (listCount tuples)
  modify fun s => { s with tupleShape := tuples }
  match s.lists? with
  | some lists =>
    if lists.size < n then reserve listWidth n
    putLists (lists.extract 0 n ++ Array.replicate (n - lists.size) [])
  | none => return ()

end Machine

end ListStore

end FilterTree
