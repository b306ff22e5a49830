import FilterTree.SortedMap

/-!
# JSON values

Numbers keep the kind they were written with: an integer of at most 64 bits is
an integer, every other numeral is a number of 64 bits, and values that the
program itself holds in 32 bits stay so until they are written. An object is
the list of its fields, so a record is written in the order of its fields;
`sorted` is the other view of an object, a map from keys to values, in which a
repeated key keeps its last value and the keys are in order.
-/

namespace FilterTree

/-- A JSON value. -/
inductive Json where
  | null
  | bool (value : Bool)
  | int (value : Int)
  | double (value : Float)
  | single (value : Float32)
  | str (value : String)
  | arr (items : List Json)
  | obj (fields : List (String × Json))

namespace Json

instance : Inhabited Json := ⟨.null⟩

/-- A natural number. -/
def nat (n : Nat) : Json := .int n

/-- A list of natural numbers. -/
def nats (ns : List Nat) : Json := .arr (ns.map nat)

/-- A list of strings. -/
def strs (ss : List String) : Json := .arr (ss.map str)

/-- A value, or null where there is none. -/
def ofOption (f : α → Json) : Option α → Json
  | none => .null
  | some a => f a

/-- The value of a field of an object; of a repeated field the last. -/
def field? (name : String) : Json → Option Json
  | .obj fields => fields.reverse.lookup name
  | _ => none

/-- Every object as a map: keys in order, a repeated key with its last value. -/
def sorted : Json → Json
  | .arr items => .arr (items.attach.map fun ⟨j, _⟩ => j.sorted)
  | .obj fields =>
    .obj (SortedMap.ofList (fields.attach.map fun ⟨f, _⟩ => (f.1, f.2.sorted))).entries
  | j => j
termination_by j => sizeOf j
decreasing_by
  · have := List.sizeOf_lt_of_mem ‹_›
    simp only [Json.arr.sizeOf_spec]
    omega
  · have := List.sizeOf_lt_of_mem ‹_›
    obtain ⟨_, _⟩ := f
    simp only [Json.obj.sizeOf_spec, Prod.mk.sizeOf_spec] at *
    omega

/-- Every number of 32 bits as the same number of 64 bits. -/
def widened : Json → Json
  | .single x => .double x.toFloat
  | .arr items => .arr (items.attach.map fun ⟨j, _⟩ => j.widened)
  | .obj fields => .obj (fields.attach.map fun ⟨f, _⟩ => (f.1, f.2.widened))
  | j => j
termination_by j => sizeOf j
decreasing_by
  · have := List.sizeOf_lt_of_mem ‹_›
    simp only [Json.arr.sizeOf_spec]
    omega
  · have := List.sizeOf_lt_of_mem ‹_›
    obtain ⟨_, _⟩ := f
    simp only [Json.obj.sizeOf_spec, Prod.mk.sizeOf_spec] at *
    omega

end Json

end FilterTree
