import FilterTree.Json.Interest

/-!
# Reading JSON text

A recursive-descent reader over the characters of a text. Each step hands on
the characters it did not take; the reader of a value calls itself for the
items of an array and the fields of an object, and a budget of one more than the
number of characters is enough, because every call takes at least one. Values
may be nested at most 127 deep, so a text cannot make its reader's stack grow
without bound.

The reader is told what is wanted of the text, and where nothing is wanted it
passes over a value and leaves null in its place. Fields stay in the order of
the text, repeated ones included; who reads a record decides what a repetition
means.
-/

namespace FilterTree.Json

/-- How deep values may be nested, one above the deepest that is read. -/
def depthLimit : Nat := 128

mutual

/-- What is wanted of a value, after blanks. -/
def readValue : Nat → Nat → Interest → List Char → Option (Json × List Char)
  | 0, _, _, _ => none
  | _, _, .nothing, cs => (afterValue? cs).map (.null, ·)
  | fuel + 1, depth, i, cs =>
    match skipBlanks cs with
    | '"' :: rest => (readString [] rest).map fun (s, rest) => (.str s, rest)
    | '[' :: rest =>
      if depth ≤ 1 then none
      else match skipBlanks rest with
        | ']' :: rest => some (.arr [], rest)
        | rest => (readItems fuel (depth - 1) i 0 rest).map fun (items, rest) => (.arr items, rest)
    | '\x7b' :: rest =>
      if depth ≤ 1 then none
      else match skipBlanks rest with
        | '\x7d' :: rest => some (.obj [], rest)
        | rest => (readFields fuel (depth - 1) i rest).map fun (fields, rest) => (.obj fields, rest)
    | 'n' :: rest => (afterWord? "ull" rest).map (.null, ·)
    | 't' :: rest => (afterWord? "rue" rest).map (.bool true, ·)
    | 'f' :: rest => (afterWord? "alse" rest).map (.bool false, ·)
    | cs => do
      let (number, rest) ← Number.read cs
      return (← number.value?, rest)

/-- The items of an array from a place on up to its end; there is at least one. -/
def readItems : Nat → Nat → Interest → Nat → List Char → Option (List Json × List Char)
  | 0, _, _, _, _ => none
  | fuel + 1, depth, i, index, cs => do
    let (item, rest) ← readValue fuel depth (i.item index) cs
    match skipBlanks rest with
    | ',' :: rest =>
      let (items, rest) ← readItems fuel depth i (index + 1) rest
      some (item :: items, rest)
    | ']' :: rest => some ([item], rest)
    | _ => none

/-- The fields of an object up to its end; there is at least one. -/
def readFields : Nat → Nat → Interest → List Char → Option (List (String × Json) × List Char)
  | 0, _, _, _ => none
  | fuel + 1, depth, i, cs =>
    match skipBlanks cs with
    | '"' :: rest => do
      let (key, rest) ← readString [] rest
      match skipBlanks rest with
      | ':' :: rest =>
        let (value, rest) ← readValue fuel depth (i.field key) rest
        match skipBlanks rest with
        | ',' :: rest =>
          let (fields, rest) ← readFields fuel depth i rest
          some ((key, value) :: fields, rest)
        | '\x7d' :: rest => some ([(key, value)], rest)
        | _ => none
      | _ => none
    | _ => none

end

/-- Read a text that is one value and nothing else, as far as it is wanted. -/
def ofTextFor? (interest : Interest) (text : String) : Option Json :=
  let cs := text.toList
  match readValue (cs.length + 1) depthLimit interest cs with
  | some (value, rest) => if (skipBlanks rest).isEmpty then some value else none
  | none => none

/-- Read a text that is one value and nothing else. -/
def ofText? : String → Option Json := ofTextFor? .whole

end FilterTree.Json
