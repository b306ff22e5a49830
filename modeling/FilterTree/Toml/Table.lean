/-!
# Tables of TOML texts

A table can be given in four ways: by a header, by the header of a table inside
it, by a key with dots that leads through it, or between braces. How it was
given decides what may be done with it afterwards. A table between braces is
finished. A header may follow for a table that only headers inside it have
implied, but nothing gets two of them. Keys with dots lead through tables that
have no header, and they add to nothing but the tables that such keys have made.
No key is given twice.

Of lists there is only the empty one, for no setting takes items.
-/

namespace FilterTree.Toml

/-- How a table was given. -/
inductive Origin where
  | header
  | implied
  | dotted
  | braces
deriving DecidableEq, Repr

/-- A value of a key. -/
inductive Value where
  | text (value : String)
  | integer (value : Int)
  | bool (value : Bool)
  | emptyList
  | table (origin : Origin) (entries : List (String × Value))

/-- The values of a table by their keys, in the order in which the keys were given. -/
abbrev Entries : Type := List (String × Value)

/-- Whether a way that makes tables of one origin may lead through a table of another. -/
def Origin.leadsThrough : Origin → Origin → Bool
  | _, braces => false
  | dotted, header => false
  | _, _ => true

namespace Entries

/-- Add a value under a new key. -/
def add? (entries : Entries) (key : String) (value : Value) : Option Entries :=
  if (entries.lookup key).isNone then some (entries ++ [(key, value)]) else none

/-- Put another value in the place of that of a key. -/
def replace (entries : Entries) (key : String) (value : Value) : Entries :=
  entries.map fun e => if e.1 = key then (key, value) else e

end Entries

namespace Value

/-- An empty list or table. -/
def isEmpty : Value → Bool
  | emptyList | table _ [] => true
  | _ => false

/-- Change the table at the end of a way, and make the tables that are not there yet. -/
def alter (made : Origin) (change : Origin → Entries → Option Value) :
    List String → Value → Option Value
  | [], table origin entries => change origin entries
  | key :: way, table origin entries =>
    match entries.lookup key with
    | none => do
      let inner ← alter made change way (table made [])
      return table origin (entries ++ [(key, inner)])
    | some (table through inner) =>
      if made.leadsThrough through then do
        let inner ← alter made change way (table through inner)
        return table origin (Entries.replace entries key inner)
      else none
    | some _ => none
  | _, _ => none

/-- Give a value to a key of a table; keys in front of the last one lead on from the table. -/
def assign? (t : Value) (keys : List String) (value : Value) : Option Value := do
  let key ← keys.getLast?
  let way := keys.dropLast
  let add (origin : Origin) (entries : Entries) : Option Value :=
    if way.isEmpty || origin = .dotted then
      (Entries.add? entries key value).map (table origin)
    else none
  t.alter .dotted add way

/-- Give a value to a key below the table of a header. -/
def assignIn? (root : Value) (header keys : List String) (value : Value) : Option Value :=
  root.alter .implied (fun origin entries => (table origin entries).assign? keys value) header

/-- Open the table of a header. -/
def openTable? (root : Value) (header : List String) : Option Value := do
  let key ← header.getLast?
  let add (origin : Origin) (entries : Entries) : Option Value :=
    match entries.lookup key with
    | none => some (table origin (entries ++ [(key, table .header [])]))
    | some (table .implied inner) =>
      some (table origin (Entries.replace entries key (table .header inner)))
    | some _ => none
  root.alter .implied add header.dropLast

/-- A table that is finished. -/
def finished : Value → Value
  | table _ entries => table .braces entries
  | v => v

end Value

end FilterTree.Toml
