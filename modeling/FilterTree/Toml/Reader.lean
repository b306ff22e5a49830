import FilterTree.Toml.Table
import FilterTree.Toml.Token

/-!
# Reading TOML texts

A text is a row of lines that give values to keys, with headers that say to
which table the keys below them belong. This is the reader of what settings can
be: texts, integers, truth values, empty lists, and tables in all their forms.
Dates, numbers with a point, lists with items and lists of tables are not read,
for no setting takes one.
-/

namespace FilterTree.Toml

/-- Whether a character may be in a value without quotes. -/
def isWordChar (c : Char) : Bool := isKeyChar c || c = '+'

/-- A value other than a list or a table. -/
def readScalar (cs : List Char) : Option (Value × List Char) :=
  match cs.takeWhile isWordChar with
  | [] => (readText cs).map fun (s, rest) => (.text s, rest)
  | word =>
    let value := match String.ofList word with
      | "true" => some (Value.bool true)
      | "false" => some (Value.bool false)
      | _ => (integer? word).map .integer
    value.map (·, cs.dropWhile isWordChar)

mutual

/-- A value. -/
def readValue : Nat → List Char → Option (Value × List Char)
  | 0, _ => none
  | fuel + 1, cs =>
    match cs with
    | '[' :: rest =>
      match skipComments rest.length rest with
      | ']' :: rest => some (.emptyList, rest)
      | _ => none
    | '\x7b' :: rest =>
      match skipBlanks rest with
      | '\x7d' :: rest => some (.table .braces [], rest)
      | rest => readEntries fuel (.table .header []) rest
    | cs => readScalar cs

/-- Keys with their value. -/
def readEntry : Nat → List Char → Option ((List String × Value) × List Char)
  | 0, _ => none
  | fuel + 1, cs => do
    let (keys, rest) ← readKeys (cs.length + 1) cs
    match rest with
    | '=' :: rest =>
      let (value, rest) ← readValue fuel (skipBlanks rest)
      some ((keys, value), rest)
    | _ => none

/-- The entries between braces up to the closing one; there is at least one. -/
def readEntries : Nat → Value → List Char → Option (Value × List Char)
  | 0, _, _ => none
  | fuel + 1, table, cs => do
    let ((keys, value), rest) ← readEntry fuel cs
    let table ← table.assign? keys value
    match skipBlanks rest with
    | ',' :: rest => readEntries fuel table rest
    | '\x7d' :: rest => some (table.finished, rest)
    | _ => none

end

/-- The lines of a text below a header; every line takes at least one character. -/
def readLines : Nat → List String → Value → List Char → Option Value
  | _, _, root, [] => some root
  | 0, _, _, _ => none
  | fuel + 1, header, root, cs =>
    match afterLine? cs with
    | some rest => readLines fuel header root rest
    | none =>
      match skipBlanks cs with
      | '[' :: rest => do
        let (header, rest) ← readKeys (rest.length + 1) rest
        match rest with
        | ']' :: rest => readLines fuel header (← root.openTable? header) (← afterLine? rest)
        | _ => none
      | rest => do
        let ((keys, value), rest) ← readEntry (rest.length + 2) rest
        readLines fuel header (← root.assignIn? header keys value) (← afterLine? rest)

/-- Read a text, which may begin with a byte order mark. -/
def ofText? (text : String) : Option Entries :=
  let cs := match text.toList with
    | '\ufeff' :: rest => rest
    | cs => cs
  match readLines (cs.length + 1) [] (.table .header []) cs with
  | some (.table _ entries) => some entries
  | _ => none

end FilterTree.Toml
