import FilterTree.Json.Number
import FilterTree.Json.Token

/-!
# What is wanted of a text

Who reads a record from a text wants the fields of the record and nothing else.
What stands in other fields has to have the form of a value, but it is given
none: a number may be too large there, an escape may stand for no character, and
arrays and objects may be nested as deep as they like. `afterValue?` gets behind
such a value without the help of a stack that grows with it; the brackets that
are open are a list.
-/

namespace FilterTree.Json

/-- Which parts of a text are wanted. -/
inductive Interest where
  /-- Every part. -/
  | whole
  /-- No part. -/
  | nothing
  /-- The parts of a record with these names, or in these places. -/
  | record (parts : List (String × Interest))
  /-- Every item or field, and of each of them this. -/
  | each (part : Interest)

namespace Interest

/-- What is wanted of a field. -/
def field : Interest → String → Interest
  | record parts, name => (parts.lookup name).getD nothing
  | each part, _ => part
  | i, _ => i

/-- What is wanted of the item at a place. -/
def item : Interest → Nat → Interest
  | record parts, index => (parts[index]?.map (·.2)).getD nothing
  | each part, _ => part
  | i, _ => i

end Interest

/-! ## Passing over values -/

/-- An array or an object that is open. -/
inductive Bracket where
  | array
  | object
deriving DecidableEq, Repr

namespace Bracket

/-- The bracket that a character opens. -/
def ofOpening? : Char → Option Bracket
  | '[' => some array
  | '\x7b' => some object
  | _ => none

/-- The character that closes a bracket. -/
def closing : Bracket → Char
  | array => ']'
  | object => '\x7d'

/-- What follows everything that stands in front of the value of a member. -/
def afterKey? : Bracket → List Char → Option (List Char)
  | array, cs => some cs
  | object, cs =>
    match skipBlanks cs with
    | '"' :: rest =>
      match (afterString? rest).map skipBlanks with
      | some (':' :: rest) => some rest
      | _ => none
    | _ => none

end Bracket

/-- What follows a value that is neither an array nor an object. -/
def afterScalar? : List Char → Option (List Char)
  | '"' :: rest => afterString? rest
  | 'n' :: rest => afterWord? "ull" rest
  | 't' :: rest => afterWord? "rue" rest
  | 'f' :: rest => afterWord? "alse" rest
  | cs => (Number.read cs).map (·.2)

/--
What follows the outermost of the open brackets, the innermost coming first. A
value is next, unless `ended` says that one has just ended.
-/
def afterOpen? : Nat → Bool → List Bracket → List Char → Option (List Char)
  | 0, _, _, _ => none
  | _, true, [], cs => some cs
  | fuel + 1, true, b :: outer, cs =>
    match skipBlanks cs with
    | c :: rest =>
      if c = b.closing then afterOpen? fuel true outer rest
      else
        match if c = ',' then b.afterKey? rest else none with
        | some rest => afterOpen? fuel false (b :: outer) rest
        | none => none
    | [] => none
  | fuel + 1, false, outer, cs =>
    match skipBlanks cs with
    | [] => none
    | c :: rest =>
      match Bracket.ofOpening? c with
      | none =>
        match afterScalar? (c :: rest) with
        | some rest => afterOpen? fuel true outer rest
        | none => none
      | some b =>
        match skipBlanks rest with
        | [] => none
        | d :: inner =>
          if d = b.closing then afterOpen? fuel true outer inner
          else
            match b.afterKey? rest with
            | some rest => afterOpen? fuel false (b :: outer) rest
            | none => none

/-- What follows a value that nobody wants; every step takes a character, except the last one. -/
def afterValue? (cs : List Char) : Option (List Char) := afterOpen? (cs.length + 2) false [] cs

end FilterTree.Json
