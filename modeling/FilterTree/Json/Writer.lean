import FilterTree.Json.Basic
import FilterTree.Numeral.Layout

/-!
# Writing JSON text

Two forms of the same value: compact, with nothing between the tokens, and
pretty, with one item or field to a line, two blanks of indentation for each
level, and nothing inside an empty array or object. Both are one function with
the level of indentation as an optional parameter.

Numbers are written with the shortest digits of their own width; a number that
is not finite has no JSON form and is written as null.
-/

namespace FilterTree.Json

/-- The escape of a character in a string, or the character itself. -/
def escapeChar (c : Char) : String :=
  match c with
  | '"' => "\\\""
  | '\\' => "\\\\"
  | '\x08' => "\\b"
  | '\x0c' => "\\f"
  | '\n' => "\\n"
  | '\r' => "\\r"
  | '\t' => "\\t"
  | c => if c.toNat < 0x20 then "\\u" ++ Numeral.paddedDigits 16 4 c.toNat else c.toString

/-- A string in quotes. -/
def quoted (s : String) : String := "\"" ++ String.join (s.toList.map escapeChar) ++ "\""

/-- A number in a layout, or null. -/
def numberText (l : Numeral.Layout) (f : Numeral.Format) (d : Numeral.Datum) : String :=
  if d.isFinite then l.write f d else "null"

/-- A number of 64 bits. -/
def doubleText (x : Float) : String := numberText .json .binary64 (Numeral.datum64 x)

/-- A number of 32 bits. -/
def singleText (x : Float32) : String := numberText .json32 .binary32 (Numeral.datum32 x)

/-- A line break and the indentation of a level; nothing in the compact form. -/
def lineBreak : Option Nat → String
  | none => ""
  | some level => "\n" ++ String.ofList (List.replicate (2 * level) ' ')

/-- Members between brackets, each on its own line in the pretty form. -/
def bracketed (opening closing : String) (level : Option Nat) (members : List String) : String :=
  if members.isEmpty then opening ++ closing
  else
    let inner := lineBreak (level.map (· + 1))
    opening ++ inner ++ ("," ++ inner).intercalate members ++ lineBreak level ++ closing

/-- What stands between a key and its value. -/
def colon (level : Option Nat) : String := if level.isSome then ": " else ":"

/-- Write a value; `level` is its indentation in the pretty form. -/
def write (level : Option Nat) : Json → String
  | .null => "null"
  | .bool b => if b then "true" else "false"
  | .int i => Numeral.intText i
  | .double x => doubleText x
  | .single x => singleText x
  | .str s => quoted s
  | .arr items =>
    bracketed "[" "]" level (items.attach.map fun ⟨j, _⟩ => j.write (level.map (· + 1)))
  | .obj fields =>
    bracketed "\x7b" "\x7d" level (fields.attach.map fun ⟨f, _⟩ =>
      quoted f.1 ++ colon level ++ f.2.write (level.map (· + 1)))
termination_by j => sizeOf j
decreasing_by
  · have := List.sizeOf_lt_of_mem ‹_›
    simp only [Json.arr.sizeOf_spec]
    omega
  · have := List.sizeOf_lt_of_mem ‹_›
    obtain ⟨_, _⟩ := f
    simp only [Json.obj.sizeOf_spec, Prod.mk.sizeOf_spec] at *
    omega

/-- The compact text of a value. -/
def compact (j : Json) : String := j.write none

/-- The pretty text of a value. -/
def pretty (j : Json) : String := j.write (some 0)

end FilterTree.Json
