import MailBlocks.Json.Value
import MailBlocks.Keyed

/-!
# Writing JSON

Two written forms: the compact one without any blank, and an indented one. Strings escape quotes,
backslashes and the characters below U+0020 and nothing else; the canonical form is the compact
one with the members of every object in ascending key order.

* `Value.compact`, `Value.pretty`, `Value.canonical`: the three forms.
-/

namespace MailBlocks.Json

/-- How one character of a string is written. -/
def escapedChar (c : Char) : List Char :=
  match c with
  | '"' => ['\\', '"']
  | '\\' => ['\\', '\\']
  | '\x08' => ['\\', 'b']
  | '\t' => ['\\', 't']
  | '\n' => ['\\', 'n']
  | '\x0c' => ['\\', 'f']
  | '\r' => ['\\', 'r']
  | c =>
    if c.toNat < 0x20 then
      ['\\', 'u', '0', '0', Nat.digitChar (c.toNat / 16), Nat.digitChar (c.toNat % 16)]
    else [c]

/-- A string between its quotes. -/
def stringChars (s : String) : List Char :=
  '"' :: s.toList.flatMap escapedChar ++ ['"']

/-- A number: whole ones in decimal, the others in their shortest form. -/
def Number.chars : Number → List Char
  | .int n => Number.decimalIntChars n
  | .real negative x => if negative then '-' :: x.chars else x.chars

/-- A number as text. -/
def Number.text (n : Number) : String :=
  String.ofList n.chars

namespace Value

mutual

/-- The compact form. -/
def compactChars : Value → List Char
  | .null => "null".toList
  | .bool true => "true".toList
  | .bool false => "false".toList
  | .number n => n.chars
  | .string s => stringChars s
  | .array items => '[' :: compactItems items ++ [']']
  | .object members => '\x7b' :: compactMembers members ++ ['\x7d']

/-- The items of an array, with commas between them. -/
def compactItems : List Value → List Char
  | [] => []
  | [v] => compactChars v
  | v :: w :: rest => compactChars v ++ ',' :: compactItems (w :: rest)

/-- The members of an object, with commas between them. -/
def compactMembers : List (String × Value) → List Char
  | [] => []
  | [(k, v)] => stringChars k ++ ':' :: compactChars v
  | (k, v) :: m :: rest =>
    stringChars k ++ ':' :: compactChars v ++ ',' :: compactMembers (m :: rest)

end

/-- **The compact form**, without any blank. -/
def compact (v : Value) : String :=
  String.ofList v.compactChars

/-- A line break and the indentation of a nesting level, two blanks a level. -/
def indentation (level : Nat) : List Char :=
  '\n' :: List.replicate (2 * level) ' '

mutual

/-- The indented form at a nesting level. -/
def prettyChars (level : Nat) : Value → List Char
  | .array [] => ['[', ']']
  | .array (v :: rest) => '[' :: prettyItems (level + 1) (v :: rest) ++ indentation level ++ [']']
  | .object [] => ['\x7b', '\x7d']
  | .object (m :: rest) =>
    '\x7b' :: prettyMembers (level + 1) (m :: rest) ++ indentation level ++ ['\x7d']
  | .null => "null".toList
  | .bool true => "true".toList
  | .bool false => "false".toList
  | .number n => n.chars
  | .string s => stringChars s

/-- The items of an array, each on a line of its own. -/
def prettyItems (level : Nat) : List Value → List Char
  | [] => []
  | [v] => indentation level ++ prettyChars level v
  | v :: w :: rest =>
    indentation level ++ prettyChars level v ++ ',' :: prettyItems level (w :: rest)

/-- The members of an object, each on a line of its own. -/
def prettyMembers (level : Nat) : List (String × Value) → List Char
  | [] => []
  | [(k, v)] => indentation level ++ stringChars k ++ ':' :: ' ' :: prettyChars level v
  | (k, v) :: m :: rest =>
    indentation level ++ stringChars k ++ ':' :: ' ' :: prettyChars level v ++
      ',' :: prettyMembers level (m :: rest)

end

/-- **The indented form**: two blanks a level, empty arrays and objects closed at once. -/
def pretty (v : Value) : String :=
  String.ofList (v.prettyChars 0)

mutual

/-- The value with the members of every object in ascending key order. -/
def sorted : Value → Value
  | .array items => .array (sortedItems items)
  | .object members => .object (Keyed.ofList (sortedMembers members))
  | v => v

/-- `sorted` for each item. -/
def sortedItems : List Value → List Value
  | [] => []
  | v :: rest => sorted v :: sortedItems rest

/-- `sorted` for each member's value. -/
def sortedMembers : List (String × Value) → List (String × Value)
  | [] => []
  | (k, v) :: rest => (k, sorted v) :: sortedMembers rest

end

/-- **The canonical form**: compact, with the keys of every object in ascending order. -/
def canonical (v : Value) : String :=
  v.sorted.compact

end Value

example :
    (Value.array [.object [("b", .null), ("a", .string "\x01é")], .number (.int (-5))]).canonical =
      "[\x7b\"a\":\"\\u0001é\",\"b\":null\x7d,-5]" := by decide

end MailBlocks.Json
