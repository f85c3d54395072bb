import MailBlocks.Json.Lexeme

/-!
# Reading JSON values

The grammar is strict: no trailing commas, no comments, at most 127 brackets open at a time. A
repeated key counts once, with its last value, and the members of an object that was read stand in
ascending key order.

* `items`, `members`: what stands between the brackets of an array and of an object.
* `value`: reads one value.
-/

namespace MailBlocks.Json

/-- The number of brackets that may be open at a time. -/
def maxLevels : Nat := 127

/-- Reads the colon between a key and its value. -/
def colon (s : List Char) : Except Fault (List Char) :=
  match skipSpace s with
  | ':' :: t => .ok t
  | [] => reached .endInObject []
  | t => offending .expectedColon t

/-- Reads the items of an array up to its closing bracket, of which at least one is ahead. There
are no more of them than `most`. -/
def itemsFrom {α : Type} (item : Reader α) : Nat → Reader (List α)
  | 0, s => reached .endInList s
  | most + 1, s => do
    let (v, r) ← item s
    match skipSpace r with
    | ']' :: t => .ok ([v], t)
    | ',' :: t =>
      match skipSpace t with
      | ']' :: u => offending .trailingComma (']' :: u)
      | u => do
        let (vs, w) ← itemsFrom item most u
        .ok (v :: vs, w)
    | [] => reached .endInList []
    | t => offending .expectedListComma t

/-- **Reads the items of an array** after its opening bracket. -/
def items {α : Type} (item : Reader α) (s : List Char) :
    Except Fault (List α × List Char) :=
  match skipSpace s with
  | ']' :: t => .ok ([], t)
  | [] => reached .endInList []
  | t => itemsFrom item t.length t

/-- Reads the members of an object up to its closing bracket, the first key being ahead. There are
no more of them than `most`. -/
def membersFrom {α : Type} (item : Reader α) : Nat → Reader (List (String × α))
  | most + 1, '"' :: s => do
    let (k, r) ← stringBody [] s
    let r ← colon r
    let (v, r) ← item r
    match skipSpace r with
    | '\x7d' :: t => .ok ([(k, v)], t)
    | ',' :: t =>
      match skipSpace t with
      | '\x7d' :: u => offending .trailingComma ('\x7d' :: u)
      | [] => reached .endInValue []
      | u => do
        let (ms, w) ← membersFrom item most u
        .ok ((k, v) :: ms, w)
    | [] => reached .endInObject []
    | t => offending .expectedObjectComma t
  | _, s => offending .keyNotString s

/-- **Reads the members of an object** after its opening bracket. -/
def members {α : Type} (item : Reader α) (s : List Char) :
    Except Fault (List (String × α) × List Char) :=
  match skipSpace s with
  | '\x7d' :: t => .ok ([], t)
  | [] => reached .endInObject []
  | t => membersFrom item t.length t

/-- **Reads a value** inside which up to `levels` brackets may be open at a time. -/
def value : Nat → Reader Value
  | levels, s =>
    match skipSpace s, levels with
    | [], _ => reached .endInValue []
    | 'n' :: t, _ => (word "ull".toList t).map fun r => (.null, r)
    | 't' :: t, _ => (word "rue".toList t).map fun r => (.bool true, r)
    | 'f' :: t, _ => (word "alse".toList t).map fun r => (.bool false, r)
    | '-' :: t, _ => (number true t).map fun (n, r) => (.number n, r)
    | '"' :: t, _ => (stringBody [] t).map fun (x, r) => (.string x, r)
    | '[' :: t, 0 => offending .tooDeep ('[' :: t)
    | '[' :: t, l + 1 => (items (value l) t).map fun (vs, r) => (.array vs, r)
    | '\x7b' :: t, 0 => offending .tooDeep ('\x7b' :: t)
    | '\x7b' :: t, l + 1 =>
      (members (value l) t).map fun (ms, r) => (.object (Keyed.ofList ms), r)
    | c :: t, _ =>
      if c.isDigit then (number false (c :: t)).map fun (n, r) => (.number n, r)
      else offending .expectedValue (c :: t)

end MailBlocks.Json
