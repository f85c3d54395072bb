import MailBlocks.Json.Skip

/-!
# Reading shapes

A decoder knows a shape and reads it in two ways: from a text, where faults have places, and from a
value that has been read already, where they have none. A shape is a string, a number, a choice of
names, a sequence, a map, or a record of named fields, which may also be written as an array of its
fields in order.

* `Decoder.parse`: reads a whole text as a shape.
* `Record.decoder`: the shape of a record.
-/

namespace MailBlocks.Json

/-- **A shape that can be read.** Reading a text may also end in a value that the shape refuses
once the text of it has been read; what surrounds it decides the place of that refusal. -/
structure Decoder (α : Type) where
  ofText : Nat → Reader (Except Cause α)
  ofValue : Value → Except Cause α

/-- Something else than the expected shape is ahead: reads it, if it is no bracket, and refuses. -/
def mismatch {α : Type} (expected : String) (s : List Char) : Except Fault α :=
  match s with
  | 'n' :: t => do reached (.wrongType .null expected) (← word "ull".toList t)
  | 't' :: t => do reached (.wrongType (.bool true) expected) (← word "rue".toList t)
  | 'f' :: t => do reached (.wrongType (.bool false) expected) (← word "alse".toList t)
  | '-' :: t => do
    let (n, r) ← number true t
    reached (.wrongType (.number n) expected) r
  | '"' :: t => do
    let (x, r) ← stringBody [] t
    reached (.wrongType (.string x) expected) r
  | '[' :: t => reached (.wrongType .sequence expected) ('[' :: t)
  | '\x7b' :: t => reached (.wrongType .map expected) ('\x7b' :: t)
  | [] => reached .endInValue []
  | c :: t => do
    if c.isDigit then
      let (n, r) ← number false (c :: t)
      reached (.wrongType (.number n) expected) r
    else offending .expectedValue (c :: t)

namespace Decoder

variable {α β : Type}

/-- Any value. -/
def value : Decoder Value where
  ofText levels s := (Json.value levels s).map fun (v, r) => (.ok v, r)
  ofValue v := .ok v

/-- A string, which the message calls `expected`. -/
def stringAs (expected : String) : Decoder String where
  ofText _ s :=
    match skipSpace s with
    | '"' :: t => (stringBody [] t).map fun (x, r) => (.ok x, r)
    | t => mismatch expected t
  ofValue
    | .string x => .ok x
    | v => .error (.wrongType (.ofValue v) expected)

/-- A string. -/
def string : Decoder String := stringAs "a string"

/-- The natural number of 64 bits that a number is, or why it is none. -/
def naturalOf : Number → Except Cause Nat
  | .int n =>
    if 0 ≤ n then .ok n.toNat else .error (.wrongValue (.number (.int n)) "u64")
  | n => .error (.wrongType (.number n) "u64")

/-- A natural number of 64 bits. -/
def natural : Decoder Nat where
  ofText _ s :=
    let judged : Number × List Char → Except Fault (Except Cause Nat × List Char)
      | (n, r) =>
        match naturalOf n with
        | .ok k => .ok (.ok k, r)
        | .error c => reached c r
    match skipSpace s with
    | '-' :: t => do judged (← number true t)
    | c :: t => if c.isDigit then do judged (← number false (c :: t)) else mismatch "u64" (c :: t)
    | [] => mismatch "u64" []
  ofValue
    | .number n => naturalOf n
    | v => .error (.wrongType (.ofValue v) "u64")

/-- Whether the value `null` is ahead, for the member of a name that carries nothing. -/
def nothing (s : List Char) : Except Fault (List Char) :=
  match skipSpace s with
  | 'n' :: t => word "ull".toList t
  | t => mismatch "unit" t

/-- The choice that a name makes. -/
def chosen (choices : List (String × α)) (name : String) : Except Cause α :=
  match choices.find? (·.1 == name) with
  | some (_, a) => .ok a
  | none => .error (.unknownVariant name (choices.map (·.1)))

/-- One of some names, given as a string or as an object with that one key and the value `null`. -/
def oneOf (choices : List (String × α)) : Decoder α where
  ofText levels s :=
    let named (t : List Char) : Except Fault (α × List Char) := do
      let (name, r) ← stringBody [] t
      match chosen choices name with
      | .ok a => .ok (a, r)
      | .error c => reached c r
    match skipSpace s with
    | '"' :: t => (named t).map fun (a, r) => (.ok a, r)
    | '\x7b' :: t =>
      if levels = 0 then offending .tooDeep ('\x7b' :: t)
      else do
        let (a, r) ←
          match skipSpace t with
          | '"' :: u => named u
          | '\x7d' :: u => offending .expectedValue ('\x7d' :: u)
          | [] => reached .endInObject []
          | u => offending .keyNotString u
        let r ← nothing (← colon r)
        match skipSpace r with
        | '\x7d' :: u => .ok (.ok a, u)
        | u => reached (if u.isEmpty then .endInObject else .expectedValue) u
    | [] => reached .endInValue []
    | t => offending .expectedValue t
  ofValue
    | .string name => chosen choices name
    | .object [(name, v)] => do
      let a ← chosen choices name
      match v with
      | .null => .ok a
      | v => .error (.wrongType (.ofValue v) "unit")
    | .object _ => .error (.wrongValue .map "map with a single key")
    | v => .error (.wrongType (.ofValue v) "string or map")

/-- Where reading stands after a refusal among the items of an array: the closing bracket and a
comma are still taken. -/
def closeList (s : List Char) : List Char :=
  match skipSpace s with
  | ']' :: t => t
  | ',' :: t => skipSpace t
  | t => t

/-- Where reading stands after a refusal among the members of an object: the closing bracket is
still taken. -/
def closeMap (s : List Char) : List Char :=
  match skipSpace s with
  | '\x7d' :: t => t
  | t => t

/-- Items of one shape. -/
def sequence (item : Decoder α) : Decoder (List α) where
  ofText levels s :=
    match skipSpace s with
    | '[' :: t =>
      match levels with
      | 0 => offending .tooDeep ('[' :: t)
      | l + 1 =>
        let placed (u : List Char) : Except Fault (α × List Char) := do
          match ← item.ofText l u with
          | (.ok a, r) => .ok (a, r)
          | (.error c, r) => reached c (closeList r)
        (items placed t).map fun (as, r) => (.ok as, r)
    | t => mismatch "a sequence" t
  ofValue
    | .array vs => vs.mapM item.ofValue
    | v => .error (.wrongType (.ofValue v) "a sequence")

/-- Members with any keys and any values, in ascending key order. -/
def map : Decoder (List (String × Value)) where
  ofText levels s :=
    match skipSpace s with
    | '\x7b' :: t =>
      match levels with
      | 0 => offending .tooDeep ('\x7b' :: t)
      | l + 1 => (members (Json.value l) t).map fun (ms, r) => (.ok (Keyed.ofList ms), r)
    | t => mismatch "a map" t
  ofValue
    | .object ms => .ok ms
    | v => .error (.wrongType (.ofValue v) "a map")

/-- A shape whose values are judged and turned into others. -/
def refine (d : Decoder α) (judge : α → Except Cause β) : Decoder β where
  ofText levels s := (d.ofText levels s).map fun (a, r) => (a.bind judge, r)
  ofValue v := (d.ofValue v).bind judge

/-- A shape whose values are turned into others. -/
def as (d : Decoder α) (f : α → β) : Decoder β :=
  d.refine fun a => .ok (f a)

/-- **Reads a whole text as a shape.** -/
def parse (d : Decoder α) (text : String) : Except Error α :=
  let cs := text.toList
  let outcome : Except Fault α := do
    match ← d.ofText maxLevels cs with
    | (.error c, r) => reached c r
    | (.ok a, r) =>
      match skipSpace r with
      | [] => .ok a
      | t => offending .trailingCharacters t
  match outcome with
  | .ok a => .ok a
  | .error fault => .error (.ofFault cs fault)

/-- **Reads a value as a shape.** -/
def decode (d : Decoder α) (v : Value) : Except Error α :=
  match d.ofValue v with
  | .ok a => .ok a
  | .error c => .error ⟨c, none⟩

end Decoder

/-- **Reads a whole text as a value.** -/
def parse (text : String) : Except Error Value :=
  Decoder.value.parse text

/-- A field of a record: its key, whether it has to be there, and how reading it changes a record
in which it has its default. -/
structure Field (α : Type) where
  key : String
  required : Bool
  change : Decoder (α → α)

/-- A field that is read by a decoder and stored by `set`. -/
def Field.of {α β : Type} (key : String) (required : Bool) (d : Decoder β)
    (set : β → α → α) : Field α :=
  ⟨key, required, d.as set⟩

/-- **The shape of a record**: the name that messages give it, the record of all defaults, and its
fields in order. -/
structure Record (α : Type) where
  name : String
  start : α
  fields : List (Field α)

namespace Record

variable {α : Type}

/-- How messages name the record. -/
def expected (r : Record α) : String :=
  "struct " ++ r.name

/-- How messages name the record where it is an array of its fields. -/
def expectedLength (r : Record α) : String :=
  r.expected ++ " with " ++ Number.decimal r.fields.length ++
    (if r.fields.length = 1 then " element" else " elements")

/-- The field with a key. -/
def field? (r : Record α) (key : String) : Option (Field α) :=
  r.fields.find? (·.key == key)

/-- The record, unless a field that has to be there is not among the keys seen. -/
def complete (r : Record α) (seen : List String) (a : α) : Except Cause α :=
  match r.fields.find? fun f => f.required && !seen.contains f.key with
  | some f => .error (.missingField f.key)
  | none => .ok a

/-- Reads the members of a record up to its closing bracket, which is left, the first key being
ahead. Members without a field are passed over; a key that comes twice is refused. -/
def membersOfText (r : Record α) (levels : Nat) :
    Nat → List String → α → Reader (Except Cause α)
  | most + 1, seen, a, '"' :: s => do
    let (key, t) ← stringBody [] s
    let next (seen : List String) (a : α) (t : List Char) :
        Except Fault (Except Cause α × List Char) :=
      match skipSpace t with
      | '\x7d' :: _ => .ok (r.complete seen a, t)
      | ',' :: u =>
        match skipSpace u with
        | '\x7d' :: w => offending .trailingComma ('\x7d' :: w)
        | [] => reached .endInValue []
        | w => membersOfText r levels most seen a w
      | [] => reached .endInObject []
      | u => offending .expectedObjectComma u
    match r.field? key with
    | none => do next seen a (← skipValue (← colon t))
    | some f =>
      if seen.contains key then .ok (.error (.duplicateField key), t)
      else do
        match ← f.change.ofText levels (← colon t) with
        | (.error c, t) => .ok (.error c, t)
        | (.ok g, t) => next (key :: seen) (g a) t
  | _, _, _, s => offending .keyNotString s

/-- Reads a record written as an array of its fields, up to its closing bracket, which is left.
`count` fields have been read. Fields at the end may be left out if they do not have to be there. -/
def elementsOfText (r : Record α) (levels : Nat) :
    List (Field α) → Nat → α → Reader (Except Cause α)
  | [], _, a, s => .ok (.ok a, s)
  | f :: fields, count, a, s => do
    let absent : Except Fault (Except Cause α × List Char) :=
      if f.required then .ok (.error (.wrongLength count r.expectedLength), s)
      else elementsOfText r levels fields (count + 1) a s
    let present (t : List Char) : Except Fault (Except Cause α × List Char) := do
      match ← f.change.ofText levels t with
      | (.error c, u) => .ok (.error c, u)
      | (.ok g, u) => elementsOfText r levels fields (count + 1) (g a) u
    match skipSpace s with
    | ']' :: _ => absent
    | [] => reached .endInList []
    | ',' :: t =>
      if count = 0 then present (',' :: t)
      else
        match skipSpace t with
        | ']' :: u => offending .trailingComma (']' :: u)
        | u => present u
    | t => if count = 0 then present t else offending .expectedListComma t

/-- Ends a record written as an array: the closing bracket has to be ahead. -/
def endList (a : α) (s : List Char) : Except Fault (Except Cause α × List Char) :=
  match skipSpace s with
  | ']' :: t => .ok (.ok a, t)
  | [] => reached .endInList []
  | ',' :: t =>
    match skipSpace t with
    | ']' :: u => offending .trailingComma (']' :: u)
    | u => offending .trailingCharacters u
  | t => offending .trailingCharacters t

/-- Reads a record written as an array from a list of values. -/
def elementsOfValues (r : Record α) :
    List (Field α) → Nat → α → List Value → Except Cause α
  | [], _, a, [] => .ok a
  | [], count, _, rest => .error (.wrongLength (count + rest.length) "fewer elements in array")
  | f :: fields, count, a, v :: vs => do
    let g ← f.change.ofValue v
    elementsOfValues r fields (count + 1) (g a) vs
  | f :: fields, count, a, [] =>
    if f.required then .error (.wrongLength count r.expectedLength)
    else elementsOfValues r fields (count + 1) a []

/-- Reads a record from the members of an object, in their order. -/
def membersOfValues (r : Record α) :
    List String → α → List (String × Value) → Except Cause α
  | seen, a, [] => r.complete seen a
  | seen, a, (key, v) :: rest =>
    match r.field? key with
    | none => membersOfValues r seen a rest
    | some f => do
      let g ← f.change.ofValue v
      membersOfValues r (key :: seen) (g a) rest

/-- **The decoder of a record.** -/
def decoder (r : Record α) : Decoder α where
  ofText levels s :=
    match skipSpace s, levels with
    | '[' :: t, 0 => offending .tooDeep ('[' :: t)
    | '[' :: t, l + 1 => do
      match ← r.elementsOfText l r.fields 0 r.start t with
      | (.error c, u) => reached c (Decoder.closeList u)
      | (.ok a, u) => endList a u
    | '\x7b' :: t, 0 => offending .tooDeep ('\x7b' :: t)
    | '\x7b' :: t, l + 1 => do
      let outcome ←
        match skipSpace t with
        | '\x7d' :: _ => .ok (r.complete [] r.start, t)
        | [] => reached .endInObject []
        | u => r.membersOfText l u.length [] r.start u
      match outcome with
      | (.error c, u) => reached c (Decoder.closeMap u)
      | (.ok a, u) => .ok (.ok a, Decoder.closeMap u)
    | t, _ => mismatch r.expected t
  ofValue
    | .array vs => r.elementsOfValues r.fields 0 r.start vs
    | .object ms => r.membersOfValues [] r.start ms
    | v => .error (.wrongType (.ofValue v) r.expected)

end Record

end MailBlocks.Json
