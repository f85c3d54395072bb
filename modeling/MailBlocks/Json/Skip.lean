import MailBlocks.Json.Reader

/-!
# Passing over JSON values

A member that a shape has no use for is passed over. Passing over is more lenient than reading: it
has no bound on the brackets, does not pair surrogates and does not mind the size of a number.
-/

namespace MailBlocks.Json

/-- Passes over the rest of a string after its opening quote. -/
def skipString : List Char → Except Fault (List Char)
  | [] => reached .endInString []
  | '"' :: s => .ok s
  | '\\' :: 'u' :: a :: b :: c :: d :: s =>
    match hexQuad? a b c d with
    | none => badHex (a :: b :: c :: d :: s)
    | some _ => skipString s
  | '\\' :: 'u' :: s => badHex s
  | '\\' :: [] => reached .endInString []
  | '\\' :: c :: s =>
    match shortEscape? c with
    | some _ => skipString s
    | none => offending .invalidEscape (c :: s)
  | c :: s => if c.toNat < 0x20 then reached .controlCharacter (c :: s) else skipString s

/-- Passes over at least one digit. -/
def skipDigits (s : List Char) : Except Fault (List Char) :=
  match s.takeWhile Char.isDigit with
  | [] => offending .invalidNumber s
  | _ => .ok (s.dropWhile Char.isDigit)

/-- Passes over an exponent, if there is one. -/
def skipExponent (s : List Char) : Except Fault (List Char) :=
  match s with
  | 'e' :: '+' :: t | 'e' :: '-' :: t | 'E' :: '+' :: t | 'E' :: '-' :: t => skipDigits t
  | 'e' :: t | 'E' :: t => skipDigits t
  | _ => .ok s

/-- Passes over a number after its sign. -/
def skipNumber (s : List Char) : Except Fault (List Char) := do
  let r ←
    match s with
    | '0' :: t => if t.head?.any Char.isDigit then offending .invalidNumber t else .ok t
    | t => skipDigits t
  match r with
  | '.' :: t => skipExponent (← skipDigits t)
  | t => skipExponent t

mutual

/-- Passes over a value, in no more steps than `most`. -/
def skipValueFrom : Nat → List Char → Except Fault (List Char)
  | 0, s => reached .endInValue s
  | most + 1, s =>
    match skipSpace s with
    | [] => reached .endInValue []
    | 'n' :: t => word "ull".toList t
    | 't' :: t => word "rue".toList t
    | 'f' :: t => word "alse".toList t
    | '-' :: t => skipNumber t
    | '"' :: t => skipString t
    | '[' :: t =>
      match skipSpace t with
      | ']' :: u => .ok u
      | [] => reached .endInList []
      | u => skipItems most u
    | '\x7b' :: t =>
      match skipSpace t with
      | '\x7d' :: u => .ok u
      | [] => reached .endInObject []
      | u => skipMembers most u
    | c :: t => if c.isDigit then skipNumber (c :: t) else offending .expectedValue (c :: t)

/-- Passes over the items of an array, of which at least one is ahead. -/
def skipItems : Nat → List Char → Except Fault (List Char)
  | 0, s => reached .endInList s
  | most + 1, s => do
    let r ← skipValueFrom most s
    match skipSpace r with
    | ']' :: t => .ok t
    | ',' :: t => skipItems most t
    | [] => reached .endInList []
    | t => offending .expectedListComma t

/-- Passes over the members of an object, of which at least one is ahead. -/
def skipMembers : Nat → List Char → Except Fault (List Char)
  | 0, s => reached .endInObject s
  | most + 1, s =>
    match skipSpace s with
    | '"' :: t => do
      let r ← skipString t
      let r ← colon r
      let r ← skipValueFrom most r
      match skipSpace r with
      | '\x7d' :: u => .ok u
      | ',' :: u => skipMembers most u
      | [] => reached .endInObject []
      | u => offending .expectedObjectComma u
    | [] => reached .endInObject []
    | t => offending .keyNotString t

end

/-- **Passes over a value.** Each step takes a character or goes one bracket deeper. -/
def skipValue (s : List Char) : Except Fault (List Char) :=
  skipValueFrom (2 * s.length + 2) s

end MailBlocks.Json
