import MailBlocks.Json.Printer
import MailBlocks.Text.Quoted

/-!
# What can be wrong with a JSON text

Faults of syntax and of shape, as causes with their wording, and the places at which they are
reported. A reader notices a fault with some bytes of the text still ahead; the number of those
bytes is turned into a line and a column of bytes once the whole text is at hand.

* `Place.ofOffset`: the place that a number of bytes into a text has.
* `Error.message`: the wording of a cause and its place.
-/

namespace MailBlocks.Json

/-- What was found where something else was expected. -/
inductive Found where
  | null
  | bool (value : Bool)
  | number (value : Number)
  | string (value : String)
  | sequence
  | map
  deriving Repr

namespace Found

/-- What a value counts as in a message. -/
def ofValue : Value → Found
  | .null => .null
  | .bool b => .bool b
  | .number n => .number n
  | .string s => .string s
  | .array _ => .sequence
  | .object _ => .map

/-- The wording. -/
def message : Found → String
  | .null => "null"
  | .bool b => "boolean \x60" ++ (if b then "true" else "false") ++ "\x60"
  | .number (.int n) => "integer \x60" ++ Number.decimalInt n ++ "\x60"
  | .number n => "floating point \x60" ++ n.text ++ "\x60"
  | .string s => "string " ++ Text.quoted s
  | .sequence => "sequence"
  | .map => "map"

end Found

/-- **Why a text or a value is refused.** -/
inductive Cause where
  -- the text ends too early
  | endInValue
  | endInList
  | endInObject
  | endInString
  -- the text is not JSON
  | expectedValue
  | expectedIdent
  | expectedColon
  | expectedListComma
  | expectedObjectComma
  | keyNotString
  | trailingComma
  | trailingCharacters
  | invalidEscape
  | invalidNumber
  | numberOutOfRange
  | loneSurrogate
  | unpairedSurrogate
  | controlCharacter
  | tooDeep
  -- the text is JSON of another shape
  | wrongType (found : Found) (expected : String)
  | wrongValue (found : Found) (expected : String)
  | wrongLength (length : Nat) (expected : String)
  | missingField (key : String)
  | duplicateField (key : String)
  | unknownVariant (name : String) (known : List String)
  | refused (reason : String)
  deriving Repr

namespace Cause

/-- A name between the quotes that messages put around names. -/
def named (name : String) : String :=
  "\x60" ++ name ++ "\x60"

/-- A choice of names. -/
def choice : List String → String
  | [a] => named a
  | [a, b] => named a ++ " or " ++ named b
  | names => "one of " ++ String.intercalate ", " (names.map named)

/-- The wording. -/
def message : Cause → String
  | endInValue => "EOF while parsing a value"
  | endInList => "EOF while parsing a list"
  | endInObject => "EOF while parsing an object"
  | endInString => "EOF while parsing a string"
  | expectedValue => "expected value"
  | expectedIdent => "expected ident"
  | expectedColon => "expected " ++ named ":"
  | expectedListComma => "expected " ++ named "," ++ " or " ++ named "]"
  | expectedObjectComma => "expected " ++ named "," ++ " or " ++ named "\x7d"
  | keyNotString => "key must be a string"
  | trailingComma => "trailing comma"
  | trailingCharacters => "trailing characters"
  | invalidEscape => "invalid escape"
  | invalidNumber => "invalid number"
  | numberOutOfRange => "number out of range"
  | loneSurrogate => "lone leading surrogate in hex escape"
  | unpairedSurrogate => "unexpected end of hex escape"
  | controlCharacter => "control character (\\u0000-\\u001F) found while parsing a string"
  | tooDeep => "recursion limit exceeded"
  | wrongType found expected => "invalid type: " ++ found.message ++ ", expected " ++ expected
  | wrongValue found expected => "invalid value: " ++ found.message ++ ", expected " ++ expected
  | wrongLength length expected =>
    "invalid length " ++ Number.decimal length ++ ", expected " ++ expected
  | missingField key => "missing field " ++ named key
  | duplicateField key => "duplicate field " ++ named key
  | unknownVariant name known => "unknown variant " ++ named name ++ ", expected " ++ choice known
  | refused reason => reason

end Cause

/-- A fault noticed in a text, with the number of bytes that lie ahead of its place. -/
structure Fault where
  cause : Cause
  ahead : Nat
  deriving Repr

/-- A place in a text: the line, from one, and the bytes of that line before the place. -/
structure Place where
  line : Nat
  column : Nat
  deriving DecidableEq, Repr

/-- The place that lies some bytes into a text, after the place `at`. -/
def Place.advance (here : Place) : Nat → List Char → Place
  | _, [] => here
  | offset, c :: cs =>
    if offset = 0 then here
    else if c = '\n' then Place.advance ⟨here.line + 1, 0⟩ (offset - 1) cs
    else if offset < c.utf8Size then ⟨here.line, here.column + offset⟩
    else Place.advance ⟨here.line, here.column + c.utf8Size⟩ (offset - c.utf8Size) cs

/-- The place that lies some bytes into a text. -/
def Place.ofOffset (offset : Nat) (text : List Char) : Place :=
  Place.advance ⟨1, 0⟩ offset text

/-- **A refusal**: its cause, and its place where it was noticed while reading the text. -/
structure Error where
  cause : Cause
  place : Option Place
  deriving Repr

namespace Error

/-- A fault of a text, with its place in that text. -/
def ofFault (text : List Char) (fault : Fault) : Error :=
  ⟨fault.cause, some (Place.ofOffset (Text.bytes text - fault.ahead) text)⟩

/-- The wording: the cause, and the place if there is one. -/
def message (e : Error) : String :=
  match e.place with
  | none => e.cause.message
  | some p =>
    e.cause.message ++ " at line " ++ Number.decimal p.line ++ " column " ++ Number.decimal p.column

end Error

end MailBlocks.Json
