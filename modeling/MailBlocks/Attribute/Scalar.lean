import MailBlocks.Attribute.Bag
import MailBlocks.Json.Decoder
import MailBlocks.Number.Decimal
import MailBlocks.Text.Blank

/-!
# What attributes say

Every attribute is a text. A scalar says how such a text is read, given the value to fall back on
where it says nothing usable, and how a value is written.

* `number?`, `flag?`, `Align.ofText?`: the readings that can fail.
* `Scalar.text`, `Scalar.token`, `Scalar.number`, `Scalar.flag`, `Scalar.align`: the scalars.
-/

namespace MailBlocks

open Text

/-- The number that an attribute gives: a numeral, perhaps with `px` or `%` behind it, that is
neither negative nor above 32 bits. Its fraction is dropped. -/
def number? (s : String) : Option UInt32 :=
  let cs := trimBlank s.toList
  let body := ((dropTail "px".toList cs).or (dropTail "%".toList cs)).getD cs
  match (Number.Numeral.ofChars? (trimBlank body)).bind Number.Numeral.signedMagnitude? with
  | some (negative, x) =>
    if (negative && x.units != 0) || 0xFFFFFFFF * Number.Binary64.oneUnits < x.units then none
    else some (UInt32.ofNat x.floor)
  | none => none

/-- A text as keywords are compared: without the blanks around it, in small letters. -/
def keyword (s : String) : String :=
  lower (trim s)

/-- The flag that an attribute gives. A blank one is off. -/
def flag? (s : String) : Option Bool :=
  match keyword s with
  | "true" | "1" | "yes" | "on" => some true
  | "false" | "0" | "no" | "off" | "" => some false
  | _ => none

/-- Horizontal alignment. -/
inductive Align where
  | left
  | center
  | right
  deriving DecidableEq, Repr

namespace Align

/-- All alignments. -/
def all : List Align := [left, center, right]

/-- The name of an alignment. -/
def name : Align → String
  | left => "left"
  | center => "center"
  | right => "right"

/-- The stored form, which has no second spelling. -/
def decoder : Json.Decoder Align :=
  .oneOf (all.map fun a => (a.name, a))

/-- The alignment that an attribute gives. -/
def ofText? (s : String) : Option Align :=
  match keyword s with
  | "left" => some left
  | "center" | "centre" => some center
  | "right" => some right
  | _ => none

end Align

/-- **How the values of one kind are read and written**: a text is read over the value to fall back
on. -/
structure Scalar (α : Type) where
  read : α → String → α
  write : α → String

namespace Scalar

variable {α : Type}

/-- A scalar that falls back where its reading fails. -/
def ofPartial (read? : String → Option α) (write : α → String) : Scalar α :=
  ⟨fun fallback s => (read? s).getD fallback, write⟩

/-- Free text, taken as it is. -/
def text : Scalar String := ⟨fun _ s => s, id⟩

/-- A word or value of style: trimmed, and nothing if blank. -/
def token : Scalar String := ⟨fun fallback s => if blank s then fallback else trim s, id⟩

/-- The decimal form of a 32-bit number. -/
def decimal (n : UInt32) : String := Number.decimal n.toNat

/-- A number. -/
def number : Scalar UInt32 := ofPartial number? decimal

/-- A number written as a percentage. -/
def percent : Scalar UInt32 := ofPartial number? fun n => decimal n ++ "%"

/-- A flag. -/
def flag : Scalar Bool := ofPartial flag? fun b => if b then "true" else "false"

/-- An alignment. -/
def align : Scalar Align := ofPartial Align.ofText? Align.name

end Scalar

/-- The value of an attribute, or the fallback if the bag lacks it. -/
def Bag.read {α : Type} (b : Bag) (kind : Scalar α) (key : String) (fallback : α) : α :=
  match b.get? key with
  | some s => kind.read fallback s
  | none => fallback

example : number? " 80% " = some 80 := by decide +kernel
example : number? "12.9px" = some 12 := by decide +kernel
example : number? "-4" = none := by decide +kernel

end MailBlocks
