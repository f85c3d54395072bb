import MailBlocks.Number.Binary64
import MailBlocks.Text.Search

/-!
# Decimal numerals

Writing whole numbers in decimal, and reading numerals: an optional sign, digits with at most one
point among or beside them, an optional exponent, or one of the words `inf`, `infinity` and `nan`
in any case.

* `ofDigits_decimalChars`, `ofIntDigits_decimalIntChars`: a written number reads back.
-/

namespace MailBlocks.Number

/-- The decimal digits of a number, without leading zeros. -/
def decimalChars (n : Nat) : List Char :=
  Nat.toDigits 10 n

/-- A number in decimal, without leading zeros. -/
def decimal (n : Nat) : String :=
  String.ofList (decimalChars n)

/-- The decimal digits of an integer, a negative one behind a minus sign. -/
def decimalIntChars (n : Int) : List Char :=
  if n < 0 then '-' :: decimalChars n.natAbs else decimalChars n.natAbs

/-- An integer in decimal. -/
def decimalInt (n : Int) : String :=
  String.ofList (decimalIntChars n)

/-- The number that decimal digits spell. -/
def ofDigits (cs : List Char) : Nat :=
  Nat.ofDigitChars 10 cs 0

theorem ofDigits_decimalChars (n : Nat) : ofDigits (decimalChars n) = n :=
  Nat.ofDigitChars_ten_toDigits

/-- The integer that decimal digits spell, behind a minus sign if it is negative. -/
def ofIntDigits : List Char → Int
  | '-' :: cs => -(ofDigits cs : Int)
  | cs => ofDigits cs

theorem isDigit_of_mem_decimalChars {n : Nat} {c : Char} (h : c ∈ decimalChars n) : c.isDigit :=
  Nat.isDigit_of_mem_toDigits (by decide) (by decide) h

/-- A written integer reads back. -/
theorem ofIntDigits_decimalIntChars (n : Int) : ofIntDigits (decimalIntChars n) = n := by
  unfold decimalIntChars
  split
  · rw [ofIntDigits, ofDigits_decimalChars]
    omega
  · rw [ofIntDigits, ofDigits_decimalChars]
    · omega
    · intro cs hminus
      have hdigit := isDigit_of_mem_decimalChars (hminus ▸ List.mem_cons_self)
      exact absurd hdigit (by decide)

/-- **What a numeral stands for**: `digits * 10 ^ exponent` with a sign, infinity, or no number. -/
inductive Numeral where
  | finite (negative : Bool) (digits : Nat) (exponent : Int)
  | infinite (negative : Bool)
  | nan
  deriving DecidableEq, Repr

namespace Numeral

/-- The sign in front, and what follows it. -/
def sign : List Char → Bool × List Char
  | '-' :: cs => (true, cs)
  | '+' :: cs => (false, cs)
  | cs => (false, cs)

/-- An exponent: a sign and at least one digit, up to the end. -/
def exponent? (cs : List Char) : Option Int :=
  let (negative, digits) := sign cs
  if digits.isEmpty || !digits.all Char.isDigit then none
  else some (if negative then -(ofDigits digits : Int) else ofDigits digits)

/-- The digits before and after the point, of which there is at least one, and the exponent. -/
def unsigned? (negative : Bool) (cs : List Char) : Option Numeral :=
  let whole := cs.takeWhile Char.isDigit
  let afterWhole := cs.dropWhile Char.isDigit
  let (part, rest) :=
    match afterWhole with
    | '.' :: r => (r.takeWhile Char.isDigit, r.dropWhile Char.isDigit)
    | r => ([], r)
  if whole.isEmpty && part.isEmpty then none
  else
    let digits := ofDigits (whole ++ part)
    match rest with
    | [] => some (.finite negative digits (-part.length))
    | c :: r =>
      if c = 'e' || c = 'E' then
        (exponent? r).map fun e => .finite negative digits (e - part.length)
      else none

/-- **Reads a numeral**, all of the text being part of it. -/
def ofChars? (cs : List Char) : Option Numeral :=
  let (negative, body) := sign cs
  match String.ofList (Text.lowerChars body) with
  | "inf" | "infinity" => some (.infinite negative)
  | "nan" => some .nan
  | _ => unsigned? negative body

/-- The sign and the nearest magnitude, for a numeral that is a number. -/
def signedMagnitude? : Numeral → Option (Bool × Binary64)
  | .finite negative digits exponent => some (negative, Binary64.ofDecimal digits exponent)
  | .infinite negative => some (negative, Binary64.infinity)
  | .nan => none

end Numeral

example : Numeral.ofChars? "+1.50e-2".toList = some (.finite false 150 (-4)) := by decide
example : Numeral.ofChars? ".".toList = none := by decide
example : Numeral.ofChars? "-INF".toList = some (.infinite true) := by decide

end MailBlocks.Number
