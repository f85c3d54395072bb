import MailBlocks.Json.Fault

/-!
# Words, strings and numbers of a JSON text

The readers of what a JSON text is made of below its brackets. Each takes the characters ahead and
gives back what it read with the characters it left.

* `stringBody_escapedChar`: a written character reads back as itself.
* `accumulate_of_le`: digits are collected to the end as long as their number fits.
-/

namespace MailBlocks.Json

/-- A reader takes the characters ahead and gives what it read and the characters it left. -/
abbrev Reader (α : Type) := List Char → Except Fault (α × List Char)

/-- A fault noticed with `rest` ahead. -/
def reached {α : Type} (cause : Cause) (rest : List Char) : Except Fault α :=
  .error ⟨cause, Text.bytes rest⟩

/-- A fault of the first byte of `rest`, which is counted in; at the end there is none to count. -/
def offending {α : Type} (cause : Cause) (rest : List Char) : Except Fault α :=
  .error ⟨cause, Text.bytes rest - 1⟩

/-- The blanks that JSON allows between its parts. -/
def isSpace (c : Char) : Bool :=
  c = ' ' || c = '\n' || c = '\t' || c = '\r'

/-- The characters from the first one on that is not a blank. -/
def skipSpace (s : List Char) : List Char :=
  s.dropWhile isSpace

/-- Reads the given characters, the rest of a word such as `null`. -/
def word : List Char → List Char → Except Fault (List Char)
  | [], s => .ok s
  | _ :: _, [] => reached .endInValue []
  | w :: ws, c :: s => if w = c then word ws s else offending .expectedIdent (c :: s)

/-! ## Strings -/

/-- The value of a hexadecimal digit in either case. -/
def hexValue? (c : Char) : Option Nat :=
  if '0' ≤ c ∧ c ≤ '9' then some (c.toNat - '0'.toNat)
  else if 'a' ≤ c ∧ c ≤ 'f' then some (c.toNat - 'a'.toNat + 10)
  else if 'A' ≤ c ∧ c ≤ 'F' then some (c.toNat - 'A'.toNat + 10)
  else none

/-- The number that four hexadecimal digits spell. -/
def hexQuad? (a b c d : Char) : Option Nat := do
  let a ← hexValue? a
  let b ← hexValue? b
  let c ← hexValue? c
  let d ← hexValue? d
  pure (a * 4096 + b * 256 + c * 16 + d)

/-- What is wrong where four hexadecimal digits should be: fewer than four bytes, or others. -/
def badHex {α : Type} (rest : List Char) : Except Fault α :=
  if Text.bytes rest < 4 then reached .endInString []
  else .error ⟨.invalidEscape, Text.bytes rest - 4⟩

/-- First halves of a surrogate pair. -/
def isHighSurrogate (n : Nat) : Bool := 0xD800 ≤ n && n ≤ 0xDBFF

/-- Second halves of a surrogate pair. -/
def isLowSurrogate (n : Nat) : Bool := 0xDC00 ≤ n && n ≤ 0xDFFF

/-- The character that a surrogate pair stands for. -/
def pairedChar (high low : Nat) : Char :=
  Char.ofNat ((high - 0xD800) * 0x400 + (low - 0xDC00) + 0x10000)

/-- The character that a short escape stands for. -/
def shortEscape? : Char → Option Char
  | '"' => some '"'
  | '\\' => some '\\'
  | '/' => some '/'
  | 'b' => some '\x08'
  | 'f' => some '\x0c'
  | 'n' => some '\n'
  | 'r' => some '\r'
  | 't' => some '\t'
  | _ => none

/-- **Reads a string** after its opening quote. The characters read so far come last first. -/
def stringBody (done : List Char) : List Char → Except Fault (String × List Char)
  | [] => reached .endInString []
  | '"' :: s => .ok (String.ofList done.reverse, s)
  | '\\' :: 'u' :: a :: b :: c :: d :: s =>
    match hexQuad? a b c d with
    | none => badHex (a :: b :: c :: d :: s)
    | some n =>
      if isLowSurrogate n then reached .loneSurrogate s
      else if isHighSurrogate n then
        match s with
        | '\\' :: 'u' :: a' :: b' :: c' :: d' :: t =>
          match hexQuad? a' b' c' d' with
          | none => badHex (a' :: b' :: c' :: d' :: t)
          | some m =>
            if isLowSurrogate m then stringBody (pairedChar n m :: done) t
            else reached .loneSurrogate t
        | '\\' :: 'u' :: t => badHex t
        | '\\' :: [] => reached .endInString []
        | '\\' :: t => offending .unpairedSurrogate t
        | [] => reached .endInString []
        | t => offending .unpairedSurrogate t
      else stringBody (Char.ofNat n :: done) s
  | '\\' :: 'u' :: s => badHex s
  | '\\' :: [] => reached .endInString []
  | '\\' :: c :: s =>
    match shortEscape? c with
    | some e => stringBody (e :: done) s
    | none => offending .invalidEscape (c :: s)
  | c :: s =>
    if c.toNat < 0x20 then offending .controlCharacter (c :: s)
    else stringBody (c :: done) s

/-! ## Numbers -/

/-- Extends a number by digits while it stays within a bound; the other digits are left over. -/
def accumulate (bound : Nat) (n : Nat) : List Char → Nat × List Char
  | [] => (n, [])
  | c :: digits =>
    let next := 10 * n + (c.toNat - '0'.toNat)
    if next ≤ bound then accumulate bound next digits else (n, c :: digits)

/-- The largest natural number that stays whole. -/
def maxNatural : Nat := 0xFFFFFFFFFFFFFFFF

/-- The magnitude divided by ten `k` times, at most 308 times in one rounding. -/
def scaleDown (x : Number.Binary64) (k : Nat) : Number.Binary64 :=
  if h : k ≤ 308 then x.div (.powerOfTen k)
  else if x.units = 0 then x
  else scaleDown (x.div (.powerOfTen 308)) (k - 308)
termination_by k

/-- The floating-point number with the given significand and decimal exponent. -/
def realOfParts (negative : Bool) (significand : Nat) (exponent : Int) (rest : List Char) :
    Except Fault (Number × List Char) :=
  let x := Number.Binary64.ofNat significand
  if 0 ≤ exponent then
    if 308 < exponent then
      if x.units = 0 then .ok (.real negative x, rest) else reached .numberOutOfRange rest
    else
      let y := x.mul (.powerOfTen exponent.toNat)
      if y.isFinite then .ok (.real negative y, rest) else reached .numberOutOfRange rest
  else .ok (.real negative (scaleDown x (-exponent).toNat), rest)

/-- The largest exponent that counts. -/
def maxExponent : Nat := 0x7FFFFFFF

/-- Reads the exponent of a number after its letter. -/
def exponentPart (negative : Bool) (significand : Nat) (exponent : Int) (s : List Char) :
    Except Fault (Number × List Char) :=
  let (down, t) :=
    match s with
    | '+' :: t => (false, t)
    | '-' :: t => (true, t)
    | t => (false, t)
  match t with
  | [] => reached .endInValue []
  | c :: _ =>
    if !c.isDigit then offending .invalidNumber t
    else
      let rest := t.dropWhile Char.isDigit
      match accumulate maxExponent 0 (t.takeWhile Char.isDigit) with
      | (e, []) =>
        let total := if down then exponent - e else exponent + e
        realOfParts negative significand total rest
      | (_, _ :: left) =>
        if significand ≠ 0 && !down then reached .numberOutOfRange (left ++ rest)
        else .ok (.real negative ⟨0⟩, rest)

/-- Reads what may follow the digits of a number: an exponent or nothing. -/
def afterDigits (negative : Bool) (significand : Nat) (exponent : Int) (s : List Char) :
    Except Fault (Number × List Char) :=
  match s with
  | 'e' :: t | 'E' :: t => exponentPart negative significand exponent t
  | _ => realOfParts negative significand exponent s

/-- Reads the fraction of a number after its point. Digits beyond 64 bits are ignored. -/
def fractionPart (negative : Bool) (significand : Nat) (exponent : Int) (s : List Char) :
    Except Fault (Number × List Char) :=
  let digits := s.takeWhile Char.isDigit
  match s, digits with
  | [], [] => reached .endInValue []
  | _, [] => offending .invalidNumber s
  | _, _ =>
    let (n, ignored) := accumulate maxNatural significand digits
    afterDigits negative n (exponent - (digits.length - ignored.length : Nat))
      (s.dropWhile Char.isDigit)

/-- The largest natural number whose negation stays whole. -/
def maxNegative : Nat := 0x8000000000000000

/-- The number that digits without point and exponent spell. Zero with a sign is not whole. -/
def wholeNumber (negative : Bool) (n : Nat) : Number :=
  if !negative then .int n
  else if 0 < n ∧ n ≤ maxNegative then .int (-n)
  else .real true (.ofNat n)

/-- **Reads a number** after its sign. Digits of the whole part beyond 64 bits count as zeros. -/
def number (negative : Bool) (s : List Char) : Except Fault (Number × List Char) :=
  match s with
  | [] => reached .endInValue []
  | c :: t =>
    if !c.isDigit then offending .invalidNumber s
    else if c = '0' && (t.head?.any Char.isDigit) then offending .invalidNumber t
    else
      let (n, dropped) := accumulate maxNatural 0 (s.takeWhile Char.isDigit)
      match s.dropWhile Char.isDigit with
      | '.' :: r => fractionPart negative n dropped.length r
      | r =>
        match r, dropped with
        | 'e' :: _, _ | 'E' :: _, _ | _, _ :: _ => afterDigits negative n dropped.length r
        | _, [] => .ok (wholeNumber negative n, r)

/-! ## Laws -/

theorem digitChar_hexValue : ∀ n < 16, hexValue? (Nat.digitChar n) = some n := by decide

/-- A written character reads back as itself. -/
theorem stringBody_escapedChar (done : List Char) (c : Char) (s : List Char) :
    stringBody done (escapedChar c ++ s) = stringBody (c :: done) s := by
  unfold escapedChar
  split
  case h_8 d hq hb h8 h9 h10 h12 h13 =>
    split
    · next h =>
      have h1 := digitChar_hexValue (c.toNat / 16) (by omega)
      have h2 := digitChar_hexValue (c.toNat % 16) (by omega)
      have h0 : hexValue? '0' = some 0 := by decide
      have hn : c.toNat / 16 * 16 + c.toNat % 16 = c.toNat := by omega
      have hl : isLowSurrogate c.toNat = false := by simp [isLowSurrogate]; omega
      have hh : isHighSurrogate c.toNat = false := by simp [isHighSurrogate]; omega
      have hc : Char.ofNat c.toNat = c := Char.ofNat_toNat c
      simp [stringBody, hexQuad?, h0, h1, h2, hn, hl, hh, hc]
    · next h =>
      simp only [List.cons_append, List.nil_append]
      rw [stringBody]
      · simp [h]
      all_goals simp_all
  all_goals simp [stringBody, shortEscape?]

theorem stringBody_flatMap_escapedChar (done : List Char) (cs s : List Char) :
    stringBody done (cs.flatMap escapedChar ++ s) = stringBody (cs.reverse ++ done) s := by
  induction cs generalizing done with
  | nil => rfl
  | cons c cs ih => simp [stringBody_escapedChar, ih]

/-- **A written string reads back**, whatever follows its closing quote. -/
theorem stringBody_written (text : String) (s : List Char) :
    stringBody [] (text.toList.flatMap escapedChar ++ '"' :: s) = .ok (text, s) := by
  simp [stringBody_flatMap_escapedChar, stringBody]

/-- Digits are collected to the end as long as their number fits. -/
theorem accumulate_of_le {bound n : Nat} {digits : List Char}
    (h : Nat.ofDigitChars 10 digits n ≤ bound) :
    accumulate bound n digits = (Nat.ofDigitChars 10 digits n, []) := by
  induction digits generalizing n with
  | nil => rfl
  | cons c digits ih =>
    have hle : ∀ (ds : List Char) (m : Nat), m ≤ Nat.ofDigitChars 10 ds m := by
      intro ds
      induction ds with
      | nil => intro m; exact Nat.le_refl m
      | cons d ds ihd =>
        intro m
        rw [Nat.ofDigitChars_cons]
        exact Nat.le_trans (by omega) (ihd _)
    rw [Nat.ofDigitChars_cons] at h ⊢
    rw [accumulate, if_pos (Nat.le_trans (hle _ _) h), ih h]

end MailBlocks.Json
