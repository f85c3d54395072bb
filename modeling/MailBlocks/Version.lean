import MailBlocks.Number.Decimal
import MailBlocks.Text.Blank

/-!
# Schema versions

Versions of three numbers with an optional pre-release and optional build metadata, such as
`2.0.0-rc.1+build.5`. The order is total: it continues after the pre-release with the build
metadata, of which more is later.

* `ofText?`: reads a version.
* `compare`: the order.
-/

namespace MailBlocks

/-- **A version.** -/
structure Version where
  major : Nat
  minor : Nat
  patch : Nat
  pre : List String
  build : List String
  deriving DecidableEq, Repr

namespace Version

open Text

/-- The version with three numbers and nothing else. -/
def release (major minor patch : Nat) : Version :=
  ⟨major, minor, patch, [], []⟩

/-- The largest number of 64 bits. -/
def maxPart : Nat := 0xFFFFFFFFFFFFFFFF

/-- A number of up to 64 bits without leading zeros, and what follows it. -/
def number? (cs : List Char) : Option (Nat × List Char) :=
  let digits := cs.takeWhile Char.isDigit
  let n := Number.ofDigits digits
  if digits.isEmpty || (digits.head? == some '0' && digits.length != 1) || maxPart < n then none
  else some (n, cs.dropWhile Char.isDigit)

/-- The characters of identifiers. -/
def isIdentifierChar (c : Char) : Bool :=
  c.isAlphanum || c = '-'

/-- A number in a pre-release may not begin with a zero. -/
def hasLeadingZero (id : List Char) : Bool :=
  id.all Char.isDigit && id.head? == some '0' && id.length != 1

/-- The identifiers between points at the front, none of them empty, and what follows them. -/
def identifiers? (allowLeadingZero : Bool) (cs : List Char) : Option (List String × List Char) :=
  let run := cs.takeWhile fun c => isIdentifierChar c || c = '.'
  let ids := splitAt '.' run
  if ids.any fun id => id.isEmpty || (!allowLeadingZero && hasLeadingZero id) then none
  else some (ids.map String.ofList, cs.dropWhile fun c => isIdentifierChar c || c = '.')

/-- The identifiers behind a mark, if the mark is ahead, and what follows them. -/
def marked? (mark : Char) (allowLeadingZero : Bool) :
    List Char → Option (List String × List Char)
  | c :: cs => if c = mark then identifiers? allowLeadingZero cs else some ([], c :: cs)
  | [] => some ([], [])

/-- **Reads a version**, the blanks around it aside. -/
def ofText? (s : String) : Option Version := do
  let cs := trimBlank s.toList
  let (major, cs) ← number? cs
  let cs ← dropLead ['.'] cs
  let (minor, cs) ← number? cs
  let cs ← dropLead ['.'] cs
  let (patch, cs) ← number? cs
  let (pre, cs) ← marked? '-' false cs
  let (build, cs) ← marked? '+' true cs
  if cs.isEmpty then pure ⟨major, minor, patch, pre, build⟩ else none

/-- The pre-release as a text. -/
def preText (v : Version) : String := String.intercalate "." v.pre

/-- The build metadata as a text. -/
def buildText (v : Version) : String := String.intercalate "." v.build

/-- The written form. -/
def text (v : Version) : String :=
  Number.decimal v.major ++ "." ++ Number.decimal v.minor ++ "." ++ Number.decimal v.patch ++
    (if v.pre.isEmpty then "" else "-" ++ v.preText) ++
    (if v.build.isEmpty then "" else "+" ++ v.buildText)

/-- The order of identifiers: numbers come first, by value and then by length; all else follows by
code points. -/
def compareIdentifiers (a b : String) : Ordering :=
  match a.toList.all Char.isDigit, b.toList.all Char.isDigit with
  | true, true =>
    (Ord.compare (Number.ofDigits a.toList) (Number.ofDigits b.toList)).then
      (Ord.compare a.length b.length)
  | true, false => .lt
  | false, true => .gt
  | false, false => Ord.compare a b

/-- The order of lists of identifiers: by the first that differ, else the shorter list first. -/
def compareLists : List String → List String → Ordering
  | [], [] => .eq
  | [], _ :: _ => .lt
  | _ :: _, [] => .gt
  | a :: as, b :: bs => (compareIdentifiers a b).then (compareLists as bs)

/-- The order of pre-releases, all of which come before the release itself. -/
def comparePre : List String → List String → Ordering
  | [], [] => .eq
  | [], _ :: _ => .gt
  | _ :: _, [] => .lt
  | as, bs => compareLists as bs

/-- **The order of versions.** -/
def compare (a b : Version) : Ordering :=
  (Ord.compare a.major b.major).then <| (Ord.compare a.minor b.minor).then <|
    (Ord.compare a.patch b.patch).then <| (comparePre a.pre b.pre).then <|
      compareLists a.build b.build

instance : Ord Version := ⟨compare⟩

example : ofText? " 1.2.3-rc.1+b " = some ⟨1, 2, 3, ["rc", "1"], ["b"]⟩ := by decide
example : ofText? "1.02.3" = none := by decide

end Version

end MailBlocks
