/-!
# Blank space in authored text

Authored values are read with the blank space around them ignored. Blank space here is Unicode's
`White_Space` property, 25 code points, of which core's `Char.isWhitespace` knows four.

* `isBlank_of_isWhitespace`: every character of the core class is blank.
* `trimBlank_eq_nil_iff`: trimming leaves nothing exactly when every character is blank.
-/

namespace MailBlocks.Text

/-- **Blank characters**: the code points of Unicode's `White_Space` property. -/
def isBlank (c : Char) : Bool :=
  let n := c.toNat
  (0x09 ≤ n && n ≤ 0x0D) || n == 0x20 || n == 0x85 || n == 0xA0 || n == 0x1680 ||
    (0x2000 ≤ n && n ≤ 0x200A) || n == 0x2028 || n == 0x2029 || n == 0x202F || n == 0x205F ||
    n == 0x3000

/-- Control characters: the code points of the general category `Cc`. -/
def isControl (c : Char) : Bool :=
  c.toNat < 0x20 || (0x7F ≤ c.toNat && c.toNat ≤ 0x9F)

/-- The characters without the blanks at either end. -/
def trimBlank (cs : List Char) : List Char :=
  ((cs.dropWhile isBlank).reverse.dropWhile isBlank).reverse

/-- A text without the blanks at either end. -/
def trim (s : String) : String :=
  String.ofList (trimBlank s.toList)

/-- A text is blank if it has no character but blanks. -/
def blank (s : String) : Bool :=
  s.toList.all isBlank

theorem isBlank_of_isWhitespace {c : Char} (h : c.isWhitespace) : isBlank c := by
  simp only [Char.isWhitespace, Bool.or_eq_true, decide_eq_true_eq] at h
  rcases h with ((rfl | rfl) | rfl) | rfl <;> decide

theorem dropWhile_isBlank_eq_nil_iff {cs : List Char} :
    cs.dropWhile isBlank = [] ↔ cs.all isBlank := by
  induction cs with
  | nil => simp
  | cons c cs ih => by_cases h : isBlank c <;> simp_all [List.dropWhile]

/-- Trimming leaves nothing exactly when every character is blank. -/
theorem trimBlank_eq_nil_iff {cs : List Char} : trimBlank cs = [] ↔ cs.all isBlank := by
  rw [trimBlank, List.reverse_eq_nil_iff, dropWhile_isBlank_eq_nil_iff, List.all_reverse]
  induction cs with
  | nil => simp
  | cons c cs ih => by_cases h : isBlank c <;> simp_all [List.dropWhile]

end MailBlocks.Text
