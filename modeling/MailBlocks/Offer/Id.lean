import MailBlocks.Json.Lexeme

/-!
# Identities of offers

An additional offer is addressed by a universally unique identifier, 32 hexadecimal digits, which
stays with it when offers before it are removed.

* `ofText?_text`: a written identity reads back.
-/

namespace MailBlocks

open Text

/-- **The identity of an additional offer**: 32 hexadecimal digits. -/
structure OfferId where
  digits : List (Fin 16)
  length_digits : digits.length = 32
  deriving DecidableEq, Repr

namespace OfferId

/-- The identity that begins with the given digits and goes on with zeros. -/
def padded (digits : List (Fin 16)) : OfferId :=
  ⟨(digits ++ List.replicate 32 0).take 32, by simp⟩

/-- The last digit of a number. -/
def lowDigit (n : Nat) : Fin 16 := ⟨n % 16, Nat.mod_lt n (by decide)⟩

instance : Inhabited OfferId := ⟨padded []⟩

/-- The lengths of the groups that hyphens separate. -/
def groups : List Nat := [8, 4, 4, 4, 12]

/-- The sum of some lengths. -/
def total : List Nat → Nat
  | [] => 0
  | n :: ns => n + total ns

/-- Puts hyphens between groups of the given lengths. -/
def grouped : List Nat → List Char → List Char
  | [], cs => cs
  | [_], cs => cs
  | n :: m :: ns, cs => cs.take n ++ '-' :: grouped (m :: ns) (cs.drop n)

/-- Takes the hyphens out of groups of exactly the given lengths. -/
def ungrouped? : List Nat → List Char → Option (List Char)
  | [], cs => if cs.isEmpty then some [] else none
  | [n], cs => if cs.length = n then some cs else none
  | n :: m :: ns, cs =>
    match cs.drop n with
    | '-' :: rest => (ungrouped? (m :: ns) rest).map (cs.take n ++ ·)
    | _ => none

/-- The written form: small letters, groups separated by hyphens. -/
def chars (id : OfferId) : List Char :=
  grouped groups (id.digits.map fun d => Nat.digitChar d.val)

/-- The written form as a text. -/
def text (id : OfferId) : String :=
  String.ofList id.chars

/-- The value of a hexadecimal digit. -/
def digit? (c : Char) : Option (Fin 16) :=
  (Json.hexValue? c).bind fun n => if h : n < 16 then some ⟨n, h⟩ else none

/-- The identity that hexadecimal digits without hyphens spell. -/
def ofDigits? (cs : List Char) : Option OfferId :=
  (cs.mapM digit?).bind fun ds => if h : ds.length = 32 then some ⟨ds, h⟩ else none

/-- What may stand before the grouped form, in either case. -/
def lead : List Char := "urn:uuid:".toList

/-- The grouped form, which may stand in braces or behind a lead. -/
def bare (cs : List Char) : List Char :=
  match cs with
  | '\x7b' :: r => (dropTail ['\x7d'] r).getD cs
  | cs => if lead.isPrefixOf (lowerChars cs) then cs.drop lead.length else cs

/-- **Reads an identity**: 32 digits in either case, plain or in hyphenated groups. -/
def ofText? (s : String) : Option OfferId :=
  let cs := s.toList
  if cs.length = 32 then ofDigits? cs
  else (ungrouped? groups (bare cs)).bind ofDigits?

theorem digit?_digitChar (d : Fin 16) : digit? (Nat.digitChar d.val) = some d := by
  revert d; decide

theorem digitChar_ne (d : Fin 16) :
    Nat.digitChar d.val ≠ '\x7b' ∧ (Nat.digitChar d.val).toLower ≠ 'u' := by
  revert d; decide

theorem mapM_digit?_map (ds : List (Fin 16)) :
    (ds.map fun d => Nat.digitChar d.val).mapM digit? = some ds := by
  induction ds with
  | nil => rfl
  | cons d ds ih => simp [digit?_digitChar, ih]

theorem ungrouped?_grouped {ns : List Nat} {cs : List Char} (hne : ns ≠ [])
    (h : cs.length = total ns) : ungrouped? ns (grouped ns cs) = some cs := by
  induction ns generalizing cs with
  | nil => exact absurd rfl hne
  | cons n ns ih =>
    cases ns with
    | nil => simp_all [ungrouped?, grouped, total]
    | cons m ns =>
      have hn : n ≤ cs.length := by rw [h, total]; omega
      have hlen : (cs.take n).length = n := by simp [hn]
      have hdrop : (cs.drop n).length = total (m :: ns) := by
        rw [List.length_drop, h, total]; omega
      have hd : (grouped (n :: m :: ns) cs).drop n = '-' :: grouped (m :: ns) (cs.drop n) := by
        rw [grouped, List.drop_left' hlen]
      have ht : (grouped (n :: m :: ns) cs).take n = cs.take n := by
        rw [grouped, List.take_left' hlen]
      rw [ungrouped?, hd]
      simp only [ht, ih (by simp) hdrop, Option.map_some, List.take_append_drop]

/-- The characters of a written identity, from which the hyphens can be taken out again. -/
theorem length_chars (id : OfferId) : id.chars.length = 36 := by
  simp [chars, groups, grouped, id.length_digits]

/-- **A written identity reads back.** -/
theorem ofText?_text (id : OfferId) : ofText? id.text = some id := by
  have hlen : (id.digits.map fun d => Nat.digitChar d.val).length = total groups := by
    simp [id.length_digits, groups, total]
  have hbare : bare id.chars = id.chars := by
    have hhead : ∃ d : Fin 16, ∃ r, id.chars = Nat.digitChar d.val :: r := by
      cases hd : id.digits with
      | nil => have := id.length_digits; simp [hd] at this
      | cons d ds => exact ⟨d, _, by simp [chars, hd, grouped, groups]; rfl⟩
    obtain ⟨d, r, hr⟩ := hhead
    have hb := digitChar_ne d
    rw [hr, bare]
    · have hu : lead.isPrefixOf (lowerChars (Nat.digitChar d.val :: r)) = false := by
        have : lead = 'u' :: "rn:uuid:".toList := by decide
        simp [this, lowerChars, List.isPrefixOf, Ne.symm hb.2]
      simp [hu]
    · intro r' h
      exact hb.1 (by injection h)
  have hl : id.text.toList = id.chars := String.toList_ofList
  simp only [ofText?, hl, length_chars, hbare]
  rw [if_neg (by decide), chars, ungrouped?_grouped (by decide) hlen]
  simp only [Option.bind_some, ofDigits?, mapM_digit?_map, id.length_digits, dite_true]

end OfferId

end MailBlocks
