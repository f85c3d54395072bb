import MailBlocks.Json.Lexeme
import MailBlocks.Markup.Escape
import MailBlocks.Number.Decimal
import MailBlocks.Proofs.FieldGrammar

/-!
# Character references

Readers of markup turn character references back into characters, in texts and in the values of
attributes. Escaped text reads as the text it was made from, and none of its characters has a
meaning in markup.

* `decode`: what a reader makes of references.
* `decode_flatMap`: escaping character by character is read back.
* `attributeValue_eq_elementContent`: attributes are escaped like texts.
* `tokens_elementContent`: escaping keeps the merge fields.
-/

namespace MailBlocks.Markup

open MergeField Text

/-! ## Reading references -/

/-- The named references: those of the characters with a meaning in markup, and those that could
stand for a character that counts in the scheme of an address. -/
def namedReferences : List (String × Char) :=
  [("amp", '&'), ("lt", '<'), ("gt", '>'), ("quot", '"'), ("apos", '\''), ("nbsp", '\u00a0'),
    ("colon", ':'), ("sol", '/'), ("Tab", '\t'), ("NewLine", '\n')]

/-- The character with a number in decimal. -/
def ofDecimal? (digits : List Char) : Option Char :=
  if digits.isEmpty || !digits.all Char.isDigit then none
  else some (Char.ofNat (Number.ofDigits digits))

/-- The character with a number in hexadecimal. -/
def ofHexadecimal? (digits : List Char) : Option Char :=
  if digits.isEmpty then none
  else (digits.foldlM (fun n c => (Json.hexValue? c).map (16 * n + ·)) 0).map Char.ofNat

/-- The character that a reference stands for, by its name or its number. -/
def reference? : List Char → Option Char
  | '#' :: 'x' :: digits | '#' :: 'X' :: digits => ofHexadecimal? digits
  | '#' :: digits => ofDecimal? digits
  | name => (namedReferences.find? fun (n, _) => n.toList == name).map (·.2)

/-- Reads a text with its references, `name` being what was read of a reference that has begun. What
is no reference stays as it is. -/
def decodeAfter : Option (List Char) → List Char → List Char
  | none, [] => []
  | some name, [] => '&' :: name
  | none, c :: s => if c = '&' then decodeAfter (some []) s else c :: decodeAfter none s
  | some name, c :: s =>
    if c = ';' then
      match reference? name with
      | some d => d :: decodeAfter none s
      | none => '&' :: name ++ ';' :: decodeAfter none s
    else if c = '&' then '&' :: name ++ decodeAfter (some []) s
    else decodeAfter (some (name ++ [c])) s

/-- **Reads the character references** of a text. -/
def decode (s : List Char) : List Char :=
  decodeAfter none s

theorem decode_nil : decode [] = [] := rfl

theorem decode_cons {c : Char} (h : c ≠ '&') (s : List Char) : decode (c :: s) = c :: decode s := by
  rw [decode, decodeAfter, if_neg h, decode]

theorem decode_append_of_not_mem {w : List Char} (h : '&' ∉ w) (s : List Char) :
    decode (w ++ s) = w ++ decode s := by
  induction w with
  | nil => rfl
  | cons c w ih =>
    simp only [List.mem_cons, not_or] at h
    rw [List.cons_append, decode_cons (Ne.symm h.1), ih h.2, List.cons_append]

/-- A text without an ampersand has no references. -/
theorem decode_eq_self {s : List Char} (h : '&' ∉ s) : decode s = s := by
  have := decode_append_of_not_mem h []
  rwa [decode_nil, List.append_nil] at this

/-- **A way of writing characters that is read back**, whatever follows. -/
def ReadsBack (f : Char → List Char) : Prop :=
  ∀ c s, decode (f c ++ s) = c :: decode s

theorem ReadsBack.decode_append {f : Char → List Char} (hf : ReadsBack f) (w s : List Char) :
    decode (w.flatMap f ++ s) = w ++ decode s := by
  induction w with
  | nil => rfl
  | cons c w ih => rw [List.flatMap_cons, List.append_assoc, hf, ih, List.cons_append]

theorem ReadsBack.decode_flatMap {f : Char → List Char} (hf : ReadsBack f) (w : List Char) :
    decode (w.flatMap f) = w := by
  have := hf.decode_append w []
  rwa [decode_nil, List.append_nil, List.append_nil] at this

/-! ## Escaped text -/

/-- The characters that are not written as they are. -/
def special : List Char := ['"', '&', '\'', '<', '>']

/-- The references that are written for them. -/
def references : List String := ["&quot;", "&amp;", "&#x27;", "&lt;", "&gt;"]

/-- A character is written as it is, or as one of the references. -/
theorem contentChar_cases (c : Char) :
    (contentChar c = [c] ∧ c ∉ special) ∨ ∃ name ∈ references, contentChar c = name.toList := by
  unfold contentChar
  split
  case h_6 h1 h2 h3 h4 h5 =>
    have hplain : c ∉ special := by
      simp only [special, List.mem_cons, List.not_mem_nil, or_false, not_or]
      exact ⟨h1, h2, h3, h4, h5⟩
    exact .inl ⟨rfl, hplain⟩
  all_goals exact .inr ⟨_, by decide, rfl⟩

theorem mem_contentChar {c d : Char} (h : d ∈ contentChar c) :
    (d = c ∧ d ∉ special) ∨ ∃ name ∈ references, d ∈ name.toList := by
  rcases contentChar_cases c with ⟨hself, hspecial⟩ | ⟨name, hname, hc⟩
  · rw [hself, List.mem_singleton] at h
    exact .inl ⟨h, h ▸ hspecial⟩
  · rw [hc] at h
    exact .inr ⟨name, hname, h⟩

theorem readsBack_contentChar : ReadsBack contentChar := by
  intro c s
  unfold contentChar
  split
  case h_6 h _ _ _ => exact decode_cons h s
  all_goals rfl

theorem attributeChar_eq_contentChar (c : Char) : attributeChar c = contentChar c := by
  unfold attributeChar contentChar
  split
  case h_6 h _ _ _ _ => rw [List.flatMap_singleton, if_neg h]
  all_goals rfl

/-- Attributes are escaped like texts. -/
theorem attributeValue_eq_elementContent (s : String) : attributeValue s = elementContent s := by
  rw [attributeValue, elementContent, funext attributeChar_eq_contentChar]

theorem contentChar_eq_self {c : Char} (h : isFieldChar c) : contentChar c = [c] := by
  unfold contentChar
  split <;> first | rfl | exact absurd h (by decide)

/-- Escaping goes over a text character by character. -/
theorem toList_elementContent (s : String) :
    (elementContent s).toList = s.toList.flatMap contentChar := by
  rw [elementContent, String.toList_ofList, mapPlain_eq_flatMap fun c => contentChar_eq_self]

/-- **Escaped text is read back.** -/
theorem decode_elementContent (s : String) : decode (elementContent s).toList = s.toList := by
  rw [toList_elementContent, readsBack_contentChar.decode_flatMap]

theorem rewrites_contentChar : Rewrites contentChar := by
  intro c
  unfold contentChar
  split
  case h_6 => exact .inl rfl
  all_goals exact .inr ⟨'&', _, rfl, by decide, by decide⟩

/-- **Escaping keeps the merge fields.** -/
theorem tokens_elementContent (s : String) : tokens (elementContent s) = tokens s := by
  rw [tokens_eq_map_fields, tokens_eq_map_fields, toList_elementContent,
    rewrites_contentChar.fields_flatMap, List.filter_eq_self.2]
  intro t ht
  have hc := (isField_of_mem_fields ht).isFieldChar
  exact List.all_eq_true.2 fun c h => decide_eq_true (contentChar_eq_self (hc c h))

/-- The characters that could open or close a tag or an attribute's value. -/
def isDelimiter (c : Char) : Bool := c = '<' || c = '>' || c = '"'

/-- A class of characters that has no delimiter. -/
theorem not_isDelimiter_of {p : Char → Bool} (h : p '<' = false ∧ p '>' = false ∧ p '"' = false)
    {c : Char} (hc : p c) : ¬ isDelimiter c := by
  intro hd
  obtain ⟨hlt, hgt, hquote⟩ := h
  simp only [isDelimiter, Bool.or_eq_true, decide_eq_true_eq] at hd
  rcases hd with (rfl | rfl) | rfl
  · exact absurd hc (by rw [hlt]; decide)
  · exact absurd hc (by rw [hgt]; decide)
  · exact absurd hc (by rw [hquote]; decide)

/-- **Inert text**: none of its characters could open or close anything. -/
def Inert (s : String) : Prop := ∀ c ∈ s.toList, ¬ isDelimiter c

theorem all_iff_inert (s : String) : s.toList.all (fun c => !isDelimiter c) ↔ Inert s := by
  simp [Inert]

instance (s : String) : Decidable (Inert s) :=
  decidable_of_iff _ (all_iff_inert s)

theorem not_isDelimiter_contentChar {c d : Char} (h : d ∈ contentChar c) : ¬ isDelimiter d := by
  rcases mem_contentChar h with ⟨-, hspecial⟩ | ⟨name, hname, hd⟩
  · intro hd
    simp only [isDelimiter, Bool.or_eq_true, decide_eq_true_eq] at hd
    rcases hd with (rfl | rfl) | rfl <;> exact hspecial (by decide)
  · have hinert : ∀ name ∈ references, Inert name := by decide
    exact hinert name hname d hd

theorem inert_elementContent (s : String) : Inert (elementContent s) := by
  intro d hd
  rw [toList_elementContent] at hd
  obtain ⟨c, -, hc⟩ := List.mem_flatMap.1 hd
  exact not_isDelimiter_contentChar hc

end MailBlocks.Markup
