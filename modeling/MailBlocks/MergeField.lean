import MailBlocks.Text.Blank
import MailBlocks.Text.Search

/-!
# Merge fields

A merge field such as `{{recipient.first_name}}` stands for a value that the mailing system fills
in later: two braces, a dotted name with blank space on either side, two braces. Authored text is
taken apart into its merge fields, from the left, and its other characters.

* `field?_eq_some`: a field that is found is the beginning of the text.
* `parts_of_field`, `parts_of_plain`: how a text is taken apart.
* `flatMap_chars_parts`: the parts put together are the text.
-/

namespace MailBlocks.MergeField

open Text

/-- The characters that a name may begin with. -/
def isNameStart (c : Char) : Bool := c.isAlpha || c = '_'

/-- The characters that a name may contain. -/
def isNameChar (c : Char) : Bool := c.isAlphanum || c = '_'

/-- The dotted name at the front, as long as can be, and what follows it. `fresh` holds where a name
has to begin. -/
def path? (fresh : Bool) : List Char → Option (List Char × List Char)
  | [] => if fresh then none else some ([], [])
  | c :: s =>
    if fresh then
      if isNameStart c then (path? false s).map fun (p, r) => (c :: p, r) else none
    else if c = '.' then (path? true s).map fun (p, r) => (c :: p, r)
    else if isNameChar c then (path? false s).map fun (p, r) => (c :: p, r)
    else some ([], c :: s)

/-- **The merge field at the front** of a text, and what follows it. -/
def field? (s : List Char) : Option (List Char × List Char) := do
  let s ← dropLead ['\x7b', '\x7b'] s
  let (name, r) ← path? true (s.dropWhile isBlank)
  let rest ← dropLead ['\x7d', '\x7d'] (r.dropWhile isBlank)
  pure (['\x7b', '\x7b'] ++ s.takeWhile isBlank ++ name ++ r.takeWhile isBlank ++ ['\x7d', '\x7d'],
    rest)

/-- **A part of an authored text**: a character of its own, or a merge field. -/
inductive Part where
  | plain (c : Char)
  | field (token : List Char)
  deriving DecidableEq, Repr

/-- The characters of a part. -/
def Part.chars : Part → List Char
  | .plain c => [c]
  | .field token => token

/-- Takes a text apart after its first `skip` characters. -/
def partsAfter : Nat → List Char → List Part
  | _, [] => []
  | skip + 1, _ :: s => partsAfter skip s
  | 0, c :: s =>
    match field? (c :: s) with
    | some (token, _) => .field token :: partsAfter (token.length - 1) s
    | none => .plain c :: partsAfter 0 s

/-- **The parts of a text** in order, merge fields found from the left. -/
def parts (s : List Char) : List Part :=
  partsAfter 0 s

/-- The merge fields of a text in order. -/
def tokens (s : String) : List String :=
  (parts s.toList).filterMap fun
    | .field token => some (String.ofList token)
    | .plain _ => none

/-- The text without its merge fields. -/
def remainder (s : List Char) : List Char :=
  (parts s).filterMap fun
    | .plain c => some c
    | .field _ => none

/-- **Unbalanced braces**: double braces are left when the merge fields are taken out. -/
def unbalanced (s : String) : Bool :=
  let rest := remainder s.toList
  occurs ['\x7b', '\x7b'] rest || occurs ['\x7d', '\x7d'] rest

/-- Maps the characters of a text one by one and copies its merge fields. -/
def mapPlain (f : Char → List Char) (s : List Char) : List Char :=
  (parts s).flatMap fun
    | .plain c => f c
    | .field token => token

theorem path?_eq_some {fresh : Bool} {s p r : List Char} (h : path? fresh s = some (p, r)) :
    s = p ++ r := by
  induction s generalizing fresh p r with
  | nil =>
    simp only [path?] at h
    split at h <;> simp_all
  | cons c s ih =>
    have step : ∀ {b : Bool}, (path? b s).map (fun (p, r) => (c :: p, r)) = some (p, r) →
        c :: s = p ++ r := by
      intro b hb
      obtain ⟨⟨p', r'⟩, hp, he⟩ := Option.map_eq_some_iff.1 hb
      simp only [Prod.mk.injEq] at he
      rw [← he.1, ← he.2, List.cons_append, ← ih hp]
    simp only [path?] at h
    split at h
    · split at h
      · exact step h
      · simp at h
    · split at h
      · exact step h
      · split at h
        · exact step h
        · simp only [Option.some.injEq, Prod.mk.injEq] at h
          rw [← h.1, ← h.2, List.nil_append]

/-- A field that is found is the beginning of the text, and is not empty. -/
theorem field?_eq_some {s token rest : List Char} (h : field? s = some (token, rest)) :
    s = token ++ rest ∧ 0 < token.length := by
  simp only [field?, Option.bind_eq_bind, Option.bind_eq_some_iff] at h
  obtain ⟨s', hs', ⟨name, r⟩, hname, rest', hrest, he⟩ := h
  simp only [Option.pure_def, Option.some.injEq, Prod.mk.injEq] at he
  obtain ⟨rfl, rfl⟩ := he
  have h1 := dropLead_eq_some_iff.1 hs'
  have h2 := path?_eq_some hname
  have h3 := dropLead_eq_some_iff.1 hrest
  have hr : r = r.takeWhile isBlank ++ (['\x7d', '\x7d'] ++ rest') := by
    rw [← h3]; exact List.takeWhile_append_dropWhile.symm
  have hs : s' = s'.takeWhile isBlank ++ (name ++ r) := by
    rw [← h2]; exact List.takeWhile_append_dropWhile.symm
  refine ⟨?_, by simp⟩
  calc s = ['\x7b', '\x7b'] ++ s' := h1
    _ = ['\x7b', '\x7b'] ++ (s'.takeWhile isBlank ++
          (name ++ (r.takeWhile isBlank ++ (['\x7d', '\x7d'] ++ rest')))) := by
        rw [← hr, ← hs]
    _ = _ := by simp

theorem partsAfter_append (token rest : List Char) :
    partsAfter token.length (token ++ rest) = partsAfter 0 rest := by
  induction token with
  | nil => rfl
  | cons c token ih => exact ih

theorem parts_nil : parts [] = [] := rfl

/-- A text with a merge field at the front. -/
theorem parts_of_field {s token rest : List Char} (h : field? s = some (token, rest)) :
    parts s = .field token :: parts rest := by
  obtain ⟨hs, hlen⟩ := field?_eq_some h
  cases token with
  | nil => simp at hlen
  | cons c token =>
    subst hs
    rw [List.cons_append, parts, partsAfter, ← List.cons_append, h]
    simp [parts, partsAfter_append]

/-- A text without one at the front. -/
theorem parts_of_plain {c : Char} {s : List Char} (h : field? (c :: s) = none) :
    parts (c :: s) = .plain c :: parts s := by
  rw [parts, partsAfter, h, parts]

/-- **The parts put together are the text.** -/
theorem flatMap_chars_parts (s : List Char) : (parts s).flatMap Part.chars = s := by
  suffices h : ∀ n, ∀ s : List Char, s.length ≤ n → (parts s).flatMap Part.chars = s from
    h s.length s (Nat.le_refl _)
  intro n
  induction n with
  | zero =>
    intro s hs
    rw [List.length_eq_zero_iff.1 (Nat.le_zero.1 hs)]
    rfl
  | succ n ih =>
    intro s hs
    cases s with
    | nil => rfl
    | cons c s =>
      cases h : field? (c :: s) with
      | none =>
        rw [parts_of_plain h, List.flatMap_cons, ih s (by simpa using hs)]
        rfl
      | some tr =>
        obtain ⟨token, rest⟩ := tr
        obtain ⟨hs', hlen⟩ := field?_eq_some h
        have hl := congrArg List.length hs'
        simp only [List.length_append] at hl
        rw [parts_of_field h, List.flatMap_cons, ih rest (by omega), hs']
        rfl

end MailBlocks.MergeField
