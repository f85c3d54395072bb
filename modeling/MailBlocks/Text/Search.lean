/-!
# Searching and folding text

Case folding is that of ASCII letters only, and a search is for a run of characters anywhere in a
text.

* `occurs_iff`: the search finds a run exactly when the text contains it.
* `flatMap_eq_append_cons`: the character a place of a rewritten text comes from.
-/

namespace MailBlocks.Text

/-- The characters with the ASCII capitals turned into small letters. -/
def lowerChars (cs : List Char) : List Char :=
  cs.map Char.toLower

/-- A text with the ASCII capitals turned into small letters. -/
def lower (s : String) : String :=
  String.ofList (lowerChars s.toList)

/-- Whether the run `p` occurs somewhere in the text. -/
def occurs (p : List Char) : List Char → Bool
  | [] => p.isEmpty
  | c :: cs => p.isPrefixOf (c :: cs) || occurs p cs

theorem occurs_iff {p s : List Char} : occurs p s ↔ p <:+: s := by
  induction s with
  | nil => simp [occurs, List.isEmpty_iff]
  | cons c s ih => simp [occurs, List.infix_cons_iff, ih]

/-- The text after a leading run `p`, if it starts with that run. -/
def dropLead : List Char → List Char → Option (List Char)
  | [], s => some s
  | _ :: _, [] => none
  | p :: ps, c :: s => if p = c then dropLead ps s else none

theorem dropLead_eq_some_iff {p s r : List Char} : dropLead p s = some r ↔ s = p ++ r := by
  induction p generalizing s with
  | nil => simp [dropLead, eq_comm]
  | cons a p ih =>
    cases s with
    | nil => simp [dropLead]
    | cons c s =>
      by_cases h : a = c
      · simp [dropLead, h, ih]
      · simp [dropLead, h, Ne.symm h]

/-- The text before a trailing run `p`, if it ends with that run. -/
def dropTail (p s : List Char) : Option (List Char) :=
  (dropLead p.reverse s.reverse).map List.reverse

theorem dropTail_eq_some_iff {p s r : List Char} : dropTail p s = some r ↔ s = r ++ p := by
  simp only [dropTail, Option.map_eq_some_iff, dropLead_eq_some_iff]
  constructor
  · rintro ⟨t, ht, rfl⟩
    have := congrArg List.reverse ht
    simpa using this
  · rintro rfl
    exact ⟨r.reverse, by simp, by simp⟩

/-- The pieces of a text between the separators. -/
def splitAt (sep : Char) : List Char → List (List Char)
  | [] => [[]]
  | c :: s =>
    if c = sep then [] :: splitAt sep s
    else
      match splitAt sep s with
      | [] => [[c]]
      | piece :: pieces => (c :: piece) :: pieces

/-- An element of joined lists is in one of them. -/
theorem flatMap_eq_append_cons {α β : Type} {f : α → List β} {l : List α} {p q : List β} {c : β}
    (h : l.flatMap f = p ++ c :: q) :
    ∃ l₁ x l₂ p' q', l = l₁ ++ x :: l₂ ∧ f x = p' ++ c :: q' ∧ p = l₁.flatMap f ++ p' ∧
      q = q' ++ l₂.flatMap f := by
  induction l generalizing p with
  | nil => simp at h
  | cons x l ih =>
    rw [List.flatMap_cons] at h
    have hlater : ∀ {s}, p = f x ++ s → l.flatMap f = s ++ c :: q →
        ∃ l₁ y l₂ p' q', x :: l = l₁ ++ y :: l₂ ∧ f y = p' ++ c :: q' ∧
          p = l₁.flatMap f ++ p' ∧ q = q' ++ l₂.flatMap f := by
      intro s hp hs
      obtain ⟨l₁, y, l₂, p', q', hl, hy, hs', hq⟩ := ih hs
      refine ⟨x :: l₁, y, l₂, p', q', by rw [hl, List.cons_append], hy, ?_, hq⟩
      rw [hp, hs', List.flatMap_cons, List.append_assoc]
    rcases List.append_eq_append_iff.1 h with ⟨s, hp, hs⟩ | ⟨s, hx, hs⟩
    · exact hlater hp hs
    · cases s with
      | nil => exact hlater (s := []) (by simpa using hx.symm) (by simpa using hs.symm)
      | cons d s =>
        rw [List.cons_append, List.cons.injEq] at hs
        obtain ⟨rfl, rfl⟩ := hs
        exact ⟨[], x, l, p, s, rfl, hx, rfl, rfl⟩

/-- The number of bytes of the characters in UTF-8. -/
def bytes (cs : List Char) : Nat :=
  cs.foldl (fun n c => n + c.utf8Size) 0

end MailBlocks.Text
