import MailBlocks.Proofs.LineBreaks

/-!
# Escaped text

Escaped text has no character that could open or close a tag or a value, its ampersands all begin a
character reference, and a reader of the references gets the authored text. In content with line
breaks the lines are lost and found as well: replacing the break elements by line feeds gives the
escape of the text with each carriage return and line feed replaced.

* `replaceAll`: replaces a run of characters wherever it stands.
* `IsEscape`: a text that is written for another one.
* `isEscape_elementContent`: escaping writes such a text.
* `replaceAll_multilineContent`: break elements are replaced by the line feeds they came from.
* `escaping_faithful`: escaping is safe and loses nothing.
-/

namespace MailBlocks.Markup

open MergeField Text

/-! ## Replacing a run of characters -/

/-- Replaces the run `p` by `w` in a text, after its first `skip` characters. -/
def replaceAfter (p w : List Char) : Nat → List Char → List Char
  | _, [] => []
  | skip + 1, _ :: s => replaceAfter p w skip s
  | 0, c :: s =>
    match dropLead p (c :: s) with
    | some _ => w ++ replaceAfter p w (p.length - 1) s
    | none => c :: replaceAfter p w 0 s

/-- **Replaces a run of characters** by another one, wherever it is found from the left. -/
def replaceAll (p w s : List Char) : List Char :=
  replaceAfter p w 0 s

theorem replaceAfter_append (p w t s : List Char) :
    replaceAfter p w t.length (t ++ s) = replaceAll p w s := by
  induction t with
  | nil => rfl
  | cons c t ih => exact ih

/-- A run that stands at the front. -/
theorem replaceAll_append {p : List Char} (hp : p ≠ []) (w s : List Char) :
    replaceAll p w (p ++ s) = w ++ replaceAll p w s := by
  cases p with
  | nil => exact absurd rfl hp
  | cons a q =>
    have hlead : dropLead (a :: q) (a :: (q ++ s)) = some s := dropLead_eq_some_iff.2 rfl
    have hskip : replaceAfter (a :: q) w q.length (q ++ s) = replaceAll (a :: q) w s :=
      replaceAfter_append _ _ _ _
    rw [List.cons_append, replaceAll, replaceAfter, hlead]
    exact congrArg (w ++ ·) hskip

/-- A character at which the run does not begin. -/
theorem replaceAll_cons {p s : List Char} {c : Char} (h : ¬ p <+: c :: s) (w : List Char) :
    replaceAll p w (c :: s) = c :: replaceAll p w s := by
  have hlead : dropLead p (c :: s) = none := by
    cases hd : dropLead p (c :: s) with
    | none => rfl
    | some r => exact absurd ⟨r, (dropLead_eq_some_iff.1 hd).symm⟩ h
  rw [replaceAll, replaceAfter, hlead, replaceAll]

example : replaceAll "aa".toList "b".toList "caaaad".toList = "cbbd".toList := by decide

/-! ## Lines -/

/-- Ending all lines in line feeds replaces the pairs. -/
theorem replaceAll_pairs (s : List Char) : replaceAll ['\r', '\n'] ['\n'] s = unixLines s := by
  induction s using unixLines.induct with
  | case1 s ih =>
    rw [unixLines, ← ih]
    exact replaceAll_append (List.cons_ne_nil _ _) _ s
  | case2 c s h ih =>
    -- the pair does not begin here: a carriage return is not followed by a line feed
    have hlead : ¬ ['\r', '\n'] <+: c :: s := by
      rintro ⟨t, ht⟩
      obtain ⟨hc, hs⟩ := List.cons.inj ht
      exact h t hc.symm hs.symm
    rw [unixLines, replaceAll_cons hlead, ih]
    exact h
  | case3 => rfl

/-- Breaks in a text that has no element of its own are replaced by what they came from. -/
theorem replaceAll_breaks {s : List Char} (h : '<' ∉ s) :
    replaceAll "<br />".toList ['\n'] (s.flatMap breakChar) = s := by
  induction s with
  | nil => rfl
  | cons c s ih =>
    rw [List.mem_cons, not_or] at h
    rw [List.flatMap_cons, breakChar]
    by_cases hc : c = '\n'
    · rw [if_pos hc, replaceAll_append (by decide), ih h.2, hc, List.singleton_append]
    · have hlead : ¬ "<br />".toList <+: c :: s.flatMap breakChar := by
        intro hp
        exact h.1 (List.cons_prefix_cons.1 hp).1
      rw [if_neg hc, List.singleton_append, replaceAll_cons hlead, ih h.2]

theorem newline_not_mem_breakChar (c : Char) : '\n' ∉ breakChar c := by
  unfold breakChar
  split
  · decide
  · next h => exact fun hn => h (List.mem_singleton.1 hn).symm

/-! ## Escapes -/

/-- **A text that is written for the text `s`.** -/
structure IsEscape (s t : String) : Prop where
  /-- None of its characters delimits a tag or a value. -/
  inert : ∀ c ∈ t.toList, c ≠ '<' ∧ c ≠ '>' ∧ c ≠ '"' ∧ c ≠ '\''
  /-- Wherever an ampersand stands, one of the references does. -/
  referenced : ∀ r, '&' :: r <:+ t.toList → ∃ name ∈ references, name.toList <+: '&' :: r
  /-- The references are read back. -/
  decode_eq : decode t.toList = s.toList
  /-- The merge fields are kept. -/
  tokens_eq : tokens t = tokens s

theorem apostrophe_not_mem_contentChar (c : Char) : '\'' ∉ contentChar c := by
  intro hmem
  rcases mem_contentChar hmem with ⟨-, hspecial⟩ | ⟨name, hname, hd⟩
  · exact hspecial (by decide)
  · have hreferences : ∀ name ∈ references, '\'' ∉ name.toList := by decide
    exact hreferences name hname hd

/-- An ampersand in what is written for a character begins the whole of it. -/
theorem mem_references_of_suffix {c : Char} {r : List Char} (h : '&' :: r <:+ contentChar c) :
    String.ofList ('&' :: r) ∈ references := by
  have hform : ∀ name ∈ references,
      name.toList = '&' :: name.toList.tail ∧ '&' ∉ name.toList.tail := by decide
  rcases contentChar_cases c with ⟨hself, hspecial⟩ | ⟨name, hname, hc⟩
  · -- a character that is written as it is is no ampersand
    rw [hself] at h
    have hamp : '&' = c := List.mem_singleton.1 (h.subset List.mem_cons_self)
    exact absurd (by rw [← hamp]; decide) hspecial
  · obtain ⟨hcons, htail⟩ := hform name hname
    rw [hc, hcons] at h
    rcases List.suffix_cons_iff.1 h with hwhole | hlater
    · rw [hwhole, ← hcons, String.ofList_toList]
      exact hname
    · exact absurd (hlater.subset List.mem_cons_self) htail

/-- Wherever an ampersand stands in escaped characters, one of the references does. -/
theorem exists_reference_prefix {s r : List Char} (h : '&' :: r <:+ s.flatMap contentChar) :
    ∃ name ∈ references, name.toList <+: '&' :: r := by
  obtain ⟨front, hfront⟩ := h
  obtain ⟨_, c, _, p, q, -, hc, -, hr⟩ := flatMap_eq_append_cons hfront.symm
  have hname : String.ofList ('&' :: q) ∈ references :=
    mem_references_of_suffix ⟨p, hc.symm⟩
  refine ⟨_, hname, ?_⟩
  rw [String.toList_ofList, hr, ← List.cons_append]
  exact List.prefix_append _ _

/-- **Escaping writes a text for the authored one.** -/
theorem isEscape_elementContent (s : String) : IsEscape s (elementContent s) where
  inert := by
    intro c hc
    have hdelim : ¬ isDelimiter c := inert_elementContent s c hc
    simp only [isDelimiter, Bool.or_eq_true, decide_eq_true_eq, not_or] at hdelim
    rw [toList_elementContent] at hc
    obtain ⟨d, -, hd⟩ := List.mem_flatMap.1 hc
    refine ⟨hdelim.1.1, hdelim.1.2, hdelim.2, ?_⟩
    rintro rfl
    exact apostrophe_not_mem_contentChar d hd
  referenced := by
    intro r hr
    rw [toList_elementContent] at hr
    exact exists_reference_prefix hr
  decode_eq := decode_elementContent s
  tokens_eq := tokens_elementContent s

/-- Content with line breaks is the content of the text with its lines ended alike, with breaks. -/
theorem toList_multilineContent (s : String) :
    (multilineContent s).toList =
      (elementContent (String.ofList (unixLines s.toList))).toList.flatMap breakChar := by
  rw [multilineContent, elementContent, String.toList_ofList, String.toList_ofList,
    String.toList_ofList]

/-- **Break elements are replaced by the line feeds they came from.** -/
theorem replaceAll_multilineContent (s : String) :
    replaceAll "<br />".toList ['\n'] (multilineContent s).toList =
      (elementContent (String.ofList (unixLines s.toList))).toList := by
  rw [toList_multilineContent, replaceAll_breaks]
  intro h
  exact ((isEscape_elementContent _).inert _ h).1 rfl

/-- Content with line breaks is one line. -/
theorem newline_not_mem_multilineContent (s : String) : '\n' ∉ (multilineContent s).toList := by
  rw [toList_multilineContent]
  intro h
  obtain ⟨c, -, hc⟩ := List.mem_flatMap.1 h
  exact newline_not_mem_breakChar c hc

/-- **Escaping is safe and loses nothing**: texts and values are written alike, as an escape of what
was authored. Content with line breaks is one line, from which the lines and then the characters are
read back. -/
theorem escaping_faithful (s : String) :
    elementContent s = attributeValue s ∧ IsEscape s (elementContent s) ∧
      decode (replaceAll "<br />".toList ['\n'] (multilineContent s).toList) =
        replaceAll ['\r', '\n'] ['\n'] s.toList ∧
      '\n' ∉ (multilineContent s).toList := by
  refine ⟨(attributeValue_eq_elementContent s).symm, isEscape_elementContent s, ?_,
    newline_not_mem_multilineContent s⟩
  calc decode (replaceAll "<br />".toList ['\n'] (multilineContent s).toList)
      = decode (elementContent (String.ofList (unixLines s.toList))).toList := by
        rw [replaceAll_multilineContent]
    _ = unixLines s.toList := by rw [decode_elementContent, String.toList_ofList]
    _ = replaceAll ['\r', '\n'] ['\n'] s.toList := (replaceAll_pairs _).symm

end MailBlocks.Markup
