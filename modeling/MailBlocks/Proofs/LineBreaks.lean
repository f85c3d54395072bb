import MailBlocks.Markup.Token
import MailBlocks.Proofs.Reference

/-!
# Merge fields in text with line breaks

Text with line breaks is escaped after its carriage returns are dropped, and every line feed of the
result becomes an element, also one that stands in a merge field. So exactly the merge fields
without a line feed come through.

* `fields_unixLines`: the fields of a text whose lines end in line feeds.
* `fields_multilineContent`: the fields of the content with line breaks.
-/

namespace MailBlocks.Markup

open MergeField Text

/-! ## Lines that end in line feeds -/

/-- A carriage return is dropped if a line feed follows, and all else is kept. -/
theorem unixLines_cons (c : Char) (s : List Char) :
    unixLines (c :: s) =
      if c = '\r' ∧ s.head? = some '\n' then unixLines s else c :: unixLines s := by
  cases s with
  | nil =>
    rw [if_neg (by simp)]
    by_cases h : c = '\r' <;> simp [unixLines]
  | cons d s =>
    by_cases h : c = '\r' ∧ d = '\n'
    · obtain ⟨rfl, rfl⟩ := h
      simp [unixLines]
    · rw [if_neg (by simpa using h), unixLines]
      intro t hc ht
      exact h ⟨hc, (List.cons.inj ht).1⟩

theorem unixLines_cons_of_ne {c : Char} (h : c ≠ '\r') (s : List Char) :
    unixLines (c :: s) = c :: unixLines s := by
  rw [unixLines_cons, if_neg fun hc => h hc.1]

/-- Two texts are joined as they are unless a carriage return meets a line feed. -/
theorem unixLines_append {a b : List Char}
    (h : a.getLast? ≠ some '\r' ∨ b.head? ≠ some '\n') :
    unixLines (a ++ b) = unixLines a ++ unixLines b := by
  induction a with
  | nil => rfl
  | cons c a ih =>
    cases a with
    | nil =>
      have hc : ¬ (c = '\r' ∧ b.head? = some '\n') := by
        rintro ⟨rfl, hb⟩
        rcases h with h | h
        · exact h rfl
        · exact h hb
      -- the only carriage return that could be dropped here is the last one of `a`
      rw [List.singleton_append, unixLines_cons, if_neg hc, unixLines_cons c [], if_neg (by simp)]
      rfl
    | cons d a =>
      rw [List.getLast?_cons_cons] at h
      rw [List.cons_append, unixLines_cons, unixLines_cons, ih h]
      by_cases hc : c = '\r' ∧ d = '\n'
      · rw [if_pos (by simpa using hc), if_pos (by simpa using hc)]
      · rw [if_neg (by simpa using hc), if_neg (by simpa using hc), List.cons_append]

theorem mem_unixLines_lineFeed {s : List Char} : '\n' ∈ unixLines s ↔ '\n' ∈ s := by
  induction s with
  | nil => rfl
  | cons c s ih =>
    rw [unixLines_cons]
    split
    · next h =>
      rw [h.1, List.mem_cons, ih]
      simp
    · rw [List.mem_cons, List.mem_cons, ih]

/-- A text without a line feed keeps all its characters. -/
theorem unixLines_eq_self {s : List Char} (h : '\n' ∉ s) : unixLines s = s := by
  induction s with
  | nil => rfl
  | cons c s ih =>
    simp only [List.mem_cons, not_or] at h
    rw [unixLines_cons, if_neg, ih h.2]
    rintro ⟨-, hs⟩
    exact h.2 (List.mem_of_head? hs)

theorem dropWhile_unixLines (s : List Char) :
    (unixLines s).dropWhile isBlank = unixLines (s.dropWhile isBlank) := by
  induction s with
  | nil => rfl
  | cons c s ih =>
    by_cases hc : isBlank c
    · rw [unixLines_cons, List.dropWhile_cons_of_pos hc]
      split
      · exact ih
      · rw [List.dropWhile_cons_of_pos hc, ih]
    · have hr : c ≠ '\r' := by
        rintro rfl
        exact hc (by decide)
      rw [List.dropWhile_cons_of_neg hc, unixLines_cons_of_ne hr, List.dropWhile_cons_of_neg hc]

theorem takeWhile_unixLines (s : List Char) :
    (unixLines s).takeWhile isBlank = unixLines (s.takeWhile isBlank) := by
  induction s with
  | nil => rfl
  | cons c s ih =>
    by_cases hc : isBlank c
    -- a line feed is blank, so it is still in front of what is taken
    · have hh : (s.takeWhile isBlank).head? = some '\n' ↔ s.head? = some '\n' := by
        cases s with
        | nil => simp
        | cons d s =>
          by_cases hd : isBlank d
          · rw [List.takeWhile_cons_of_pos hd]; rfl
          · rw [List.takeWhile_cons_of_neg hd]
            simp only [List.head?_nil, reduceCtorEq, List.head?_cons, Option.some.injEq, false_iff]
            rintro rfl
            exact hd (by decide)
      rw [List.takeWhile_cons_of_pos hc, unixLines_cons, unixLines_cons]
      simp only [hh]
      split
      · exact ih
      · rw [List.takeWhile_cons_of_pos hc, ih]
    · have hr : c ≠ '\r' := by
        rintro rfl
        exact hc (by decide)
      rw [List.takeWhile_cons_of_neg hc, unixLines_cons_of_ne hr, List.takeWhile_cons_of_neg hc]
      rfl

theorem dropLead_unixLines {p : List Char} (hp : ∀ c ∈ p, c ≠ '\r' ∧ c ≠ '\n') (s : List Char) :
    dropLead p (unixLines s) = (dropLead p s).map unixLines := by
  induction p generalizing s with
  | nil => rfl
  | cons a p ih =>
    obtain ⟨⟨hr, hn⟩, hp'⟩ := List.forall_mem_cons.1 hp
    induction s with
    | nil => rfl
    | cons c s ihs =>
      rw [unixLines_cons]
      split
      · next h =>
        -- a carriage return and a line feed: neither can be dropped as a lead
        rw [ihs, h.1]
        cases s with
        | nil => simp at h
        | cons d s =>
          have hd : d = '\n' := by simpa using h.2
          simp [dropLead, hd, hr, hn]
      · by_cases hc : a = c <;> simp [dropLead, hc, ih hp']

theorem path?_unixLines (fresh : Bool) (s : List Char) :
    path? fresh (unixLines s) = (path? fresh s).map fun (p, r) => (p, unixLines r) := by
  induction s generalizing fresh with
  | nil => cases fresh <;> rfl
  | cons c s ih =>
    rw [unixLines_cons]
    split
    · next h =>
      -- no name goes on over a carriage return, or over the line feed behind it
      rw [ih, h.1]
      cases s with
      | nil => simp at h
      | cons d s =>
        obtain rfl : d = '\n' := by simpa using h.2
        cases fresh
        · simp [path?, isNameChar, unixLines]
        · simp [path?, isNameStart]
    · next h =>
      have step : ∀ b, ((path? b s).map fun (p, r) => (p, unixLines r)).map
          (fun (p, r) => (c :: p, r)) =
          ((path? b s).map fun (p, r) => (c :: p, r)).map fun (p, r) => (p, unixLines r) := by
        intro b
        cases path? b s <;> rfl
      simp only [path?, ih, step]
      split
      · split <;> rfl
      · split
        · rfl
        · split
          · rfl
          · rw [Option.map_some, unixLines_cons, if_neg h]

/-- In a field only the blanks around the name can change. -/
theorem unixLines_field (b e : List Char) {p : List Char} (hp : Path true p) :
    unixLines (['\x7b', '\x7b'] ++ b ++ p ++ e ++ ['\x7d', '\x7d']) =
      ['\x7b', '\x7b'] ++ unixLines b ++ p ++ unixLines e ++ ['\x7d', '\x7d'] := by
  have hmem : ∀ c ∈ p, c ≠ '\r' ∧ c ≠ '\n' := by
    intro c hc
    constructor <;>
    · rintro rfl
      rcases hp.isNameChar_or_dot _ hc with h | h <;> exact absurd h (by decide)
  have hne : p ≠ [] := by
    rintro rfl
    cases hp
  have hhead : p.head? ≠ some '\n' := fun h => (hmem _ (List.mem_of_head? h)).2 rfl
  have hlast : (['\x7b', '\x7b'] ++ b ++ p).getLast? ≠ some '\r' := by
    obtain ⟨c, hc⟩ := Option.isSome_iff_exists.1 (List.getLast?_isSome.2 hne)
    rw [List.getLast?_append, hc, Option.some_or]
    rintro ⟨rfl⟩
    exact (hmem _ (List.mem_of_getLast? hc)).1 rfl
  rw [unixLines_append (.inr (by decide)), unixLines_append (.inl hlast),
    unixLines_append (.inr hhead), unixLines_append (.inl (by decide)),
    unixLines_eq_self fun h => (hmem _ h).2 rfl]
  rfl

/-- The field at the front of a text, and of the text whose lines end in line feeds. -/
theorem field?_unixLines (s : List Char) :
    field? (unixLines s) = (field? s).map fun (t, r) => (unixLines t, unixLines r) := by
  have hopen : ∀ c ∈ ['\x7b', '\x7b'], c ≠ '\r' ∧ c ≠ '\n' := by simp
  have hclose : ∀ c ∈ ['\x7d', '\x7d'], c ≠ '\r' ∧ c ≠ '\n' := by simp
  simp only [field?, dropLead_unixLines hopen]
  cases dropLead ['\x7b', '\x7b'] s with
  | none => rfl
  | some s' =>
    simp only [Option.map_some, Option.bind_eq_bind, Option.bind_some, dropWhile_unixLines,
      path?_unixLines]
    cases hp : path? true (s'.dropWhile isBlank) with
    | none => rfl
    | some x =>
      obtain ⟨p, r⟩ := x
      simp only [Option.map_some, Option.bind_some, dropWhile_unixLines, dropLead_unixLines hclose]
      cases dropLead ['\x7d', '\x7d'] (r.dropWhile isBlank) with
      | none => rfl
      | some rest =>
        simp only [Option.map_some, Option.bind_some, Option.pure_def, takeWhile_unixLines,
          unixLines_field _ _ (path_of_path? hp).1]

/-- **The fields of a text whose lines end in line feeds.** -/
theorem fields_unixLines (s : List Char) : fields (unixLines s) = (fields s).map unixLines := by
  induction s using parts_induction with
  | nil => rfl
  | field t r ht ih =>
    have h := field?_unixLines (t ++ r)
    rw [ht.field?, Option.map_some] at h
    obtain ⟨ht', he⟩ := field?_eq_some_iff.1 h
    rw [he, ht'.fields, ht.fields, List.map_cons, ih]
  | plain c s h ih =>
    have hf : field? (unixLines (c :: s)) = none := by
      rw [field?_unixLines, h]
      rfl
    rw [fields_plain h, ← ih]
    rw [unixLines_cons] at hf ⊢
    split at hf
    · next hc => rw [if_pos hc]
    · next hc => rw [if_neg hc, fields_plain hf]

/-! ## Breaks -/

/-- How one character is written in content with line breaks. -/
def multilineChar (c : Char) : List Char :=
  (contentChar c).flatMap breakChar

theorem multilineChar_eq_self {c : Char} (h : isFieldChar c) (hn : c ≠ '\n') :
    multilineChar c = [c] := by
  rw [multilineChar, contentChar_eq_self h, List.flatMap_singleton, breakChar, if_neg hn]

theorem multilineContent_eq (s : String) :
    (multilineContent s).toList = (unixLines s.toList).flatMap multilineChar := by
  rw [multilineContent, String.toList_ofList, mapPlain_eq_flatMap fun c => contentChar_eq_self,
    List.flatMap_assoc]
  rfl

/-- Breaks and references begin with characters that no field has. -/
theorem rewrites_multilineChar : Rewrites multilineChar := by
  intro c
  by_cases hn : c = '\n'
  · subst hn
    exact .inr ⟨'<', "br />".toList, rfl, by decide, by decide⟩
  unfold multilineChar contentChar
  split
  case h_6 => exact .inl (by rw [List.flatMap_singleton, breakChar, if_neg hn])
  all_goals exact .inr ⟨'&', _, rfl, by decide, by decide⟩

theorem all_keeps_multilineChar {t : List Char} (ht : IsField t) :
    (unixLines t).all (keeps multilineChar) = decide ('\n' ∉ t) := by
  by_cases hn : '\n' ∈ t
  · rw [decide_eq_false (not_not_intro hn), List.all_eq_false]
    exact ⟨'\n', mem_unixLines_lineFeed.2 hn, by decide⟩
  · rw [decide_eq_true hn, unixLines_eq_self hn, List.all_eq_true]
    intro c hc
    have hne : c ≠ '\n' := fun h => hn (h ▸ hc)
    exact decide_eq_true (multilineChar_eq_self (ht.isFieldChar c hc) hne)

/-- **The fields of content with line breaks** are those without a line feed. -/
theorem fields_multilineContent (s : String) :
    fields (multilineContent s).toList = (fields s.toList).filter fun t => '\n' ∉ t := by
  have hkeep : (fields s.toList).filter ((fun t => t.all (keeps multilineChar)) ∘ unixLines) =
      (fields s.toList).filter fun t => '\n' ∉ t :=
    List.filter_congr fun t ht => all_keeps_multilineChar (isField_of_mem_fields ht)
  rw [multilineContent_eq, rewrites_multilineChar.fields_flatMap, fields_unixLines,
    List.filter_map, hkeep]
  refine (List.map_congr_left fun t ht => ?_).trans (List.map_id _)
  exact unixLines_eq_self (of_decide_eq_true (List.mem_filter.1 ht).2)

theorem tokens_multilineContent (s : String) :
    tokens (multilineContent s) = (tokens s).filter fun t => '\n' ∉ t.toList := by
  rw [tokens_eq_map_fields, tokens_eq_map_fields, fields_multilineContent, List.filter_map]
  congr 1
  refine List.filter_congr fun t _ => ?_
  simp

end MailBlocks.Markup
