import Mathlib.Data.List.Basic
import MailBlocks.Proofs.FieldGrammar

/-!
# Gaps between merge fields

A text is its merge fields and the gaps before, between and behind them, which hold its plain
characters. What is left without the fields are the gaps put together. Braces are unbalanced if a
gap has double braces, and also if two single braces meet once the fields between them are gone.

* `remainder_append_of_not_mem`, `remainder_trimBlank`: what is left of a text.
* `gaps`, `flatten_zipWith_gaps`: the gaps and the fields make up the text.
* `exists_infix_gaps_iff`: the runs of plain characters are those of the gaps.
* `unbalanced_iff_gaps`: where double braces that are left over come from.
* `unbalanced_local_iff`: when they are all found in single gaps.
-/

namespace MailBlocks.MergeField

open Text

/-! ## What is left of a text without its merge fields -/

theorem IsField.remainder {t : List Char} (ht : IsField t) (r : List Char) :
    remainder (t ++ r) = remainder r := by
  simp only [MergeField.remainder, ht.parts, List.filterMap_cons]

theorem remainder_plain {c : Char} {s : List Char} (h : field? (c :: s) = none) :
    remainder (c :: s) = c :: remainder s := by
  simp only [remainder, parts_of_plain h, List.filterMap_cons]

/-- Text without an opening brace is left in front of what is left. -/
theorem remainder_append_of_not_mem {w : List Char} (h : '\x7b' ∉ w) (s : List Char) :
    remainder (w ++ s) = w ++ remainder s := by
  induction w with
  | nil => rfl
  | cons c w ih =>
    simp only [List.mem_cons, not_or] at h
    rw [List.cons_append, remainder_plain (field?_cons_of_ne (Ne.symm h.1) _), ih h.2,
      List.cons_append]

/-- All of a text without a closing brace is left. -/
theorem remainder_of_not_mem_close {e : List Char} (he : '\x7d' ∉ e) : remainder e = e := by
  induction e using parts_induction with
  | nil => rfl
  | field t r ht _ =>
    obtain ⟨m, rfl, -⟩ := ht.inner
    simp at he
  | plain c s h ih => rw [remainder_plain h, ih fun hm => he (List.mem_cons_of_mem _ hm)]

/-- Text without a closing brace is left behind what is left. -/
theorem remainder_append_of_not_mem_close {e : List Char} (he : '\x7d' ∉ e) (s : List Char) :
    remainder (s ++ e) = remainder s ++ e := by
  induction s using parts_induction with
  | nil => exact remainder_of_not_mem_close he
  | field t r ht ih => rw [List.append_assoc, ht.remainder, ht.remainder, ih]
  | plain c s h ih =>
    -- no field is completed by what comes behind
    have happend : field? (c :: (s ++ e)) = none := field?_append_eq_none he h
    rw [List.cons_append, remainder_plain h, remainder_plain happend, ih, List.cons_append]

/-- What is left of a trimmed text, with blanks around it, is left of the text. -/
theorem remainder_trimBlank (s : List Char) :
    ∃ b e : List Char, remainder s = b ++ (remainder (trimBlank s) ++ e) ∧
      (∀ c ∈ b, isBlank c) ∧ ∀ c ∈ e, isBlank c := by
  obtain ⟨b, e, hs, hb, he⟩ := trimBlank_append s
  have hb' : '\x7b' ∉ b := fun h => absurd (hb _ h) (by decide)
  have he' : '\x7d' ∉ e := fun h => absurd (he _ h) (by decide)
  refine ⟨b, e, ?_, hb, he⟩
  calc remainder s = remainder (b ++ (trimBlank s ++ e)) := by rw [← hs]
    _ = b ++ (remainder (trimBlank s) ++ e) := by
        rw [remainder_append_of_not_mem hb', remainder_append_of_not_mem_close he']

/-! ## Gaps -/

/-- The plain characters of a list of parts, a new run after each field. -/
def plainRuns : List Part → List (List Char)
  | [] => [[]]
  | .field _ :: ps => [] :: plainRuns ps
  | .plain c :: ps => (plainRuns ps).modifyHead (c :: ·)

/-- **The gaps of a text**: before its first merge field, between two of them, and behind the
last. -/
def gaps (s : List Char) : List (List Char) :=
  plainRuns (parts s)

theorem exists_plainRuns_eq_cons (ps : List Part) : ∃ g gs, plainRuns ps = g :: gs := by
  induction ps with
  | nil => exact ⟨_, _, rfl⟩
  | cons p ps ih =>
    cases p with
    | field t => exact ⟨_, _, rfl⟩
    | plain c =>
      obtain ⟨g, gs, h⟩ := ih
      exact ⟨c :: g, gs, by rw [plainRuns, h, List.modifyHead_cons]⟩

theorem IsField.gaps {t : List Char} (ht : IsField t) (r : List Char) :
    gaps (t ++ r) = [] :: gaps r := by
  rw [MergeField.gaps, ht.parts, plainRuns, MergeField.gaps]

theorem gaps_plain {c : Char} {s : List Char} (h : field? (c :: s) = none) :
    gaps (c :: s) = (gaps s).modifyHead (c :: ·) := by
  rw [gaps, parts_of_plain h, plainRuns, gaps]

/-- There is one gap more than there are fields. -/
theorem length_gaps (s : List Char) : (gaps s).length = (fields s).length + 1 := by
  induction s using parts_induction with
  | nil => rfl
  | field t r ht ih => rw [ht.gaps, ht.fields, List.length_cons, ih, List.length_cons]
  | plain c s h ih => rw [gaps_plain h, fields_plain h, List.length_modifyHead, ih]

/-- **The gaps and the fields in turn are the text.** -/
theorem flatten_zipWith_gaps (s : List Char) :
    (List.zipWith (· ++ ·) (gaps s) (fields s ++ [[]])).flatten = s := by
  induction s using parts_induction with
  | nil => rfl
  | field t r ht ih =>
    rw [ht.gaps, ht.fields, List.cons_append, List.zipWith_cons_cons, List.flatten_cons, ih,
      List.nil_append]
  | plain c s h ih =>
    obtain ⟨g, gs, hg⟩ : ∃ g gs, gaps s = g :: gs := exists_plainRuns_eq_cons _
    obtain ⟨t, ts, ht⟩ := List.exists_cons_of_ne_nil
      (List.append_ne_nil_of_right_ne_nil (fields s) (List.cons_ne_nil [] []))
    rw [hg, ht, List.zipWith_cons_cons, List.flatten_cons] at ih
    rw [gaps_plain h, fields_plain h, hg, ht, List.modifyHead_cons, List.zipWith_cons_cons,
      List.flatten_cons, List.cons_append, List.cons_append, ih]

/-- The gaps put together are what is left without the fields. -/
theorem flatten_gaps (s : List Char) : (gaps s).flatten = remainder s := by
  induction s using parts_induction with
  | nil => rfl
  | field t r ht ih => rw [ht.gaps, ht.remainder, List.flatten_cons, ih, List.nil_append]
  | plain c s h ih =>
    obtain ⟨g, gs, hg⟩ : ∃ g gs, gaps s = g :: gs := exists_plainRuns_eq_cons _
    rw [gaps_plain h, remainder_plain h, ← ih, hg, List.modifyHead_cons, List.flatten_cons,
      List.flatten_cons, List.cons_append]

theorem prefix_plainRuns_iff {w g : List Char} {gs : List (List Char)} {ps : List Part}
    (h : plainRuns ps = g :: gs) : w <+: g ↔ w.map .plain <+: ps := by
  induction ps generalizing w g gs with
  | nil =>
    rw [plainRuns, List.cons.injEq] at h
    rw [← h.1, List.prefix_nil, List.prefix_nil, List.map_eq_nil_iff]
  | cons p ps ih =>
    cases w with
    | nil => simp
    | cons a w =>
      cases p with
      | field t =>
        rw [plainRuns, List.cons.injEq] at h
        rw [← h.1, List.map_cons, List.cons_prefix_cons]
        simp
      | plain c =>
        obtain ⟨g', gs', hg⟩ := exists_plainRuns_eq_cons ps
        rw [plainRuns, hg, List.modifyHead_cons, List.cons.injEq] at h
        rw [← h.1, List.map_cons, List.cons_prefix_cons, List.cons_prefix_cons, ih hg,
          Part.plain.injEq]

/-- A run of plain characters stands in a gap. -/
theorem exists_infix_plainRuns_iff (w : List Char) (ps : List Part) :
    (∃ g ∈ plainRuns ps, w <:+: g) ↔ w.map .plain <:+: ps := by
  induction ps with
  | nil => simp [plainRuns]
  | cons p ps ih =>
    rw [List.infix_cons_iff, ← ih]
    cases p with
    | field t =>
      rw [plainRuns, List.exists_mem_cons_iff, List.infix_nil]
      refine or_congr_left ?_
      cases w <;> simp [List.cons_prefix_cons]
    | plain c =>
      obtain ⟨g, gs, hg⟩ := exists_plainRuns_eq_cons ps
      have hcons : plainRuns (.plain c :: ps) = (c :: g) :: gs := by
        rw [plainRuns, hg, List.modifyHead_cons]
      rw [hcons, hg, List.exists_mem_cons_iff, List.exists_mem_cons_iff, List.infix_cons_iff,
        ← prefix_plainRuns_iff hcons, or_assoc]

theorem exists_infix_gaps_iff (w s : List Char) :
    (∃ g ∈ gaps s, w <:+: g) ↔ w.map .plain <:+: parts s :=
  exists_infix_plainRuns_iff w (parts s)

/-! ## Double braces -/

theorem unbalanced_iff (s : String) :
    unbalanced s = true ↔
      ['\x7b', '\x7b'] <:+: remainder s.toList ∨ ['\x7d', '\x7d'] <:+: remainder s.toList := by
  rw [unbalanced, Bool.or_eq_true, occurs_iff, occurs_iff]

/-- The plain character that a part is. -/
def Part.plain? : Part → Option Char
  | .plain c => some c
  | .field _ => none

theorem remainder_eq_filterMap (s : List Char) :
    remainder s = (parts s).filterMap Part.plain? := by
  rw [remainder]
  congr 1

theorem filterMap_plain?_field (t : List Char) (ps : List Part) :
    (.field t :: ps).filterMap Part.plain? = ps.filterMap Part.plain? := rfl

theorem filterMap_plain?_plain (c : Char) (ps : List Part) :
    (.plain c :: ps).filterMap Part.plain? = c :: ps.filterMap Part.plain? := rfl

/-- The first plain character has fields in front of it and nothing else. -/
theorem singleton_prefix_filterMap_iff {c : Char} {ps : List Part} :
    [c] <+: ps.filterMap Part.plain? ↔
      ∃ ts : List (List Char), ts.map .field ++ [.plain c] <+: ps := by
  induction ps with
  | nil => simp
  | cons p ps ih =>
    cases p with
    | field t =>
      rw [filterMap_plain?_field, ih]
      constructor
      · rintro ⟨ts, hts⟩
        exact ⟨t :: ts, List.cons_prefix_cons.2 ⟨rfl, hts⟩⟩
      · rintro ⟨ts, hts⟩
        cases ts with
        | nil => simp at hts
        | cons u ts => exact ⟨ts, (List.cons_prefix_cons.1 hts).2⟩
    | plain d =>
      rw [filterMap_plain?_plain, List.cons_prefix_cons]
      constructor
      · rintro ⟨rfl, -⟩
        exact ⟨[], List.cons_prefix_cons.2 ⟨rfl, List.nil_prefix⟩⟩
      · rintro ⟨ts, hts⟩
        cases ts with
        | nil => simpa using hts
        | cons u ts => simp at hts

/-- Two plain characters meet once the fields between them are taken out. -/
theorem pair_infix_filterMap_iff {c d : Char} {ps : List Part} :
    [c, d] <:+: ps.filterMap Part.plain? ↔
      ∃ ts : List (List Char), .plain c :: (ts.map .field ++ [.plain d]) <:+: ps := by
  induction ps with
  | nil => simp
  | cons p ps ih =>
    simp only [List.infix_cons_iff, exists_or, ← ih]
    cases p with
    | field t => simp [filterMap_plain?_field]
    | plain e =>
      rw [filterMap_plain?_plain, List.infix_cons_iff, List.cons_prefix_cons,
        singleton_prefix_filterMap_iff]
      simp only [List.cons_prefix_cons, Part.plain.injEq, exists_and_left]

/-- **Double braces** in a run of characters, opening or closing ones. -/
def HasDoubleBrace (g : List Char) : Prop :=
  ∃ c, (c = '\x7b' ∨ c = '\x7d') ∧ [c, c] <:+: g

/-- **Braces that meet**: the same brace stands before and behind merge fields that have nothing else
between them. -/
def BracesMeet (s : List Char) : Prop :=
  ∃ c, (c = '\x7b' ∨ c = '\x7d') ∧
    ∃ ts : List (List Char), ts ≠ [] ∧ .plain c :: (ts.map .field ++ [.plain c]) <:+: parts s

/-- **Where double braces come from** that are left over: they stand in a gap, or they are two braces
of different gaps that meet. -/
theorem unbalanced_iff_gaps (s : String) :
    unbalanced s = true ↔
      (∃ g ∈ gaps s.toList, HasDoubleBrace g) ∨ BracesMeet s.toList := by
  have hleft : unbalanced s = true ↔
      ∃ c, (c = '\x7b' ∨ c = '\x7d') ∧
        ∃ ts : List (List Char), .plain c :: (ts.map .field ++ [.plain c]) <:+: parts s.toList := by
    simp only [unbalanced_iff, remainder_eq_filterMap, pair_infix_filterMap_iff, or_and_right,
      exists_or, exists_eq_left]
  -- with no field between them the two braces stand in one gap
  have hgap : (∃ g ∈ gaps s.toList, HasDoubleBrace g) ↔
      ∃ c, (c = '\x7b' ∨ c = '\x7d') ∧ [Part.plain c, .plain c] <:+: parts s.toList := by
    constructor
    · rintro ⟨g, hg, c, hc, hinfix⟩
      exact ⟨c, hc, (exists_infix_gaps_iff [c, c] _).1 ⟨g, hg, hinfix⟩⟩
    · rintro ⟨c, hc, hinfix⟩
      obtain ⟨g, hg, hin⟩ := (exists_infix_gaps_iff [c, c] _).2 hinfix
      exact ⟨g, hg, c, hc, hin⟩
  rw [hleft, hgap, BracesMeet, ← exists_or]
  refine exists_congr fun c => ?_
  rw [← and_or_left]
  refine and_congr_right fun _ => ?_
  constructor
  · rintro ⟨ts, hts⟩
    cases ts with
    | nil => exact .inl hts
    | cons t ts => exact .inr ⟨t :: ts, List.cons_ne_nil t ts, hts⟩
  · rintro (h | ⟨ts, -, hts⟩)
    · exact ⟨[], h⟩
    · exact ⟨ts, hts⟩

/-- **When unbalanced braces are those of single gaps.** The gaps and the merge fields in turn are the
text, with a gap at either end. Braces are unbalanced just if one of the gaps has double braces, but
for texts in which only braces of different gaps meet. -/
theorem unbalanced_local_iff (s : String) :
    ((gaps s.toList).length = (tokens s).length + 1 ∧
      (List.zipWith (· ++ ·) (gaps s.toList) ((tokens s).map String.toList ++ [[]])).flatten =
        s.toList) ∧
    ((unbalanced s = true ↔ ∃ g ∈ gaps s.toList, HasDoubleBrace g) ↔
      (BracesMeet s.toList → ∃ g ∈ gaps s.toList, HasDoubleBrace g)) := by
  have htokens : (tokens s).map String.toList = fields s.toList := by
    rw [tokens_eq_map_fields, List.map_map]
    exact List.map_id'' (fun _ => String.toList_ofList) _
  refine ⟨⟨?_, ?_⟩, ?_⟩
  · rw [tokens_eq_map_fields, List.length_map, length_gaps]
  · rw [htokens, flatten_zipWith_gaps]
  · rw [unbalanced_iff_gaps]
    exact or_iff_left_iff_imp

/-- Single braces on both sides of a merge field meet when it is taken out. -/
theorem unbalanced_not_local :
    ¬ ∀ s, unbalanced s = true ↔ ∃ g ∈ gaps s.toList, HasDoubleBrace g := by
  intro h
  have hgaps : gaps "\x7b\x7b\x7ba\x7d\x7d\x7b".toList = [['\x7b'], ['\x7b']] := by decide
  obtain ⟨g, hg, c, -, hinfix⟩ := (h "\x7b\x7b\x7ba\x7d\x7d\x7b").1 (by decide)
  -- a gap of one character has no two
  have hlength : g.length = 1 := by
    rw [hgaps] at hg
    simp only [List.mem_cons, List.not_mem_nil, or_false, or_self] at hg
    rw [hg, List.length_singleton]
  have htwo : 2 ≤ g.length := hinfix.length_le
  omega

end MailBlocks.MergeField
