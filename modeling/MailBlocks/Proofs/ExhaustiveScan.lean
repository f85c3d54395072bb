import Mathlib.Data.List.Count
import Mathlib.Data.List.Infix
import Mathlib.Data.List.Nodup
import MailBlocks.Proofs.FieldGrammar

/-!
# The scan for merge fields is exhaustive

The scanner goes on behind each field that it finds. It misses none that way: a field has two
opening braces at its front and no other ones, so that no field begins within another, and every run
of characters that is a field of the grammar is found wherever it stands.

* `Stands`, `occurrences`: the runs of a text that are fields, said without scanning.
* `field?_suffix`: no field begins within another one.
* `Stands.parts_eq`: a field parts its text, whatever surrounds it.
* `Stands.disjoint`: fields do not overlap.
* `fields_eq_occurrences`: the fields that are found are all runs that are fields.
* `scan_exhaustive`: nothing is missed, also where a text is rewritten around its fields.
-/

namespace MailBlocks.MergeField

instance : DecidablePred IsField := fun t =>
  decidable_of_iff (field? t = some (t, [])) (by rw [field?_eq_some_iff]; simp)

/-- **A field in its place**: the run `t` of the text `s` is a merge field, behind `p` and before
`r`. -/
structure Stands (s p t r : List Char) : Prop where
  isField : IsField t
  eq_append : s = p ++ (t ++ r)

/-- **The runs of a text that are merge fields**: all of them, by the place where they begin and then
by their length. -/
def occurrences (s : List Char) : List (List Char) :=
  s.tails.flatMap fun r => r.inits.filter (IsField ·)

/-! ## Fields within fields -/

section

variable {t b : List Char}

/-- **No field begins within another one.** -/
theorem field?_suffix (ht : IsField t) (hb : b <:+ t) (hne : b ≠ []) (hlt : b ≠ t)
    (r : List Char) : field? (b ++ r) = none := by
  obtain ⟨m, rfl, -, hin⟩ := ht.inner
  have hinner : '\x7b' ∉ m ++ ['\x7d', '\x7d'] := by
    intro h
    rcases List.mem_append.1 h with h | h
    · exact (not_brace_of_inner (hin _ h)).1 rfl
    · exact absurd h (by decide)
  rcases List.suffix_cons_iff.1 ((List.suffix_cons_iff.1 hb).resolve_left hlt) with rfl | hb
  · -- the second brace is followed by no brace
    exact field?_brace (by simp) hinner r
  · obtain ⟨c, b, rfl⟩ := List.exists_cons_of_ne_nil hne
    refine field?_cons_of_ne ?_ _
    rintro rfl
    exact hinner (hb.subset List.mem_cons_self)

/-- The end of a field holds no other one. -/
theorem fields_suffix (ht : IsField t) (hb : b <:+ t) (hlt : b ≠ t) (r : List Char) :
    fields (b ++ r) = fields r := by
  induction b with
  | nil => rfl
  | cons c b ih =>
    have hnone : field? (c :: (b ++ r)) = none := field?_suffix ht hb (List.cons_ne_nil c b) hlt r
    have hb' : b <:+ t := (List.suffix_cons c b).trans hb
    have hlt' : b ≠ t := by
      rintro rfl
      have hlen := hb.length_le
      rw [List.length_cons] at hlen
      omega
    rw [List.cons_append, fields_plain hnone, ih hb' hlt']

/-- A field that begins behind the beginning of another one begins behind all of it. -/
theorem length_le_of_isField {t' x r r' : List Char} (ht : IsField t) (ht' : IsField t')
    (h : t ++ r = x ++ (t' ++ r')) (hx : x ≠ []) : t.length ≤ x.length := by
  by_contra hlt
  rw [Nat.not_le] at hlt
  obtain ⟨y, rfl⟩ : x <+: t :=
    List.prefix_of_prefix_length_le ⟨_, h.symm⟩ (List.prefix_append t r) hlt.le
  rw [List.append_assoc, List.append_cancel_left_eq] at h
  have hy : y ≠ [] := by
    rintro rfl
    simp at hlt
  have hnone := field?_suffix ht (List.suffix_append x y) hy (by simpa using hx) r
  rw [h, ht'.field?] at hnone
  cases hnone

end

/-! ## Fields in their places -/

namespace Stands

variable {s p t r p' t' r' : List Char}

/-- **A field parts its text**, whatever surrounds it. -/
theorem parts_eq (h : Stands s p t r) : parts s = parts p ++ .field t :: parts r := by
  obtain ⟨ht, rfl⟩ := h
  induction p using parts_induction with
  | nil => rw [List.nil_append, ht.parts, parts_nil, List.nil_append]
  | field u p hu ih => rw [List.append_assoc, hu.parts, hu.parts, ih, List.cons_append]
  | plain c p hc ih =>
    have hnone : field? (c :: (p ++ (t ++ r))) = none := by
      cases hf : field? (c :: (p ++ (t ++ r))) with
      | none => rfl
      | some x =>
        obtain ⟨u, v⟩ := x
        obtain ⟨hu, he⟩ := field?_eq_some_iff.1 hf
        -- a field at the front does not reach as far as `t`, so it is at the front of `c :: p`
        have hlen := length_le_of_isField hu ht (x := c :: p) he.symm (List.cons_ne_nil c p)
        obtain ⟨y, hy⟩ : u <+: c :: p :=
          List.prefix_of_prefix_length_le ⟨v, he.symm⟩ (List.prefix_append (c :: p) (t ++ r)) hlen
        rw [← hy, hu.field?] at hc
        cases hc
    rw [List.cons_append, parts_of_plain hnone, parts_of_plain hc, ih, List.cons_append]

/-- Fields that begin at one place are one field. -/
theorem eq_of_append_eq (h : Stands s p t r) (h' : Stands s p t' r') : t' = t := by
  have he := h.eq_append.symm.trans h'.eq_append
  rw [List.append_cancel_left_eq] at he
  have hfield := h.isField.field? r
  rw [he, h'.isField.field?, Option.some.injEq, Prod.mk.injEq] at hfield
  exact hfield.1

/-- A field behind another one begins behind all of it. -/
theorem length_le (h : Stands s p t r) (h' : Stands s p' t' r') (hlt : p.length < p'.length) :
    (p ++ t).length ≤ p'.length := by
  obtain ⟨x, rfl⟩ : p <+: p' :=
    List.prefix_of_prefix_length_le ⟨_, h.eq_append.symm⟩ ⟨_, h'.eq_append.symm⟩ hlt.le
  have he := h.eq_append.symm.trans h'.eq_append
  rw [List.append_assoc, List.append_cancel_left_eq] at he
  have hx : x ≠ [] := by
    rintro rfl
    simp at hlt
  have hlen := length_le_of_isField h.isField h'.isField he hx
  rw [List.length_append, List.length_append]
  omega

/-- **Fields do not overlap.** -/
theorem disjoint (h : Stands s p t r) (h' : Stands s p' t' r') :
    (p' = p ∧ t' = t) ∨ (p ++ t).length ≤ p'.length ∨ (p' ++ t').length ≤ p.length := by
  rcases Nat.lt_trichotomy p.length p'.length with hlt | heq | hlt
  · exact .inr (.inl (h.length_le h' hlt))
  · have hp : p' = p := by
      have hprefix : p' <+: s := ⟨_, h'.eq_append.symm⟩
      exact List.IsPrefix.eq_of_length
        (List.prefix_of_prefix_length_le hprefix ⟨_, h.eq_append.symm⟩ heq.ge) heq.symm
    subst hp
    exact .inl ⟨rfl, h.eq_of_append_eq h'⟩
  · exact .inr (.inr (h'.length_le h hlt))

end Stands

/-! ## The scanner and the runs -/

theorem nodup_inits {α : Type} (l : List α) : l.inits.Nodup := by
  induction l with
  | nil => simp
  | cons a l ih =>
    rw [List.inits_cons, List.nodup_cons]
    exact ⟨by simp, ih.map List.cons_injective⟩

/-- Of the runs at the front of a text one at most is a field, which the scanner finds. -/
theorem filter_inits (s : List Char) :
    s.inits.filter (IsField ·) = ((field? s).map Prod.fst).toList := by
  have hfield : ∀ t ∈ s.inits, IsField t → ∃ r, field? s = some (t, r) := by
    intro t ht hf
    obtain ⟨r, rfl⟩ := (List.mem_inits t s).1 ht
    exact ⟨r, hf.field? r⟩
  cases h : field? s with
  | none =>
    rw [Option.map_none, Option.toList_none, List.filter_eq_nil_iff]
    intro t ht hf
    obtain ⟨r, hr⟩ := hfield t ht (of_decide_eq_true hf)
    rw [h] at hr
    cases hr
  | some x =>
    obtain ⟨t, r⟩ := x
    obtain ⟨ht, he⟩ := field?_eq_some_iff.1 h
    have hmem : t ∈ s.inits := (List.mem_inits t s).2 ⟨r, he.symm⟩
    have hcongr : s.inits.filter (IsField ·) = s.inits.filter (· = t) := by
      refine List.filter_congr fun u hu => ?_
      rw [decide_eq_decide]
      constructor
      · intro hf
        obtain ⟨r', hr'⟩ := hfield u hu hf
        rw [h, Option.some.injEq, Prod.mk.injEq] at hr'
        exact hr'.1.symm
      · rintro rfl
        exact ht
    rw [hcongr, List.filter_eq, List.count_eq_one_of_mem (nodup_inits s) hmem]
    rfl

theorem occurrences_cons (c : Char) (s : List Char) :
    occurrences (c :: s) = ((field? (c :: s)).map Prod.fst).toList ++ occurrences s := by
  rw [occurrences, List.tails_cons, List.flatMap_cons, filter_inits, occurrences]

/-- **The fields that are found are all runs that are fields.** -/
theorem fields_eq_occurrences (s : List Char) : fields s = occurrences s := by
  induction s with
  | nil => decide
  | cons c s ih =>
    rw [occurrences_cons, ← ih]
    cases h : field? (c :: s) with
    | none => rw [fields_plain h, Option.map_none, Option.toList_none, List.nil_append]
    | some x =>
      obtain ⟨t, r⟩ := x
      obtain ⟨ht, he⟩ := field?_eq_some_iff.1 h
      obtain ⟨d, b, rfl⟩ := List.exists_cons_of_length_pos (field?_eq_some h).2
      rw [List.cons_append, List.cons.injEq] at he
      obtain ⟨rfl, rfl⟩ := he
      -- the scanner goes on behind the field, and the runs with its second character
      have hfields : fields (c :: (b ++ r)) = (c :: b) :: fields r := ht.fields r
      have hskip : fields (b ++ r) = fields r :=
        fields_suffix ht (List.suffix_cons c b) (List.cons_ne_self c b).symm r
      rw [hfields, hskip]
      rfl

/-- **The scan is exhaustive.** It lists every run of the text that is a merge field, from left to
right. None of them overlap, and a map over the characters of a text copies each of them. -/
theorem scan_exhaustive (s : String) :
    tokens s = (occurrences s.toList).map String.ofList ∧
      ∀ p t r, Stands s.toList p t r →
        (∀ p' t' r', Stands s.toList p' t' r' →
          (p' = p ∧ t' = t) ∨ (p ++ t).length ≤ p'.length ∨ (p' ++ t').length ≤ p.length) ∧
        ∀ f, mapPlain f s.toList = mapPlain f p ++ (t ++ mapPlain f r) := by
  refine ⟨by rw [tokens_eq_map_fields, fields_eq_occurrences], fun p t r h => ⟨?_, fun f => ?_⟩⟩
  · exact fun p' t' r' h' => h.disjoint h'
  · rw [mapPlain, h.parts_eq, List.flatMap_append, List.flatMap_cons]
    rfl

/-- Two fields with braces of neither around them. -/
def crowdedFields : String :=
  "\x7b\x7b\x7ba\x7d\x7d\x7d\x7b\x7b b.c \x7d\x7d"

/-- Both fields are found, and stand apart. -/
theorem scan_exhaustive_crowdedFields :
    tokens crowdedFields = (occurrences crowdedFields.toList).map String.ofList ∧
      ∃ p t r p' t' r', Stands crowdedFields.toList p t r ∧ Stands crowdedFields.toList p' t' r' ∧
        (p ++ t).length < p'.length ∧
        ((p' = p ∧ t' = t) ∨ (p ++ t).length ≤ p'.length ∨ (p' ++ t').length ≤ p.length) ∧
        ∀ f, mapPlain f crowdedFields.toList = mapPlain f p ++ (t ++ mapPlain f r) := by
  obtain ⟨htokens, hfields⟩ := scan_exhaustive crowdedFields
  have hfirst : Stands crowdedFields.toList ['\x7b'] "\x7b\x7ba\x7d\x7d".toList
      "\x7d\x7b\x7b b.c \x7d\x7d".toList := ⟨by decide, rfl⟩
  have hsecond : Stands crowdedFields.toList "\x7b\x7b\x7ba\x7d\x7d\x7d".toList
      "\x7b\x7b b.c \x7d\x7d".toList [] := ⟨by decide, rfl⟩
  obtain ⟨hdisjoint, hmap⟩ := hfields _ _ _ hfirst
  exact ⟨htokens, _, _, _, _, _, _, hfirst, hsecond, by decide, hdisjoint _ _ _ hsecond, hmap⟩

end MailBlocks.MergeField
