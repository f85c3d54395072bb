import MailBlocks.MergeField

/-!
# The grammar of merge fields

What the scanner finds at the front of a text is a field of a grammar that says nothing about
scanning. A text is then its fields and plain characters, and a rewriting of characters that no
field begins with leaves the fields alone that it does not touch.

* `field?_eq_some_iff`: the scanner finds exactly the fields of the grammar.
* `parts_induction`: induction along the parts of a text.
* `mapPlain_eq_flatMap`: a map that fixes the characters of fields needs no parts.
* `fields_flatMap`: the fields of a rewritten text.
-/

namespace MailBlocks.MergeField

open Text

/-- **A dotted name**, or what is left of one; `fresh` holds where a name has to begin. -/
inductive Path : Bool → List Char → Prop where
  | done : Path false []
  | first {c : Char} {p : List Char} (hc : isNameStart c) (hp : Path false p) : Path true (c :: p)
  | dot {p : List Char} (hp : Path true p) : Path false ('.' :: p)
  | more {c : Char} {p : List Char} (hc : isNameChar c) (hp : Path false p) : Path false (c :: p)

/-- **A merge field**: a dotted name with blanks around it, between double braces. -/
def IsField (t : List Char) : Prop :=
  ∃ b p e : List Char, (∀ c ∈ b, isBlank c) ∧ Path true p ∧ (∀ c ∈ e, isBlank c) ∧
    t = '\x7b' :: '\x7b' :: (b ++ (p ++ (e ++ ['\x7d', '\x7d'])))

/-- The characters that fields are made of. -/
def isFieldChar (c : Char) : Bool :=
  c = '\x7b' || c = '\x7d' || c = '.' || isBlank c || isNameChar c

/-- The merge fields of a text in order. -/
def fields (s : List Char) : List (List Char) :=
  (parts s).filterMap fun
    | .field t => some t
    | .plain _ => none

theorem tokens_eq_map_fields (s : String) : tokens s = (fields s.toList).map String.ofList := by
  unfold tokens fields
  rw [List.map_filterMap]
  congr 1
  funext p
  cases p <;> rfl

/-! ## Characters -/

theorem isNameChar_of_isNameStart {c : Char} (h : isNameStart c) : isNameChar c := by
  simp only [isNameStart, isNameChar, Char.isAlphanum, Bool.or_eq_true] at h ⊢
  rcases h with h | h
  · exact .inl (.inl h)
  · exact .inr h

theorem isUpper_iff {c : Char} : c.isUpper ↔ 65 ≤ c.toNat ∧ c.toNat ≤ 90 := by
  change decide (65 ≤ c.val ∧ c.val ≤ 90) = true ↔ _
  rw [decide_eq_true_eq]
  rfl

theorem isLower_iff {c : Char} : c.isLower ↔ 97 ≤ c.toNat ∧ c.toNat ≤ 122 := by
  change (decide (97 ≤ c.val) && decide (c.val ≤ 122)) = true ↔ _
  rw [Bool.and_eq_true, decide_eq_true_eq, decide_eq_true_eq]
  rfl

theorem isNameChar_iff {c : Char} :
    isNameChar c ↔ c.isUpper ∨ c.isLower ∨ c.isDigit ∨ c = '_' := by
  change (((c.isUpper || c.isLower) || c.isDigit) || decide (c = '_')) = true ↔ _
  rw [Bool.or_eq_true, Bool.or_eq_true, Bool.or_eq_true, decide_eq_true_eq, or_assoc, or_assoc]

/-- No character of a name is blank. -/
theorem not_isBlank_of_isNameChar {c : Char} (h : isNameChar c) : ¬ isBlank c := by
  intro hb
  simp only [isBlank, Bool.or_eq_true, Bool.and_eq_true, decide_eq_true_eq, beq_iff_eq] at hb
  rw [isNameChar_iff, isUpper_iff, isLower_iff, Char.isDigit_iff_toNat] at h
  rcases h with h | h | ⟨h1, h2⟩ | rfl
  · omega
  · omega
  · have h1' : 48 ≤ c.toNat := h1
    have h2' : c.toNat ≤ 57 := h2
    omega
  · revert hb
    decide

/-- Characters that neither a dotted name nor the end of a field can go on from. -/
def endsPath (r : List Char) : Prop :=
  ∀ c s, r = c :: s → c ≠ '.' ∧ ¬ isNameChar c

theorem endsPath_append {e r : List Char} (he : ∀ c ∈ e, isBlank c) :
    endsPath (e ++ '\x7d' :: r) := by
  intro c s h
  cases e with
  | nil =>
    simp only [List.nil_append, List.cons.injEq] at h
    rw [← h.1]
    decide
  | cons d e =>
    simp only [List.cons_append, List.cons.injEq] at h
    have hd : isBlank c := h.1 ▸ he d (by simp)
    refine ⟨?_, fun hn => not_isBlank_of_isNameChar hn hd⟩
    rintro rfl
    exact absurd hd (by decide)

/-! ## What the scanner finds -/

/-- The scanner reads a dotted name, and all of it. -/
theorem path_of_path? {fresh : Bool} {s p r : List Char} (h : path? fresh s = some (p, r)) :
    Path fresh p ∧ endsPath r := by
  induction s generalizing fresh p r with
  | nil =>
    cases fresh with
    | true => simp [path?] at h
    | false =>
      simp only [path?, Bool.false_eq_true, if_false, Option.some.injEq, Prod.mk.injEq] at h
      rw [← h.1, ← h.2]
      exact ⟨.done, fun c s h => by simp at h⟩
  | cons c s ih =>
    have step : ∀ {b : Bool}, (path? b s).map (fun q => (c :: q.1, q.2)) = some (p, r) →
        ∃ p', p = c :: p' ∧ Path b p' ∧ endsPath r := by
      intro b hb
      obtain ⟨⟨p', r'⟩, hp, he⟩ := Option.map_eq_some_iff.1 hb
      simp only [Prod.mk.injEq] at he
      obtain ⟨rfl, rfl⟩ := he
      exact ⟨p', rfl, ih hp⟩
    simp only [path?] at h
    split at h
    · next hf =>
      subst hf
      split at h
      · next hc =>
        obtain ⟨p', rfl, hp, hr⟩ := step h
        exact ⟨.first hc hp, hr⟩
      · simp at h
    · next hf =>
      rw [Bool.not_eq_true] at hf
      subst hf
      split at h
      · next hc =>
        obtain ⟨p', rfl, hp, hr⟩ := step h
        exact ⟨hc ▸ .dot hp, hr⟩
      · next hd =>
        split at h
        · next hc =>
          obtain ⟨p', rfl, hp, hr⟩ := step h
          exact ⟨.more hc hp, hr⟩
        · next hc =>
          simp only [Option.some.injEq, Prod.mk.injEq] at h
          rw [← h.1, ← h.2]
          refine ⟨.done, fun d t he => ?_⟩
          simp only [List.cons.injEq] at he
          rw [← he.1]
          exact ⟨hd, hc⟩

theorem path?_append {fresh : Bool} {p r : List Char} (hp : Path fresh p) (hr : endsPath r) :
    path? fresh (p ++ r) = some (p, r) := by
  induction hp with
  | done =>
    cases r with
    | nil => rfl
    | cons c r =>
      obtain ⟨hd, hc⟩ := hr c r rfl
      simp [path?, hd, hc]
  | first hc _ ih => simp [path?, hc, ih]
  | dot _ ih => simp [path?, ih]
  | @more c p hc _ ih =>
    -- the scanner looks for a dot first
    have hd : c ≠ '.' := by
      rintro rfl
      exact absurd hc (by decide)
    simp [path?, hd, hc, ih]

theorem takeWhile_isBlank_append {b s : List Char} (hb : ∀ c ∈ b, isBlank c)
    (hs : s.takeWhile isBlank = []) : (b ++ s).takeWhile isBlank = b := by
  rw [List.takeWhile_append_of_pos hb, hs, List.append_nil]

theorem Path.takeWhile_isBlank {p r : List Char} (hp : Path true p) :
    (p ++ r).takeWhile isBlank = [] := by
  cases hp with
  | first hc _ =>
    simp [not_isBlank_of_isNameChar (isNameChar_of_isNameStart hc)]

theorem dropWhile_eq_of_takeWhile {s : List Char} (h : s.takeWhile isBlank = []) :
    s.dropWhile isBlank = s := by
  have := List.takeWhile_append_dropWhile (p := isBlank) (l := s)
  rwa [h, List.nil_append] at this

/-- **The scanner finds exactly the fields of the grammar.** -/
theorem field?_eq_some_iff {s t r : List Char} :
    field? s = some (t, r) ↔ IsField t ∧ s = t ++ r := by
  constructor
  · intro h
    refine ⟨?_, (field?_eq_some h).1⟩
    simp only [field?, Option.bind_eq_bind, Option.bind_eq_some_iff] at h
    obtain ⟨s', -, ⟨name, r'⟩, hname, rest', -, he⟩ := h
    simp only [Option.pure_def, Option.some.injEq, Prod.mk.injEq] at he
    refine ⟨s'.takeWhile isBlank, name, r'.takeWhile isBlank, ?_, (path_of_path? hname).1, ?_, ?_⟩
    · exact fun c hc => List.all_eq_true.1 List.all_takeWhile c hc
    · exact fun c hc => List.all_eq_true.1 List.all_takeWhile c hc
    · rw [← he.1]
      simp
  · rintro ⟨⟨b, p, e, hb, hp, he, rfl⟩, rfl⟩
    -- the blanks end where the name begins, the name where blanks or braces do, and the blanks
    -- behind it where the braces begin
    have h1 := hp.takeWhile_isBlank (r := e ++ '\x7d' :: '\x7d' :: r)
    have h2 : ('\x7d' :: '\x7d' :: r).takeWhile isBlank = [] := by
      rw [List.takeWhile_cons_of_neg (by decide)]
    have h3 := path?_append hp (endsPath_append (r := '\x7d' :: r) he)
    simp only [field?, List.cons_append, List.append_assoc, List.nil_append, dropLead, if_true,
      Option.bind_eq_bind, Option.bind_some, List.dropWhile_append_of_pos hb,
      dropWhile_eq_of_takeWhile h1, h3, List.dropWhile_append_of_pos he,
      dropWhile_eq_of_takeWhile h2, takeWhile_isBlank_append hb h1,
      takeWhile_isBlank_append he h2]
    rfl

/-- A field at the front is found whatever follows. -/
theorem IsField.field? {t : List Char} (ht : IsField t) (r : List Char) :
    field? (t ++ r) = some (t, r) :=
  field?_eq_some_iff.2 ⟨ht, rfl⟩

theorem isField_of_field? {s t r : List Char} (h : field? s = some (t, r)) :
    IsField t :=
  (field?_eq_some_iff.1 h).1

/-- Text that does not begin with two braces begins with no field. -/
theorem field?_eq_none {c d : Char} {s : List Char} (h : c ≠ '\x7b' ∨ d ≠ '\x7b') :
    field? (c :: d :: s) = none := by
  cases hf : field? (c :: d :: s) with
  | none => rfl
  | some x =>
    obtain ⟨t, r⟩ := x
    obtain ⟨⟨b, p, e, -, -, -, rfl⟩, hs⟩ := field?_eq_some_iff.1 hf
    simp only [List.cons_append, List.cons.injEq] at hs
    rcases h with h | h
    · exact absurd hs.1 h
    · exact absurd hs.2.1 h

/-- No field begins with another character than a brace. -/
theorem field?_cons_of_ne {c : Char} (h : c ≠ '\x7b') (s : List Char) : field? (c :: s) = none := by
  cases s with
  | nil => simp [field?, dropLead, Ne.symm h]
  | cons d s => exact field?_eq_none (.inl h)

/-! ## The characters of a field -/

theorem Path.isNameChar_or_dot {fresh : Bool} {p : List Char} (hp : Path fresh p) :
    ∀ c ∈ p, c = '.' ∨ isNameChar c := by
  induction hp with
  | done => simp
  | first hc _ ih =>
    exact List.forall_mem_cons.2 ⟨.inr (isNameChar_of_isNameStart hc), ih⟩
  | dot _ ih => exact List.forall_mem_cons.2 ⟨.inl rfl, ih⟩
  | more hc _ ih => exact List.forall_mem_cons.2 ⟨.inr hc, ih⟩

/-- What stands between the braces of a field: at least one character, and no brace. -/
theorem IsField.inner {t : List Char} (ht : IsField t) :
    ∃ m : List Char, t = '\x7b' :: '\x7b' :: (m ++ ['\x7d', '\x7d']) ∧ m ≠ [] ∧
      ∀ c ∈ m, c = '.' ∨ isBlank c ∨ isNameChar c := by
  obtain ⟨b, p, e, hb, hp, he, rfl⟩ := ht
  refine ⟨b ++ (p ++ e), by simp, ?_, ?_⟩
  · cases hp
    simp
  · intro c hc
    rcases List.mem_append.1 hc with hc | hc
    · exact .inr (.inl (hb c hc))
    rcases List.mem_append.1 hc with hc | hc
    · rcases hp.isNameChar_or_dot c hc with h | h
      · exact .inl h
      · exact .inr (.inr h)
    · exact .inr (.inl (he c hc))

theorem IsField.getLast? {t : List Char} (ht : IsField t) : t.getLast? = some '\x7d' := by
  obtain ⟨m, rfl, -⟩ := ht.inner
  simp [List.getLast?_append, List.getLast?_cons]

theorem not_brace_of_inner {c : Char} (h : c = '.' ∨ isBlank c ∨ isNameChar c) :
    c ≠ '\x7b' ∧ c ≠ '\x7d' := by
  constructor <;>
  · rintro rfl
    revert h
    decide

theorem IsField.isFieldChar {t : List Char} (ht : IsField t) : ∀ c ∈ t, isFieldChar c := by
  obtain ⟨m, rfl, -, hm⟩ := ht.inner
  intro c hc
  simp only [MergeField.isFieldChar, Bool.or_eq_true, decide_eq_true_eq]
  simp only [List.mem_cons, List.mem_append, List.not_mem_nil, or_false] at hc
  rcases hc with hc | hc | hc | hc | hc
  · simp [hc]
  · simp [hc]
  · rcases hm c hc with h | h | h <;> simp [h]
  · simp [hc]
  · simp [hc]

/-! ## The parts of a text -/

theorem IsField.parts {t : List Char} (ht : IsField t) (r : List Char) :
    parts (t ++ r) = .field t :: parts r :=
  parts_of_field (ht.field? r)

/-- **Induction along the parts of a text.** -/
theorem parts_induction {motive : List Char → Prop} (nil : motive [])
    (field : ∀ t r, IsField t → motive r → motive (t ++ r))
    (plain : ∀ c s, field? (c :: s) = none → motive s → motive (c :: s))
    (s : List Char) : motive s := by
  -- the induction is on a bound of the length, since a field is taken as a whole
  suffices h : ∀ n, ∀ s : List Char, s.length ≤ n → motive s from h s.length s (Nat.le_refl _)
  intro n
  induction n with
  | zero =>
    intro s hs
    rwa [List.length_eq_zero_iff.1 (Nat.le_zero.1 hs)]
  | succ n ih =>
    intro s hs
    cases s with
    | nil => exact nil
    | cons c s =>
      cases h : field? (c :: s) with
      | none => exact plain c s h (ih s (by simpa using hs))
      | some x =>
        obtain ⟨t, r⟩ := x
        obtain ⟨he, hlen⟩ := field?_eq_some h
        have hl := congrArg List.length he
        simp only [List.length_append] at hl
        rw [he]
        exact field t r (isField_of_field? h) (ih r (by omega))

section

variable (f : Char → List Char)

theorem mapPlain_field {t : List Char} (ht : IsField t) (r : List Char) :
    mapPlain f (t ++ r) = t ++ mapPlain f r := by
  simp only [mapPlain, ht.parts, List.flatMap_cons]

theorem mapPlain_plain {c : Char} {s : List Char} (h : field? (c :: s) = none) :
    mapPlain f (c :: s) = f c ++ mapPlain f s := by
  simp only [mapPlain, parts_of_plain h, List.flatMap_cons]

variable {f}

theorem flatMap_eq_self {t : List Char} (h : ∀ c ∈ t, f c = [c]) : t.flatMap f = t := by
  induction t with
  | nil => rfl
  | cons c t ih =>
    obtain ⟨hc, ht⟩ := List.forall_mem_cons.1 h
    rw [List.flatMap_cons, hc, ih ht, List.singleton_append]

/-- **A map that fixes the characters of fields** goes over a text character by character. -/
theorem mapPlain_eq_flatMap (hf : ∀ c, isFieldChar c → f c = [c]) (s : List Char) :
    mapPlain f s = s.flatMap f := by
  induction s using parts_induction with
  | nil => rfl
  | field t r ht ih =>
    rw [mapPlain_field f ht, ih, List.flatMap_append,
      flatMap_eq_self fun c hc => hf c (ht.isFieldChar c hc)]
  | plain c s h ih => rw [mapPlain_plain f h, ih, List.flatMap_cons]

/-- Where no field can begin, any map goes over a text character by character. -/
theorem mapPlain_of_not_mem {s : List Char} (h : '\x7b' ∉ s) : mapPlain f s = s.flatMap f := by
  induction s with
  | nil => rfl
  | cons c s ih =>
    obtain ⟨hc, hs⟩ := not_or.1 (mt List.mem_cons.2 h)
    rw [mapPlain_plain f (field?_cons_of_ne (Ne.symm hc) s), ih hs, List.flatMap_cons]

end

/-! ## The fields of a text -/

theorem IsField.fields {t : List Char} (ht : IsField t) (r : List Char) :
    fields (t ++ r) = t :: fields r := by
  simp only [MergeField.fields, ht.parts, List.filterMap_cons]

theorem fields_plain {c : Char} {s : List Char} (h : field? (c :: s) = none) :
    fields (c :: s) = fields s := by
  simp only [fields, parts_of_plain h, List.filterMap_cons]

theorem isField_of_mem_fields {s t : List Char} (h : t ∈ fields s) : IsField t := by
  induction s using parts_induction with
  | nil => simp [fields, parts_nil] at h
  | field t' r ht ih =>
    rw [ht.fields, List.mem_cons] at h
    rcases h with rfl | h
    · exact ht
    · exact ih h
  | plain c s hf ih => exact ih (fields_plain hf ▸ h)

theorem fields_cons_of_ne {c : Char} (h : c ≠ '\x7b') (s : List Char) :
    fields (c :: s) = fields s :=
  fields_plain (field?_cons_of_ne h s)

/-- Text without an opening brace adds no field to what follows. -/
theorem fields_append_of_not_mem {w : List Char} (h : '\x7b' ∉ w) (s : List Char) :
    fields (w ++ s) = fields s := by
  induction w with
  | nil => rfl
  | cons c w ih =>
    simp only [List.mem_cons, not_or] at h
    rw [List.cons_append, fields_cons_of_ne (Ne.symm h.1), ih h.2]

/-- Text without a closing brace has no field. -/
theorem fields_of_not_mem_close {e : List Char} (he : '\x7d' ∉ e) : fields e = [] := by
  induction e using parts_induction with
  | nil => rfl
  | field t r ht _ =>
    obtain ⟨m, rfl, -⟩ := ht.inner
    simp at he
  | plain c s h ih =>
    rw [fields_plain h, ih fun hm => he (List.mem_cons_of_mem _ hm)]

/-- A field does not reach into text without a closing brace. -/
theorem IsField.left_of_append {t s e r : List Char} (ht : IsField t) (he : '\x7d' ∉ e)
    (h : s ++ e = t ++ r) : ∃ r', s = t ++ r' := by
  rcases List.append_eq_append_iff.1 h with ⟨x, hx, hr⟩ | ⟨x, hx, -⟩
  · rcases List.eq_nil_or_concat x with rfl | ⟨x, c, rfl⟩
    · exact ⟨[], by simpa using hx.symm⟩
    -- the last character of the field would be in `e`
    · have hc : c = '\x7d' := by
        have := hx ▸ ht.getLast?
        simpa using this
      exact absurd (by rw [hr, hc]; simp) he
  · exact ⟨x, hx⟩

/-- A field that begins in front of text without a closing brace begins there without it as well. -/
theorem field?_append_eq_none {e s : List Char} (he : '\x7d' ∉ e) (h : field? s = none) :
    field? (s ++ e) = none := by
  cases hf : field? (s ++ e) with
  | none => rfl
  | some x =>
    obtain ⟨t, r⟩ := x
    obtain ⟨ht, hx⟩ := field?_eq_some_iff.1 hf
    obtain ⟨r', hr⟩ := ht.left_of_append he hx
    rw [hr, ht.field?] at h
    simp at h

/-- Text without a closing brace adds no field to what stands before it. -/
theorem fields_append_of_not_mem_close {e : List Char} (he : '\x7d' ∉ e) (s : List Char) :
    fields (s ++ e) = fields s := by
  induction s using parts_induction with
  | nil => exact fields_of_not_mem_close he
  | field t r ht ih => rw [List.append_assoc, ht.fields, ht.fields, ih]
  | plain c s h ih =>
    have happend : field? (c :: (s ++ e)) = none := field?_append_eq_none he h
    rw [List.cons_append, fields_plain h, fields_plain happend, ih]

theorem trimBlank_append (s : List Char) :
    ∃ b e : List Char, s = b ++ (trimBlank s ++ e) ∧ (∀ c ∈ b, isBlank c) ∧
      ∀ c ∈ e, isBlank c := by
  refine ⟨s.takeWhile isBlank, ((s.dropWhile isBlank).reverse.takeWhile isBlank).reverse, ?_, ?_, ?_⟩
  · rw [trimBlank, ← List.reverse_append, List.takeWhile_append_dropWhile, List.reverse_reverse,
      List.takeWhile_append_dropWhile]
  · exact List.all_eq_true.1 List.all_takeWhile
  · intro c hc
    exact List.all_eq_true.1 List.all_takeWhile c (List.mem_reverse.1 hc)

/-- Trimming takes no field away. -/
theorem fields_trimBlank (s : List Char) : fields (trimBlank s) = fields s := by
  obtain ⟨b, e, hs, hb, he⟩ := trimBlank_append s
  have hb' : '\x7b' ∉ b := fun h => absurd (hb _ h) (by decide)
  have he' : '\x7d' ∉ e := fun h => absurd (he _ h) (by decide)
  calc fields (trimBlank s) = fields (b ++ (trimBlank s ++ e)) := by
        rw [fields_append_of_not_mem hb', fields_append_of_not_mem_close he']
    _ = fields s := by rw [← hs]

/-- **A rewriting apart from fields**: a character is kept, or written as characters that bring in
no opening brace and of which the first belongs to no field. -/
def Rewrites (g : Char → List Char) : Prop :=
  ∀ c, g c = [c] ∨ ∃ d w, g c = d :: w ∧ ¬ isFieldChar d ∧ '\x7b' ∉ d :: w

/-- The characters that a rewriting keeps. -/
def keeps (g : Char → List Char) (c : Char) : Bool := g c = [c]

variable {g : Char → List Char}

/-- A run of field characters in front of a rewritten text stood there before. -/
theorem Rewrites.of_flatMap_eq_append (hg : Rewrites g) {t s r : List Char}
    (ht : ∀ c ∈ t, isFieldChar c) (h : s.flatMap g = t ++ r) :
    ∃ s', s = t ++ s' ∧ r = s'.flatMap g ∧ t.all (keeps g) := by
  induction t generalizing s with
  | nil => exact ⟨s, rfl, h.symm, rfl⟩
  | cons c t ih =>
    obtain ⟨hc, ht'⟩ := List.forall_mem_cons.1 ht
    cases s with
    | nil => simp at h
    | cons d s =>
      rw [List.flatMap_cons, List.cons_append] at h
      rcases hg d with hd | ⟨e, w, hd, he, -⟩
      · rw [hd, List.singleton_append, List.cons.injEq] at h
        obtain ⟨rfl, h⟩ := h
        obtain ⟨s', rfl, hr, hk⟩ := ih ht' h
        exact ⟨s', rfl, hr, by rw [List.all_cons, hk, keeps, hd]; simp⟩
      -- what is written for `d` begins with a character of no field
      · rw [hd, List.cons_append, List.cons.injEq] at h
        exact absurd (h.1 ▸ hc) he

/-- The field at the front of a rewritten text is the one before, if all of it is kept. -/
theorem Rewrites.field?_flatMap (hg : Rewrites g) {s t r : List Char}
    (h : field? (s.flatMap g) = some (t, r)) :
    ∃ s', field? s = some (t, s') ∧ t.all (keeps g) := by
  obtain ⟨ht, he⟩ := field?_eq_some_iff.1 h
  obtain ⟨s', rfl, -, hk⟩ := hg.of_flatMap_eq_append ht.isFieldChar he
  exact ⟨s', ht.field? s', hk⟩

/-- Rewriting brings in no opening brace. -/
theorem Rewrites.not_mem_flatMap (hg : Rewrites g) {w : List Char} (h : '\x7b' ∉ w) :
    '\x7b' ∉ w.flatMap g := by
  intro hm
  obtain ⟨c, hc, hm⟩ := List.mem_flatMap.1 hm
  rcases hg c with hk | ⟨d, v, hk, -, hb⟩
  · rw [hk, List.mem_singleton] at hm
    exact h (hm ▸ hc)
  · exact hb (hk ▸ hm)

theorem Rewrites.flatMap_ne_nil (hg : Rewrites g) {w : List Char} (h : w ≠ []) :
    w.flatMap g ≠ [] := by
  obtain ⟨c, w, rfl⟩ := List.exists_cons_of_ne_nil h
  rcases hg c with hc | ⟨d, v, hc, -⟩ <;> simp [hc]

/-- A brace before text without an opening brace begins no field. -/
theorem field?_brace {n : List Char} (hne : n ≠ []) (hn : '\x7b' ∉ n) (s : List Char) :
    field? ('\x7b' :: (n ++ s)) = none := by
  obtain ⟨d, n, rfl⟩ := List.exists_cons_of_ne_nil hne
  exact field?_eq_none (.inr fun h => hn (by simp [h]))

/-- A field that is rewritten somewhere is no field any more, and holds none. -/
theorem Rewrites.fields_flatMap_of_changed (hg : Rewrites g) {t : List Char} (ht : IsField t)
    (hk : ¬ t.all (keeps g)) (r : List Char) :
    fields ((t ++ r).flatMap g) = fields (r.flatMap g) := by
  obtain ⟨m, hm, -, hin⟩ := ht.inner
  obtain ⟨n, hn⟩ : ∃ n, n = (m ++ ['\x7d', '\x7d']).flatMap g := ⟨_, rfl⟩
  have hnb : '\x7b' ∉ n := by
    rw [hn]
    refine hg.not_mem_flatMap fun h => ?_
    rcases List.mem_append.1 h with h | h
    · exact (not_brace_of_inner (hin _ h)).1 rfl
    · exact absurd h (by decide)
  have hne : n ≠ [] := hn ▸ hg.flatMap_ne_nil (by simp)
  rcases hg '\x7b' with hb | ⟨d, w, hb, -, hw⟩
  · have he : (t ++ r).flatMap g = '\x7b' :: '\x7b' :: (n ++ r.flatMap g) := by
      simp only [hm, hn, List.flatMap_append, List.flatMap_cons, hb, List.cons_append,
        List.nil_append]
    -- only the field itself could begin at the first brace, and none at the second
    have h1 : field? ('\x7b' :: '\x7b' :: (n ++ r.flatMap g)) = none := by
      cases hf : field? ('\x7b' :: '\x7b' :: (n ++ r.flatMap g)) with
      | none => rfl
      | some x =>
        obtain ⟨t', r'⟩ := x
        obtain ⟨s', hs', hk'⟩ := hg.field?_flatMap (he ▸ hf)
        rw [ht.field?, Option.some.injEq, Prod.mk.injEq] at hs'
        exact absurd (hs'.1 ▸ hk') hk
    rw [he, fields_plain h1, fields_plain (field?_brace hne hnb _), fields_append_of_not_mem hnb]
  · have he : (t ++ r).flatMap g = (d :: w ++ (d :: w ++ n)) ++ r.flatMap g := by
      simp only [hm, hn, List.flatMap_append, List.flatMap_cons, hb, List.append_assoc]
    rw [he, fields_append_of_not_mem]
    simp only [List.mem_append, not_or]
    exact ⟨hw, hw, hnb⟩

/-- **The fields of a rewritten text** are those that the rewriting keeps whole. -/
theorem Rewrites.fields_flatMap (hg : Rewrites g) (s : List Char) :
    fields (s.flatMap g) = (fields s).filter fun t => t.all (keeps g) := by
  induction s using parts_induction with
  | nil => rfl
  | field t r ht ih =>
    rw [ht.fields, List.filter_cons]
    split
    · next hk =>
      have : t.flatMap g = t :=
        flatMap_eq_self fun c hc => of_decide_eq_true (List.all_eq_true.1 hk c hc)
      rw [List.flatMap_append, this, ht.fields, ih]
    · next hk => rw [hg.fields_flatMap_of_changed ht hk, ih]
  | plain c s h ih =>
    rw [fields_plain h, ← ih, List.flatMap_cons]
    rcases hg c with hk | ⟨d, w, hk, -, hb⟩
    · rw [hk, List.singleton_append]
      refine fields_plain ?_
      -- a field at the front of the rewritten text would be at the front of `c :: s`
      cases hf : field? (c :: s.flatMap g) with
      | none => rfl
      | some x =>
        have he : c :: s.flatMap g = (c :: s).flatMap g := by simp [hk]
        obtain ⟨s', hs', -⟩ := hg.field?_flatMap (he ▸ hf : _ = some (x.1, x.2))
        rw [h] at hs'
        exact absurd hs' (by simp)
    · rw [hk, fields_append_of_not_mem hb]

end MailBlocks.MergeField
