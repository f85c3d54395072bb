import Mathlib.Data.List.TakeWhile
import MailBlocks.Json.Lexeme

/-!
# The grammar of strings and numbers

What strings and numbers look like in a JSON text, said without the readers: a string may spell each
of its characters in several ways, and a number is a whole part with decimals, an exponent or both.
The readers take what the grammar allows and nothing else, and what follows a form does not change
what the form stands for.

* `DenotesString`: the spellings of a string.
* `DenotesNumber`: the spellings of a number.
* `denotesString_of_stringBody`, `DenotesString.read`: strings are read by their grammar.
* `number_takesForm`: so are numbers.
-/

namespace MailBlocks.Json

/-! ## Strings -/

/-- **A spelling of one character** of a string: the character itself, a short escape, an escape by
number, or two of these for a pair of surrogates. -/
inductive DenotesChar : List Char → Char → Prop where
  | plain {c : Char} (hquote : c ≠ '"') (hescape : c ≠ '\\') (hcontrol : 0x20 ≤ c.toNat) :
      DenotesChar [c] c
  | short {e c : Char} (h : shortEscape? e = some c) : DenotesChar ['\\', e] c
  | number {a b c d : Char} {n : Nat} (h : hexQuad? a b c d = some n) (hlow : ¬ isLowSurrogate n)
      (hhigh : ¬ isHighSurrogate n) : DenotesChar ['\\', 'u', a, b, c, d] (Char.ofNat n)
  | pair {a b c d a' b' c' d' : Char} {m n : Nat} (hm : hexQuad? a b c d = some m)
      (hn : hexQuad? a' b' c' d' = some n) (hhigh : isHighSurrogate m) (hlow : isLowSurrogate n) :
      DenotesChar ['\\', 'u', a, b, c, d, '\\', 'u', a', b', c', d'] (pairedChar m n)

/-- Spelled characters up to the closing quote. -/
inductive DenotesBody : List Char → List Char → Prop where
  | close : DenotesBody ['"'] []
  | char {p s : List Char} {c : Char} {cs : List Char} (h : DenotesChar p c)
      (hs : DenotesBody s cs) : DenotesBody (p ++ s) (c :: cs)

theorem not_isLowSurrogate {n : Nat} (h : isHighSurrogate n) : ¬ isLowSurrogate n := by
  simp only [isHighSurrogate, isLowSurrogate, Bool.and_eq_true, decide_eq_true_eq] at h ⊢
  omega

theorem stringBody_of_denotesChar {p : List Char} {c : Char} (h : DenotesChar p c)
    (done s : List Char) : stringBody done (p ++ s) = stringBody (c :: done) s := by
  cases h with
  | plain hquote hescape hcontrol =>
    rw [List.singleton_append, stringBody]
    · rw [if_neg (by omega)]
    all_goals simp_all
  | @short e c h =>
    have hu : e ≠ 'u' := by
      rintro rfl
      cases h
    rw [List.cons_append, List.singleton_append, stringBody]
    · rw [h]
    all_goals simp_all
  | number h hlow hhigh => simp [stringBody, h, hlow, hhigh]
  | pair hm hn hhigh hlow =>
    have hm' := not_isLowSurrogate hhigh
    simp [stringBody, hm, hn, hhigh, hlow, hm']

/-- Spelled characters are read up to the closing quote. -/
theorem stringBody_of_denotesBody {s cs : List Char} (h : DenotesBody s cs) (done r : List Char) :
    stringBody done (s ++ r) = .ok (String.ofList (done.reverse ++ cs), r) := by
  induction h generalizing done with
  | close => simp [stringBody]
  | char hchar _ ih =>
    rw [List.append_assoc, stringBody_of_denotesChar hchar, ih]
    simp

theorem badHex_ne_ok {α : Type} (s : List Char) (a : α) : badHex s ≠ .ok a := by
  unfold badHex
  split <;> nofun

/-- **What is read as a string is spelled characters** up to a closing quote. -/
theorem denotesBody_of_stringBody {done s r : List Char} {x : String}
    (h : stringBody done s = .ok (x, r)) :
    ∃ p cs, s = p ++ r ∧ DenotesBody p cs ∧ x = String.ofList (done.reverse ++ cs) := by
  have hstep : ∀ {done p t : List Char} {c : Char}, DenotesChar p c →
      (∃ q cs, t = q ++ r ∧ DenotesBody q cs ∧ x = String.ofList ((c :: done).reverse ++ cs)) →
      ∃ q cs, p ++ t = q ++ r ∧ DenotesBody q cs ∧ x = String.ofList (done.reverse ++ cs) := by
    rintro done p t c hp ⟨q, cs, rfl, hq, rfl⟩
    exact ⟨p ++ q, c :: cs, by simp, .char hp hq, by simp⟩
  fun_induction stringBody done s with
  | case2 done s =>
    obtain ⟨rfl, rfl⟩ := Prod.mk.inj (Except.ok.inj h)
    exact ⟨['"'], [], rfl, .close, by simp⟩
  | case6 done a b c d m hm _ hhigh a' b' c' d' t n hn hlow ih =>
    exact hstep (.pair hm hn hhigh hlow) (ih h)
  | case13 done a b c d s n hn hlow hhigh ih => exact hstep (.number hn hlow hhigh) (ih h)
  | case16 done c s _ _ e he ih => exact hstep (.short he) (ih h)
  | case19 done c s hquote _ _ hend hescape hcontrol ih =>
    have hback : c ≠ '\\' := by
      intro hc
      cases s with
      | nil => exact hend hc rfl
      | cons d s => exact hescape d s hc rfl
    exact hstep (.plain hquote hback (Nat.le_of_not_lt hcontrol)) (ih h)
  -- all other ways to read on are refused
  | case3 | case5 | case8 | case14 => exact absurd h (badHex_ne_ok _ _)
  | _ => cases h

/-- **The spellings of a string.** -/
def DenotesString (s : List Char) (x : String) : Prop :=
  ∃ body, s = '"' :: body ∧ DenotesBody body x.toList

/-- A string is read by any of its spellings, whatever follows. -/
theorem DenotesString.read {s : List Char} {x : String} (h : DenotesString s x) :
    ∃ body, s = '"' :: body ∧ ∀ r, stringBody [] (body ++ r) = .ok (x, r) := by
  obtain ⟨body, rfl, hbody⟩ := h
  refine ⟨body, rfl, fun r => ?_⟩
  rw [stringBody_of_denotesBody hbody, List.reverse_nil, List.nil_append, String.ofList_toList]

/-- What is read as a string behind its opening quote is a spelling of it. -/
theorem denotesString_of_stringBody {s r : List Char} {x : String}
    (h : stringBody [] s = .ok (x, r)) :
    ∃ form, '"' :: s = form ++ r ∧ DenotesString form x := by
  obtain ⟨body, cs, rfl, hbody, rfl⟩ := denotesBody_of_stringBody h
  refine ⟨'"' :: body, rfl, body, rfl, ?_⟩
  rwa [List.reverse_nil, List.nil_append, String.toList_ofList]

/-! ## Numbers -/

/-- At least one decimal digit and nothing else. -/
def IsDigits (s : List Char) : Prop :=
  s ≠ [] ∧ ∀ c ∈ s, c.isDigit

/-- A sign or nothing. -/
def IsSign (s : List Char) : Prop :=
  s = [] ∨ s = ['+'] ∨ s = ['-']

/-- What stands behind the letter of an exponent. -/
def IsScale (s : List Char) : Prop :=
  ∃ sign digits, IsSign sign ∧ IsDigits digits ∧ s = sign ++ digits

/-- An exponent or nothing. -/
def IsExponent (s : List Char) : Prop :=
  s = [] ∨ ∃ e scale, (e = 'e' ∨ e = 'E') ∧ IsScale scale ∧ s = e :: scale

/-- What stands behind the point of a number. -/
def IsDecimals (s : List Char) : Prop :=
  ∃ digits exponent, IsDigits digits ∧ IsExponent exponent ∧ s = digits ++ exponent

/-- The digits of a whole part do not begin with a zero that others follow. -/
def IsWhole (s : List Char) : Prop :=
  IsDigits s ∧ (s.head? = some '0' → s = ['0'])

/-- No digit is ahead. -/
def EndsDigits (r : List Char) : Prop :=
  ∀ c s, r = c :: s → ¬ c.isDigit

/-- What follows a number does not go on it. -/
def EndsNumber (r : List Char) : Prop :=
  ∀ c s, r = c :: s → ¬ c.isDigit ∧ c ≠ '.' ∧ c ≠ 'e' ∧ c ≠ 'E'

theorem EndsNumber.endsDigits {r : List Char} (h : EndsNumber r) : EndsDigits r :=
  fun c s hr => (h c s hr).1

theorem endsDigits_cons {c : Char} (h : ¬ c.isDigit) (s : List Char) : EndsDigits (c :: s) := by
  rintro _ _ ⟨rfl, rfl⟩
  exact h

theorem EndsDigits.takeWhile_append {digits r : List Char} (hr : EndsDigits r)
    (h : ∀ c ∈ digits, c.isDigit) : (digits ++ r).takeWhile Char.isDigit = digits := by
  have hstop : r.takeWhile Char.isDigit = [] := by
    cases r with
    | nil => rfl
    | cons c s => exact List.takeWhile_cons_of_neg (hr c s rfl)
  rw [List.takeWhile_append_of_pos h, hstop, List.append_nil]

theorem EndsDigits.dropWhile_append {digits r : List Char} (hr : EndsDigits r)
    (h : ∀ c ∈ digits, c.isDigit) : (digits ++ r).dropWhile Char.isDigit = r := by
  rw [List.dropWhile_append_of_pos h]
  cases r with
  | nil => rfl
  | cons c s => exact List.dropWhile_cons_of_neg (hr c s rfl)

/-- Where a digit is ahead, a run of digits is. -/
theorem exists_digits {c : Char} (hc : c.isDigit) (s : List Char) :
    ∃ digits r, c :: s = digits ++ r ∧ IsDigits digits ∧ EndsDigits r := by
  refine ⟨(c :: s).takeWhile Char.isDigit, (c :: s).dropWhile Char.isDigit,
    List.takeWhile_append_dropWhile.symm, ⟨?_, fun _ h => List.mem_takeWhile_imp h⟩, ?_⟩
  · rw [List.takeWhile_cons_of_pos hc]
    exact List.cons_ne_nil _ _
  · intro d t ht
    have hhead := List.head?_dropWhile_not Char.isDigit (c :: s)
    rw [ht] at hhead
    simpa using hhead

theorem IsDigits.exists_cons {digits : List Char} (h : IsDigits digits) :
    ∃ c s, digits = c :: s ∧ c.isDigit := by
  obtain ⟨c, s, hs⟩ := List.exists_cons_of_ne_nil h.1
  exact ⟨c, s, hs, h.2 c (by rw [hs]; exact List.mem_cons_self)⟩

theorem IsExponent.endsDigits {s : List Char} (h : IsExponent s) {r : List Char}
    (hr : EndsNumber r) : EndsDigits (s ++ r) := by
  rcases h with rfl | ⟨e, scale, he, -, rfl⟩
  · exact hr.endsDigits
  · refine endsDigits_cons ?_ _
    rcases he with rfl | rfl <;> decide

/-- **A part of a number is read on its own**: a reader that reads `n` off a text has taken a form
of the grammar, and reads `n` off that form whatever follows it that does not go on the number. -/
def TakesForm (read : Reader Number) (IsForm : List Char → Prop) : Prop :=
  ∀ s n r, read s = .ok (n, r) →
    ∃ form, s = form ++ r ∧ IsForm form ∧ ∀ t, EndsNumber t → read (form ++ t) = .ok (n, t)

variable {negative : Bool} {significand : Nat} {exponent : Int}

/-- The number of given parts does not depend on what follows it. -/
theorem realOfParts_takesForm :
    TakesForm (realOfParts negative significand exponent) (· = []) := by
  intro s n r h
  suffices hparts : r = s ∧ ∀ t, realOfParts negative significand exponent t = .ok (n, t) by
    obtain ⟨rfl, hparts⟩ := hparts
    exact ⟨[], rfl, rfl, fun t _ => hparts t⟩
  unfold realOfParts at h ⊢
  dsimp only at h ⊢
  split_ifs at h ⊢ with hsign hlarge hzero hfinite
  · obtain ⟨rfl, rfl⟩ := Prod.mk.inj (Except.ok.inj h)
    exact ⟨rfl, fun t => rfl⟩
  · cases h
  · obtain ⟨rfl, rfl⟩ := Prod.mk.inj (Except.ok.inj h)
    exact ⟨rfl, fun t => rfl⟩
  · cases h
  · obtain ⟨rfl, rfl⟩ := Prod.mk.inj (Except.ok.inj h)
    exact ⟨rfl, fun t => rfl⟩

/-- Reads the digits of an exponent after its sign. -/
def exponentDigits (negative : Bool) (significand : Nat) (exponent : Int) (down : Bool)
    (t : List Char) : Except Fault (Number × List Char) :=
  match t with
  | [] => reached .endInValue []
  | c :: _ =>
    if !c.isDigit then offending .invalidNumber t
    else
      let rest := t.dropWhile Char.isDigit
      match accumulate maxExponent 0 (t.takeWhile Char.isDigit) with
      | (e, []) =>
        let total := if down then exponent - e else exponent + e
        realOfParts negative significand total rest
      | (_, _ :: left) =>
        if significand ≠ 0 && !down then reached .numberOutOfRange (left ++ rest)
        else .ok (.real negative ⟨0⟩, rest)

theorem exponentPart_plus (t : List Char) : exponentPart negative significand exponent ('+' :: t) =
    exponentDigits negative significand exponent false t := rfl

theorem exponentPart_minus (t : List Char) : exponentPart negative significand exponent ('-' :: t) =
    exponentDigits negative significand exponent true t := rfl

theorem exponentPart_of_ne {t : List Char} (hplus : ∀ s, t ≠ '+' :: s) (hminus : ∀ s, t ≠ '-' :: s) :
    exponentPart negative significand exponent t =
      exponentDigits negative significand exponent false t := by
  unfold exponentPart
  split
  next down u hsplit =>
    split at hsplit
    · exact absurd rfl (hplus _)
    · exact absurd rfl (hminus _)
    · obtain ⟨rfl, rfl⟩ := Prod.mk.inj hsplit
      rfl

theorem exponentDigits_append {down : Bool} {digits r : List Char} (h : IsDigits digits)
    (hr : EndsDigits r) :
    exponentDigits negative significand exponent down (digits ++ r) =
      match accumulate maxExponent 0 digits with
      | (e, []) =>
        realOfParts negative significand (if down then exponent - e else exponent + e) r
      | (_, _ :: left) =>
        if significand ≠ 0 && !down then reached .numberOutOfRange (left ++ r)
        else .ok (.real negative ⟨0⟩, r) := by
  have htake := hr.takeWhile_append h.2
  have hdrop := hr.dropWhile_append h.2
  obtain ⟨c, s, rfl, hc⟩ := h.exists_cons
  rw [List.cons_append] at htake hdrop ⊢
  rw [exponentDigits]
  simp only [hc, htake, hdrop, Bool.not_true, Bool.false_eq_true, if_false]

theorem exponentDigits_takesForm {down : Bool} :
    TakesForm (exponentDigits negative significand exponent down) IsDigits := by
  intro s n r h
  obtain ⟨digits, t, rfl, hdigits, ht⟩ : ∃ digits t, s = digits ++ t ∧ IsDigits digits ∧
      EndsDigits t := by
    cases s with
    | nil => cases h
    | cons c s =>
      refine exists_digits ?_ s
      by_contra hc
      rw [exponentDigits, if_pos (by simpa using hc)] at h
      cases h
  rw [exponentDigits_append hdigits ht] at h
  have hread : r = t ∧ ∀ u, EndsNumber u →
      exponentDigits negative significand exponent down (digits ++ u) = .ok (n, u) := by
    split at h
    · next e he =>
      obtain ⟨form, rfl, rfl, hparts⟩ := realOfParts_takesForm _ _ _ h
      refine ⟨rfl, fun u hu => ?_⟩
      rw [exponentDigits_append hdigits hu.endsDigits, he]
      exact hparts u hu
    · next e d left he =>
      split at h
      · cases h
      · next hzero =>
        obtain ⟨rfl, rfl⟩ := Prod.mk.inj (Except.ok.inj h)
        refine ⟨rfl, fun u hu => ?_⟩
        rw [exponentDigits_append hdigits hu.endsDigits, he]
        exact if_neg hzero
  obtain ⟨rfl, hread⟩ := hread
  exact ⟨digits, rfl, hdigits, hread⟩

theorem exponentPart_takesForm :
    TakesForm (exponentPart negative significand exponent) IsScale := by
  intro s n r h
  by_cases hplus : ∃ t, s = '+' :: t
  · obtain ⟨t, rfl⟩ := hplus
    rw [exponentPart_plus] at h
    obtain ⟨digits, rfl, hdigits, hread⟩ := exponentDigits_takesForm t n r h
    exact ⟨'+' :: digits, rfl, ⟨['+'], digits, .inr (.inl rfl), hdigits, rfl⟩, hread⟩
  by_cases hminus : ∃ t, s = '-' :: t
  · obtain ⟨t, rfl⟩ := hminus
    rw [exponentPart_minus] at h
    obtain ⟨digits, rfl, hdigits, hread⟩ := exponentDigits_takesForm t n r h
    exact ⟨'-' :: digits, rfl, ⟨['-'], digits, .inr (.inr rfl), hdigits, rfl⟩, hread⟩
  rw [exponentPart_of_ne (fun t ht => hplus ⟨t, ht⟩) fun t ht => hminus ⟨t, ht⟩] at h
  obtain ⟨digits, rfl, hdigits, hread⟩ := exponentDigits_takesForm s n r h
  refine ⟨digits, rfl, ⟨[], digits, .inl rfl, hdigits, rfl⟩, fun t ht => ?_⟩
  obtain ⟨c, u, rfl, hc⟩ := hdigits.exists_cons
  rw [exponentPart_of_ne, hread t ht]
  · rintro _ ⟨rfl, -⟩
    cases hc
  · rintro _ ⟨rfl, -⟩
    cases hc

theorem afterDigits_of_ne {s : List Char} (hsmall : ∀ t, s ≠ 'e' :: t) (hlarge : ∀ t, s ≠ 'E' :: t) :
    afterDigits negative significand exponent s = realOfParts negative significand exponent s := by
  unfold afterDigits
  split
  · exact absurd rfl (hsmall _)
  · exact absurd rfl (hlarge _)
  · rfl

theorem afterDigits_takesForm :
    TakesForm (afterDigits negative significand exponent) IsExponent := by
  intro s n r h
  by_cases hsmall : ∃ t, s = 'e' :: t
  · obtain ⟨t, rfl⟩ := hsmall
    obtain ⟨scale, rfl, hscale, hread⟩ := exponentPart_takesForm t n r h
    exact ⟨'e' :: scale, rfl, .inr ⟨'e', scale, .inl rfl, hscale, rfl⟩, hread⟩
  by_cases hlarge : ∃ t, s = 'E' :: t
  · obtain ⟨t, rfl⟩ := hlarge
    obtain ⟨scale, rfl, hscale, hread⟩ := exponentPart_takesForm t n r h
    exact ⟨'E' :: scale, rfl, .inr ⟨'E', scale, .inr rfl, hscale, rfl⟩, hread⟩
  rw [afterDigits_of_ne (fun t ht => hsmall ⟨t, ht⟩) fun t ht => hlarge ⟨t, ht⟩] at h
  obtain ⟨form, rfl, rfl, hread⟩ := realOfParts_takesForm s n r h
  refine ⟨[], rfl, .inl rfl, fun t ht => ?_⟩
  rw [afterDigits_of_ne, hread t ht]
  · exact fun u hu => (ht _ u hu).2.2.1 rfl
  · exact fun u hu => (ht _ u hu).2.2.2 rfl

theorem fractionPart_append {digits r : List Char} (h : IsDigits digits) (hr : EndsDigits r) :
    fractionPart negative significand exponent (digits ++ r) =
      afterDigits negative (accumulate maxNatural significand digits).1
        (exponent - (digits.length - (accumulate maxNatural significand digits).2.length : Nat)) r := by
  have htake := hr.takeWhile_append h.2
  have hdrop := hr.dropWhile_append h.2
  obtain ⟨c, s, rfl, -⟩ := h.exists_cons
  rw [List.cons_append] at htake hdrop ⊢
  unfold fractionPart
  simp only [htake, hdrop]

theorem fractionPart_takesForm :
    TakesForm (fractionPart negative significand exponent) IsDecimals := by
  intro s n r h
  obtain ⟨digits, t, rfl, hdigits, ht⟩ : ∃ digits t, s = digits ++ t ∧ IsDigits digits ∧
      EndsDigits t := by
    cases s with
    | nil => cases h
    | cons c s =>
      refine exists_digits ?_ s
      by_contra hc
      unfold fractionPart at h
      simp only [List.takeWhile_cons_of_neg hc] at h
      cases h
  rw [fractionPart_append hdigits ht] at h
  obtain ⟨form, rfl, hform, hread⟩ := afterDigits_takesForm t n r h
  refine ⟨digits ++ form, (List.append_assoc _ _ _).symm, ⟨digits, form, hdigits, hform, rfl⟩, ?_⟩
  intro u hu
  rw [List.append_assoc, fractionPart_append hdigits (hform.endsDigits hu), hread u hu]

/-- Reads what may follow the whole part of a number, of which some digits were dropped. -/
def afterWhole (negative : Bool) (n : Nat) (dropped s : List Char) :
    Except Fault (Number × List Char) :=
  match s with
  | '.' :: r => fractionPart negative n dropped.length r
  | r =>
    match r, dropped with
    | 'e' :: _, _ | 'E' :: _, _ | _, _ :: _ => afterDigits negative n dropped.length r
    | _, [] => .ok (wholeNumber negative n, r)

theorem number_append {whole r : List Char} (h : IsWhole whole) (hr : EndsDigits r) :
    number negative (whole ++ r) =
      afterWhole negative (accumulate maxNatural 0 whole).1 (accumulate maxNatural 0 whole).2 r := by
  obtain ⟨hdigits, hzero⟩ := h
  have htake := hr.takeWhile_append hdigits.2
  have hdrop := hr.dropWhile_append hdigits.2
  obtain ⟨c, s, rfl, hc⟩ := hdigits.exists_cons
  have hlead : ¬ (c = '0' && (s ++ r).head?.any Char.isDigit) := by
    intro hnext
    obtain ⟨rfl, hnext⟩ : c = '0' ∧ (s ++ r).head?.any Char.isDigit := by simpa using hnext
    obtain rfl := (List.cons.inj (hzero rfl)).2
    cases r with
    | nil => cases hnext
    | cons d r => exact hr d r rfl hnext
  rw [List.cons_append] at htake hdrop ⊢
  rw [number]
  simp only [hc, hlead, htake, hdrop, Bool.not_true, Bool.false_eq_true, if_false]
  rfl

theorem afterWhole_small {n : Nat} {dropped t : List Char} :
    afterWhole negative n dropped ('e' :: t) = exponentPart negative n dropped.length t := by
  cases dropped <;> rfl

theorem afterWhole_large {n : Nat} {dropped t : List Char} :
    afterWhole negative n dropped ('E' :: t) = exponentPart negative n dropped.length t := by
  cases dropped <;> rfl

theorem afterWhole_dropped {n : Nat} {d : Char} {ds s : List Char} (hpoint : ∀ t, s ≠ '.' :: t) :
    afterWhole negative n (d :: ds) s = afterDigits negative n (d :: ds).length s := by
  unfold afterWhole
  split
  · exact absurd rfl (hpoint _)
  · split
    · rfl
    · rfl
    · rfl
    · contradiction

theorem afterWhole_nil {n : Nat} {s : List Char}
    (h : ∀ c t, s = c :: t → c ≠ '.' ∧ c ≠ 'e' ∧ c ≠ 'E') :
    afterWhole negative n [] s = .ok (wholeNumber negative n, s) := by
  cases s with
  | nil => rfl
  | cons c t =>
    obtain ⟨hpoint, hsmall, hlarge⟩ := h c t rfl
    simp [afterWhole, hpoint, hsmall, hlarge]

/-- What stands behind the whole part of a number. -/
def IsAfterWhole (s : List Char) : Prop :=
  IsExponent s ∨ ∃ decimals, IsDecimals decimals ∧ s = '.' :: decimals

theorem IsAfterWhole.endsDigits {s : List Char} (h : IsAfterWhole s) {r : List Char}
    (hr : EndsNumber r) : EndsDigits (s ++ r) := by
  rcases h with h | ⟨decimals, -, rfl⟩
  · exact h.endsDigits hr
  · exact endsDigits_cons (by decide) _

theorem afterWhole_takesForm {n : Nat} {dropped : List Char} :
    TakesForm (afterWhole negative n dropped) IsAfterWhole := by
  intro s m r h
  by_cases hpoint : ∃ t, s = '.' :: t
  · obtain ⟨t, rfl⟩ := hpoint
    obtain ⟨decimals, rfl, hdecimals, hread⟩ := fractionPart_takesForm t m r h
    exact ⟨'.' :: decimals, rfl, .inr ⟨decimals, hdecimals, rfl⟩, hread⟩
  cases dropped with
  | cons d ds =>
    rw [afterWhole_dropped fun t ht => hpoint ⟨t, ht⟩] at h
    obtain ⟨form, rfl, hform, hread⟩ := afterDigits_takesForm s m r h
    refine ⟨form, rfl, .inl hform, fun t ht => ?_⟩
    rw [afterWhole_dropped, hread t ht]
    intro u hu
    rcases hform with rfl | ⟨e, scale, he, -, rfl⟩
    · exact (ht _ u hu).2.1 rfl
    · rcases he with rfl | rfl <;> cases hu
  | nil =>
    by_cases hsmall : ∃ t, s = 'e' :: t
    · obtain ⟨t, rfl⟩ := hsmall
      rw [afterWhole_small] at h
      obtain ⟨scale, rfl, hscale, hread⟩ := exponentPart_takesForm t m r h
      refine ⟨'e' :: scale, rfl, .inl (.inr ⟨'e', scale, .inl rfl, hscale, rfl⟩), fun u hu => ?_⟩
      exact afterWhole_small.trans (hread u hu)
    by_cases hlarge : ∃ t, s = 'E' :: t
    · obtain ⟨t, rfl⟩ := hlarge
      rw [afterWhole_large] at h
      obtain ⟨scale, rfl, hscale, hread⟩ := exponentPart_takesForm t m r h
      refine ⟨'E' :: scale, rfl, .inl (.inr ⟨'E', scale, .inr rfl, hscale, rfl⟩), fun u hu => ?_⟩
      exact afterWhole_large.trans (hread u hu)
    rw [afterWhole_nil] at h
    · obtain ⟨rfl, rfl⟩ := Prod.mk.inj (Except.ok.inj h)
      exact ⟨[], rfl, .inl (.inl rfl), fun t ht => afterWhole_nil fun c u hu => (ht c u hu).2⟩
    · rintro c t rfl
      refine ⟨?_, ?_, ?_⟩
      · rintro rfl
        exact hpoint ⟨t, rfl⟩
      · rintro rfl
        exact hsmall ⟨t, rfl⟩
      · rintro rfl
        exact hlarge ⟨t, rfl⟩

/-- **The grammar of numbers** behind their sign. -/
def IsNumeral (s : List Char) : Prop :=
  ∃ whole rest, IsWhole whole ∧ IsAfterWhole rest ∧ s = whole ++ rest

/-- **A number is read on its own**, by the grammar of numbers. -/
theorem number_takesForm : TakesForm (number negative) IsNumeral := by
  intro s n r h
  obtain ⟨whole, t, rfl, hwhole, ht⟩ : ∃ whole t, s = whole ++ t ∧ IsWhole whole ∧
      EndsDigits t := by
    cases s with
    | nil => cases h
    | cons c s =>
      rw [number] at h
      split at h
      · cases h
      · split at h
        · cases h
        · next hc hzero =>
          have hdigit : c.isDigit := by simpa using hc
          obtain ⟨whole, t, hs, hwhole, ht⟩ := exists_digits hdigit s
          refine ⟨whole, t, hs, ⟨hwhole, fun hhead => ?_⟩, ht⟩
          -- a second digit would stand behind the zero
          obtain ⟨d, u, rfl, hd⟩ := hwhole.exists_cons
          obtain rfl := Option.some.inj hhead
          obtain ⟨rfl, rfl⟩ := List.cons.inj hs
          cases u with
          | nil => rfl
          | cons e u => exact absurd (by simp [hwhole.2 e (by simp)]) hzero
  rw [number_append hwhole ht] at h
  obtain ⟨rest, rfl, hrest, hread⟩ := afterWhole_takesForm t n r h
  refine ⟨whole ++ rest, (List.append_assoc _ _ _).symm, ⟨whole, rest, hwhole, hrest, rfl⟩, ?_⟩
  intro u hu
  rw [List.append_assoc, number_append hwhole (hrest.endsDigits hu), hread u hu]

/-- **The spellings of a number**: a form of the grammar, behind a sign if it is negative, that is
read as the number. Forms beyond the range of floating point are read as none. -/
inductive DenotesNumber : List Char → Number → Prop
  | positive {s : List Char} {n : Number} (h : IsNumeral s) (hread : number false s = .ok (n, [])) :
      DenotesNumber s n
  | negative {s : List Char} {n : Number} (h : IsNumeral s) (hread : number true s = .ok (n, [])) :
      DenotesNumber ('-' :: s) n

/-- A form that is read as a whole is read whatever follows it that does not go on it. -/
theorem number_append_of_read {s : List Char} {n : Number} (h : number negative s = .ok (n, []))
    {r : List Char} (hr : EndsNumber r) : number negative (s ++ r) = .ok (n, r) := by
  obtain ⟨form, hs, -, hread⟩ := number_takesForm s n [] h
  rw [List.append_nil] at hs
  rw [hs]
  exact hread r hr

/-- What is read as a number is a form of the grammar that is read as a whole. -/
theorem numeral_of_number {s r : List Char} {n : Number} (h : number negative s = .ok (n, r)) :
    ∃ form, s = form ++ r ∧ IsNumeral form ∧ number negative form = .ok (n, []) := by
  obtain ⟨form, rfl, hform, hread⟩ := number_takesForm s n r h
  have hnil := hread [] nofun
  rw [List.append_nil] at hnil
  exact ⟨form, rfl, hform, hnil⟩

theorem IsNumeral.exists_cons {s : List Char} (h : IsNumeral s) :
    ∃ c t, s = c :: t ∧ c.isDigit := by
  obtain ⟨whole, rest, hwhole, -, rfl⟩ := h
  obtain ⟨c, t, rfl, hc⟩ := hwhole.1.exists_cons
  exact ⟨c, t ++ rest, rfl, hc⟩

end MailBlocks.Json
