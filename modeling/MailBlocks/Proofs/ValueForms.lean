import MailBlocks.Proofs.SpelledValues

/-!
# The grammar of JSON texts without values

What a JSON text looks like when it need not have a value: strings may have surrogates that are not
paired, and numbers may be beyond the range of floating point. A text has one form only: its parts
can be told apart without knowing what they stand for.

* `ValueForm`: the forms of values.
* `Denotes.form`: the spellings of a value are forms.
* `ValueForm.rest_eq`: where a form ends.
* `Denotes.relevel`: the brackets of a spelling are those of its form.
* `Padded.forms_of_array`, `Entry.forms_of_object`: the parts of an array and of an object.
-/

namespace MailBlocks.Json

variable {β γ : Type} {levels levels' : Nat}

/-! ## Forms -/

/-- **The forms of a character** in a string: itself, a short escape or an escape by number. -/
inductive CharForm : List Char → Prop where
  | plain {c : Char} (hquote : c ≠ '"') (hescape : c ≠ '\\') (hcontrol : 0x20 ≤ c.toNat) :
      CharForm [c]
  | short {e c : Char} (h : shortEscape? e = some c) : CharForm ['\\', e]
  | number {a b c d : Char} {n : Nat} (h : hexQuad? a b c d = some n) :
      CharForm ['\\', 'u', a, b, c, d]

/-- The characters of a string up to its closing quote. -/
inductive BodyForm : List Char → Prop where
  | close : BodyForm ['"']
  | char {p s : List Char} (h : CharForm p) (hs : BodyForm s) : BodyForm (p ++ s)

/-- **The forms of a string.** -/
def StringForm (s : List Char) : Prop :=
  ∃ body, s = '"' :: body ∧ BodyForm body

/-- **The forms of a number**, a minus sign in front or not. -/
def NumberForm (s : List Char) : Prop :=
  IsNumeral s ∨ ∃ t, IsNumeral t ∧ s = '-' :: t

/-- **The forms of a value** inside which up to so many brackets are open at a time. -/
inductive ValueForm : Nat → List Char → Prop where
  | null {levels : Nat} : ValueForm levels ['n', 'u', 'l', 'l']
  | true {levels : Nat} : ValueForm levels ['t', 'r', 'u', 'e']
  | false {levels : Nat} : ValueForm levels ['f', 'a', 'l', 's', 'e']
  | number {levels : Nat} {s : List Char} (h : NumberForm s) : ValueForm levels s
  | string {levels : Nat} {body : List Char} (h : BodyForm body) : ValueForm levels ('"' :: body)
  | emptyArray {levels : Nat} {blanks : List Char} (h : Blanks blanks) :
      ValueForm (levels + 1) ('[' :: (blanks ++ [']']))
  | array {levels : Nat} {p : Padded Unit} {ps : List (Padded Unit)}
      (h : ∀ q ∈ p :: ps, ValueForm levels q.form) :
      ValueForm (levels + 1) ('[' :: p.ahead (commaTail Padded.ahead ps [']']))
  | emptyObject {levels : Nat} {blanks : List Char} (h : Blanks blanks) :
      ValueForm (levels + 1) ('\x7b' :: (blanks ++ ['\x7d']))
  | object {levels : Nat} {e : Entry Unit} {es : List (Entry Unit)}
      (hkeys : ∀ x ∈ e :: es, StringForm x.key.form)
      (hvalues : ∀ x ∈ e :: es, ValueForm levels x.value.form) :
      ValueForm (levels + 1) ('\x7b' :: e.ahead (commaTail Entry.ahead es ['\x7d']))

/-! ## Spellings are forms -/

theorem DenotesBody.form {s cs : List Char} (h : DenotesBody s cs) : BodyForm s := by
  induction h with
  | close => exact .close
  | char hchar _ ih =>
    cases hchar with
    | plain hquote hescape hcontrol => exact .char (.plain hquote hescape hcontrol) ih
    | short h => exact .char (.short h) ih
    | number h => exact .char (.number h) ih
    | pair hm hn =>
      -- a pair of surrogates is two escapes by number
      have hpair := BodyForm.char (.number hm) (.char (.number hn) ih)
      exact hpair

theorem DenotesString.form {s : List Char} {x : String} (h : DenotesString s x) : StringForm s := by
  obtain ⟨body, rfl, hbody⟩ := h
  exact ⟨body, rfl, hbody.form⟩

theorem DenotesNumber.form {s : List Char} {n : Number} (h : DenotesNumber s n) :
    NumberForm s := by
  cases h with
  | positive h => exact .inl h
  | negative h => exact .inr ⟨_, h, rfl⟩

/-- A part without what it stands for. -/
def Padded.forget (p : Padded β) : Padded Unit :=
  { p with meaning := () }

/-- An entry without what its value stands for. -/
def Entry.forget (e : Entry β) : Entry Unit :=
  ⟨e.key, e.value.forget⟩

theorem Padded.commaTail_forget (ps : List (Padded β)) (r : List Char) :
    commaTail Padded.ahead (ps.map Padded.forget) r = commaTail Padded.ahead ps r :=
  List.foldr_map

theorem Entry.commaTail_forget (es : List (Entry β)) (r : List Char) :
    commaTail Entry.ahead (es.map Entry.forget) r = commaTail Entry.ahead es r :=
  List.foldr_map

theorem valueForm_array {p : Padded β} {ps : List (Padded β)}
    (h : ∀ q ∈ p :: ps, ValueForm levels q.form) :
    ValueForm (levels + 1) ('[' :: p.ahead (commaTail Padded.ahead ps [']'])) := by
  rw [← Padded.commaTail_forget]
  exact .array (p := p.forget) (List.forall_mem_map (l := p :: ps).2 h)

theorem valueForm_object {e : Entry β} {es : List (Entry β)}
    (hkeys : ∀ x ∈ e :: es, StringForm x.key.form)
    (hvalues : ∀ x ∈ e :: es, ValueForm levels x.value.form) :
    ValueForm (levels + 1) ('\x7b' :: e.ahead (commaTail Entry.ahead es ['\x7d'])) := by
  rw [← Entry.commaTail_forget]
  exact .object (e := e.forget) (List.forall_mem_map (l := e :: es).2 hkeys)
    (List.forall_mem_map (l := e :: es).2 hvalues)

/-- **The spellings of a value are forms.** -/
theorem Denotes.form {s : List Char} {v : Value} (h : Denotes levels s v) :
    ValueForm levels s := by
  induction h with
  | null => exact .null
  | true => exact .true
  | false => exact .false
  | number h => exact .number h.form
  | string h =>
    obtain ⟨body, rfl, hbody⟩ := h.form
    exact .string hbody
  | emptyArray h => exact .emptyArray h
  | array _ ih => exact valueForm_array ih
  | emptyObject h => exact .emptyObject h
  | object hkeys _ ih => exact valueForm_object (fun x hx => (hkeys x hx).form) ih

/-! ## Where a string ends -/

/-- No character begins with a quote. -/
theorem CharForm.ne_quote {p r t : List Char} (h : CharForm p) : p ++ r ≠ '"' :: t := by
  intro ht
  cases h with
  | plain hquote => exact hquote (List.cons.inj ht).1
  | short | number => exact absurd (List.cons.inj ht).1 (by decide)

/-- A character ends in one place. -/
theorem CharForm.rest_eq {p q r t : List Char} (hp : CharForm p) (hq : CharForm q)
    (h : p ++ r = q ++ t) : r = t := by
  cases hp with
  | plain _ hescape =>
    cases hq with
    | plain => exact (List.cons.inj h).2
    | short | number => exact absurd (List.cons.inj h).1 hescape
  | short hp =>
    cases hq with
    | plain _ hescape => exact absurd (List.cons.inj h).1.symm hescape
    | short => exact (List.cons.inj (List.cons.inj h).2).2
    | number =>
      rw [(List.cons.inj (List.cons.inj h).2).1] at hp
      cases hp
  | number =>
    cases hq with
    | plain _ hescape => exact absurd (List.cons.inj h).1.symm hescape
    | short hq =>
      rw [← (List.cons.inj (List.cons.inj h).2).1] at hq
      cases hq
    | number => exact List.append_inj_right h rfl

/-- **A string ends at its first quote** that is no escape. -/
theorem BodyForm.rest_eq {p q r t : List Char} (hp : BodyForm p) (hq : BodyForm q)
    (h : p ++ r = q ++ t) : r = t := by
  induction hp generalizing q with
  | close =>
    cases hq with
    | close => exact (List.cons.inj h).2
    | char hchar =>
      rw [List.append_assoc] at h
      exact absurd h.symm hchar.ne_quote
  | char hchar _ ih =>
    cases hq with
    | close =>
      rw [List.append_assoc] at h
      exact absurd h hchar.ne_quote
    | char hchar' hbody' =>
      rw [List.append_assoc, List.append_assoc] at h
      exact ih hbody' (hchar.rest_eq hchar' h)

theorem StringForm.rest_eq {p q r t : List Char} (hp : StringForm p) (hq : StringForm q)
    (h : p ++ r = q ++ t) : r = t := by
  obtain ⟨body, rfl, hbody⟩ := hp
  obtain ⟨body', rfl, hbody'⟩ := hq
  exact hbody.rest_eq hbody' (List.cons.inj h).2

/-! ## Where a number ends -/

/-- The characters of numbers. -/
def isNumberChar (c : Char) : Bool :=
  c.isDigit || c = '+' || c = '-' || c = '.' || c = 'e' || c = 'E'

theorem IsDigits.forall_char {s : List Char} (h : IsDigits s) : ∀ c ∈ s, isNumberChar c := by
  intro c hc
  simp [isNumberChar, h.2 c hc]

theorem IsExponent.forall_char {s : List Char} (h : IsExponent s) :
    ∀ c ∈ s, isNumberChar c := by
  rcases h with rfl | ⟨e, -, he, ⟨sign, digits, hsign, hdigits, rfl⟩, rfl⟩
  · nofun
  · refine List.forall_mem_cons.2 ⟨?_, List.forall_mem_append.2 ⟨?_, hdigits.forall_char⟩⟩
    · rcases he with rfl | rfl <;> decide
    · rcases hsign with rfl | rfl | rfl <;> simp [isNumberChar]

theorem IsNumeral.forall_char {s : List Char} (h : IsNumeral s) : ∀ c ∈ s, isNumberChar c := by
  obtain ⟨whole, rest, hwhole, hrest, rfl⟩ := h
  refine List.forall_mem_append.2 ⟨hwhole.1.forall_char, ?_⟩
  rcases hrest with hrest | ⟨-, ⟨digits, exponent, hdigits, hexponent, rfl⟩, rfl⟩
  · exact hrest.forall_char
  · exact List.forall_mem_cons.2 ⟨by decide,
      List.forall_mem_append.2 ⟨hdigits.forall_char, hexponent.forall_char⟩⟩

theorem NumberForm.forall_char {s : List Char} (h : NumberForm s) : ∀ c ∈ s, isNumberChar c := by
  rcases h with h | ⟨t, h, rfl⟩
  · exact h.forall_char
  · exact List.forall_mem_cons.2 ⟨by decide, h.forall_char⟩

theorem NumberForm.exists_cons {s : List Char} (h : NumberForm s) :
    ∃ c t, s = c :: t ∧ isNumberChar c := by
  have hne : s ≠ [] := by
    rintro rfl
    rcases h with h | ⟨t, -, ht⟩
    · obtain ⟨c, t, ht, -⟩ := h.exists_cons
      cases ht
    · cases ht
  obtain ⟨c, t, rfl⟩ := List.exists_cons_of_ne_nil hne
  exact ⟨c, t, rfl, h.forall_char c List.mem_cons_self⟩

/-- **A number ends where its characters do.** -/
theorem NumberForm.dropWhile_append {s r : List Char} (h : NumberForm s) (hr : EndsValue r) :
    (s ++ r).dropWhile isNumberChar = r := by
  rw [List.dropWhile_append_of_pos h.forall_char]
  cases r with
  | nil => rfl
  | cons c r =>
    refine List.dropWhile_cons_of_neg ?_
    rcases hr c r rfl with rfl | rfl | rfl | hspace
    · decide
    · decide
    · decide
    · simp only [isSpace, Bool.or_eq_true, decide_eq_true_eq] at hspace
      rcases hspace with ((rfl | rfl) | rfl) | rfl <;> decide

/-! ## Parts between commas -/

/-- What begins with no blank. -/
def StartsForm (s : List Char) : Prop :=
  ∃ c t, s = c :: t ∧ ¬ isSpace c

theorem StartsForm.skipSpace_append {s : List Char} (h : StartsForm s) (r : List Char) :
    skipSpace (s ++ r) = s ++ r := by
  obtain ⟨c, t, rfl, hc⟩ := h
  exact skipSpace_cons hc _

theorem StringForm.exists_cons {s : List Char} (h : StringForm s) :
    ∃ c t, s = c :: t ∧ ¬ isSpace c ∧ c ≠ '\x7d' := by
  obtain ⟨body, rfl, -⟩ := h
  exact ⟨'"', body, rfl, by decide, by decide⟩

theorem StringForm.startsForm {s : List Char} (h : StringForm s) : StartsForm s := by
  obtain ⟨c, t, hs, hc, -⟩ := h.exists_cons
  exact ⟨c, t, hs, hc⟩

/-- A comma or a closing bracket is ahead. -/
def EndsPart (r : List Char) : Prop :=
  ∃ c s, r = c :: s ∧ (c = ',' ∨ c = ']' ∨ c = '\x7d')

theorem EndsPart.skipSpace {r : List Char} (h : EndsPart r) : skipSpace r = r := by
  obtain ⟨c, s, rfl, hc⟩ := h
  refine skipSpace_cons ?_ s
  rcases hc with rfl | rfl | rfl <;> decide

theorem EndsPart.endsValue {r : List Char} (h : EndsPart r) : EndsValue r := by
  obtain ⟨c, s, rfl, hc⟩ := h
  refine endsValue_cons ?_ s
  rcases hc with rfl | rfl | rfl <;> simp

/-- **Parts of the same text have the same form**, with the same text behind them, if their forms
end in the same place. -/
theorem Padded.form_eq {p : Padded β} {q : Padded γ} {r t : List Char} (hp : StartsForm p.form)
    (hq : StartsForm q.form)
    (hform : p.form ++ (p.after ++ r) = q.form ++ (q.after ++ t) → p.after ++ r = q.after ++ t)
    (hr : skipSpace r = r) (ht : skipSpace t = t) (h : p.ahead r = q.ahead t) :
    p.form = q.form ∧ r = t := by
  have hskip := congrArg skipSpace h
  rw [Padded.ahead, Padded.ahead, skipSpace_append p.blankBefore, skipSpace_append q.blankBefore,
    hp.skipSpace_append, hq.skipSpace_append] at hskip
  have hafter := hform hskip
  rw [hafter] at hskip
  refine ⟨List.append_cancel_right hskip, ?_⟩
  have hrest := congrArg skipSpace hafter
  rwa [skipSpace_append p.blankAfter, skipSpace_append q.blankAfter, hr, ht] at hrest

/-- **Parts of the same text between commas** correspond, with the same text behind the bracket, if
each part by itself does. -/
theorem commaTail_correspond {close : Char} (hclose : close = ']' ∨ close = '\x7d')
    {ahead : β → List Char → List Char} {ahead' : γ → List Char → List Char} {P : β → Prop}
    {Q : γ → Prop} {R : β → γ → Prop}
    (hpart : ∀ x y r t, P x → Q y → EndsPart r → EndsPart t → ahead x r = ahead' y t →
      R x y ∧ r = t)
    {x : β} {xs : List β} {y : γ} {ys : List γ} {r t : List Char} (hx : ∀ z ∈ x :: xs, P z)
    (hy : ∀ z ∈ y :: ys, Q z)
    (h : ahead x (commaTail ahead xs (close :: r)) = ahead' y (commaTail ahead' ys (close :: t))) :
    (∀ z ∈ x :: xs, ∃ w ∈ y :: ys, R z w) ∧ r = t := by
  have hcomma : close ≠ ',' := by rcases hclose with rfl | rfl <;> decide
  have hends : ∀ {α : Type} (ahead : α → List Char → List Char) (zs : List α) (u : List Char),
      EndsPart (commaTail ahead zs (close :: u)) := by
    intro α ahead zs u
    cases zs with
    | nil => exact ⟨close, u, rfl, .inr hclose⟩
    | cons z zs => exact ⟨',', _, rfl, .inl rfl⟩
  induction xs generalizing x y ys with
  | nil =>
    obtain ⟨hxy, hrest⟩ := hpart x y _ _ (hx x List.mem_cons_self) (hy y List.mem_cons_self)
      (hends _ _ _) (hends _ _ _) h
    cases ys with
    | nil =>
      refine ⟨List.forall_mem_singleton.2 ⟨y, List.mem_cons_self, hxy⟩, (List.cons.inj hrest).2⟩
    | cons z zs => exact absurd (List.cons.inj hrest).1 hcomma
  | cons x' xs ih =>
    obtain ⟨hxy, hrest⟩ := hpart x y _ _ (hx x List.mem_cons_self) (hy y List.mem_cons_self)
      (hends _ _ _) (hends _ _ _) h
    cases ys with
    | nil => exact absurd (List.cons.inj hrest).1.symm hcomma
    | cons z zs =>
      obtain ⟨hall, hrt⟩ := ih (List.forall_mem_cons.1 hx).2 (List.forall_mem_cons.1 hy).2
        (List.cons.inj hrest).2
      refine ⟨List.forall_mem_cons.2 ⟨⟨y, List.mem_cons_self, hxy⟩, fun u hu => ?_⟩, hrt⟩
      obtain ⟨w, hw, huw⟩ := hall u hu
      exact ⟨w, List.mem_cons_of_mem _ hw, huw⟩

/-! ## Where a value ends -/

theorem NumberForm.head {c : Char} {s : List Char} (h : NumberForm (c :: s)) : isNumberChar c :=
  h.forall_char c List.mem_cons_self

/-- A value begins with no blank and no closing bracket. -/
theorem ValueForm.exists_cons {s : List Char} (h : ValueForm levels s) :
    ∃ c t, s = c :: t ∧ ¬ isSpace c ∧ c ≠ ']' := by
  cases h with
  | null => exact ⟨'n', _, rfl, by decide, by decide⟩
  | true => exact ⟨'t', _, rfl, by decide, by decide⟩
  | false => exact ⟨'f', _, rfl, by decide, by decide⟩
  | string => exact ⟨'"', _, rfl, by decide, by decide⟩
  | emptyArray | array => exact ⟨'[', _, rfl, by decide, by decide⟩
  | emptyObject | object => exact ⟨'\x7b', _, rfl, by decide, by decide⟩
  | number h =>
    obtain ⟨c, t, rfl, hc⟩ := h.exists_cons
    refine ⟨c, t, rfl, fun hspace => ?_, ?_⟩
    · simp only [isSpace, Bool.or_eq_true, decide_eq_true_eq] at hspace
      rcases hspace with ((rfl | rfl) | rfl) | rfl <;> exact absurd hc (by decide)
    · rintro rfl
      exact absurd hc (by decide)

theorem ValueForm.startsForm {s : List Char} (h : ValueForm levels s) : StartsForm s := by
  obtain ⟨c, t, hs, hc, -⟩ := h.exists_cons
  exact ⟨c, t, hs, hc⟩

/-- The words are the only values that begin with their letters. -/
theorem ValueForm.of_letter {c : Char} {s : List Char} (h : ValueForm levels (c :: s)) :
    (c = 'n' → s = ['u', 'l', 'l']) ∧ (c = 't' → s = ['r', 'u', 'e']) ∧
    (c = 'f' → s = ['a', 'l', 's', 'e']) := by
  cases h with
  | number h =>
    refine ⟨?_, ?_, ?_⟩ <;>
    · rintro rfl
      exact absurd h.head (by decide)
  | _ => simp

theorem ValueForm.of_quote {s : List Char} (h : ValueForm levels ('"' :: s)) : BodyForm s := by
  cases h with
  | number h => exact absurd h.head (by decide)
  | string h => exact h

/-- What is open between the brackets of an array. -/
theorem ValueForm.of_bracket {s : List Char} (h : ValueForm levels ('[' :: s)) :
    ∃ l, levels = l + 1 ∧ ((∃ blanks, Blanks blanks ∧ s = blanks ++ [']']) ∨
      ∃ (p : Padded Unit) (ps : List (Padded Unit)),
        s = p.ahead (commaTail Padded.ahead ps [']']) ∧ ∀ q ∈ p :: ps, ValueForm l q.form) := by
  cases h with
  | number h => exact absurd h.head (by decide)
  | @emptyArray l blanks h => exact ⟨l, rfl, .inl ⟨blanks, h, rfl⟩⟩
  | @array l p ps h => exact ⟨l, rfl, .inr ⟨p, ps, rfl, h⟩⟩

/-- What is open between the brackets of an object. -/
theorem ValueForm.of_brace {s : List Char} (h : ValueForm levels ('\x7b' :: s)) :
    ∃ l, levels = l + 1 ∧ ((∃ blanks, Blanks blanks ∧ s = blanks ++ ['\x7d']) ∨
      ∃ (e : Entry Unit) (es : List (Entry Unit)),
        s = e.ahead (commaTail Entry.ahead es ['\x7d']) ∧
        (∀ x ∈ e :: es, StringForm x.key.form) ∧ ∀ x ∈ e :: es, ValueForm l x.value.form) := by
  cases h with
  | number h => exact absurd h.head (by decide)
  | @emptyObject l blanks h => exact ⟨l, rfl, .inl ⟨blanks, h, rfl⟩⟩
  | @object l e es hkeys hvalues => exact ⟨l, rfl, .inr ⟨e, es, rfl, hkeys, hvalues⟩⟩

/-- **The form ends in one place**, whatever value is looked for. -/
def EndsOnce (s : List Char) : Prop :=
  ∀ {levels : Nat} {s' r t : List Char}, ValueForm levels s' → EndsValue r → EndsValue t →
    s ++ r = s' ++ t → r = t

/-- **The items of an array** of the same text have the same forms. -/
theorem Padded.forms_of_array {p : Padded β} {ps : List (Padded β)} {q : Padded γ}
    {qs : List (Padded γ)} {r t : List Char}
    (hp : ∀ x ∈ p :: ps, StartsForm x.form ∧ EndsOnce x.form)
    (hq : ∀ x ∈ q :: qs, ValueForm levels x.form)
    (h : p.ahead (commaTail Padded.ahead ps (']' :: r)) =
      q.ahead (commaTail Padded.ahead qs (']' :: t))) :
    (∀ x ∈ p :: ps, ∃ y ∈ q :: qs, x.form = y.form) ∧ r = t := by
  refine commaTail_correspond (.inl rfl) ?_ hp hq h
  intro x y u w ⟨hstart, honce⟩ hy hu hw hxy
  exact Padded.form_eq hstart hy.startsForm
    (honce hy (endsValue_append x.blankAfter hu.endsValue)
      (endsValue_append y.blankAfter hw.endsValue)) hu.skipSpace hw.skipSpace hxy

/-- **The entries of an object** of the same text have the same forms. -/
theorem Entry.forms_of_object {e : Entry β} {es : List (Entry β)} {f : Entry γ}
    {fs : List (Entry γ)} {r t : List Char}
    (hkeys : ∀ x ∈ e :: es, StringForm x.key.form)
    (he : ∀ x ∈ e :: es, StartsForm x.value.form ∧ EndsOnce x.value.form)
    (hkeys' : ∀ x ∈ f :: fs, StringForm x.key.form)
    (hf : ∀ x ∈ f :: fs, ValueForm levels x.value.form)
    (h : e.ahead (commaTail Entry.ahead es ('\x7d' :: r)) =
      f.ahead (commaTail Entry.ahead fs ('\x7d' :: t))) :
    (∀ x ∈ e :: es, ∃ y ∈ f :: fs, x.value.form = y.value.form) ∧ r = t := by
  refine commaTail_correspond (.inr rfl) ?_ (fun x hx => And.intro (hkeys x hx) (he x hx))
    (fun x hx => And.intro (hkeys' x hx) (hf x hx)) h
  intro x y u w ⟨hkey, hstart, honce⟩ ⟨hkey', hy⟩ hu hw hxy
  have hcolon : ∀ s, skipSpace (':' :: s) = ':' :: s := skipSpace_cons (by decide)
  obtain ⟨-, hvalue⟩ := Padded.form_eq hkey.startsForm hkey'.startsForm
    (hkey.rest_eq hkey') (hcolon _) (hcolon _) hxy
  exact Padded.form_eq hstart hy.startsForm
    (honce hy (endsValue_append x.value.blankAfter hu.endsValue)
      (endsValue_append y.value.blankAfter hw.endsValue)) hu.skipSpace hw.skipSpace
    (List.cons.inj hvalue).2

/-- Blanks and a closing bracket are no parts. -/
theorem blanks_ne_ahead {p : Padded β} {c : Char} {blanks r t : List Char} (hblanks : Blanks blanks)
    (hc : ¬ isSpace c) (hp : ∃ d s, p.form = d :: s ∧ ¬ isSpace d ∧ d ≠ c) :
    blanks ++ c :: r ≠ p.ahead t := by
  intro h
  obtain ⟨d, s, hform, hd, hne⟩ := hp
  have hskip := congrArg skipSpace h
  rw [skipSpace_append hblanks, skipSpace_cons hc, Padded.ahead, skipSpace_append p.blankBefore,
    hform, List.cons_append, skipSpace_cons hd] at hskip
  exact hne (List.cons.inj hskip).1.symm

/-- Blanks up to a closing bracket end in one place. -/
theorem rest_eq_of_blanks {c : Char} {blanks blanks' r t : List Char} (h : Blanks blanks)
    (h' : Blanks blanks') (hc : ¬ isSpace c) (heq : blanks ++ c :: r = blanks' ++ c :: t) :
    r = t := by
  have hskip := congrArg skipSpace heq
  rw [skipSpace_append h, skipSpace_append h', skipSpace_cons hc, skipSpace_cons hc] at hskip
  exact (List.cons.inj hskip).2

/-- Only forms with the same first character have to be looked at. -/
theorem endsOnce_cons {c : Char} {s : List Char}
    (h : ∀ {levels : Nat} {u r t : List Char}, ValueForm levels (c :: u) → EndsValue r →
      EndsValue t → s ++ r = u ++ t → r = t) : EndsOnce (c :: s) := by
  intro l s' r t hs' hr ht heq
  obtain ⟨d, u, rfl, -⟩ := hs'.exists_cons
  obtain ⟨rfl, hrest⟩ := List.cons.inj heq
  exact h hs' hr ht hrest

theorem endsOnce_number {s : List Char} (h : NumberForm s) : EndsOnce s := by
  intro l s' r t hs' hr ht heq
  obtain ⟨c, u, rfl, hc⟩ := h.exists_cons
  obtain ⟨d, w, rfl, -⟩ := hs'.exists_cons
  obtain ⟨rfl, -⟩ := List.cons.inj heq
  -- no other form begins with a character of numbers
  have hnumber : NumberForm (c :: w) := by
    cases hs' with
    | number h' => exact h'
    | _ => exact absurd hc (by decide)
  rw [← h.dropWhile_append hr, heq, hnumber.dropWhile_append ht]

/-- **A value ends in one place.** -/
theorem ValueForm.endsOnce {s : List Char} (h : ValueForm levels s) : EndsOnce s := by
  induction h with
  | null =>
    refine endsOnce_cons fun hu _ _ heq => ?_
    rw [hu.of_letter.1 rfl] at heq
    exact List.append_cancel_left heq
  | true =>
    refine endsOnce_cons fun hu _ _ heq => ?_
    rw [hu.of_letter.2.1 rfl] at heq
    exact List.append_cancel_left heq
  | false =>
    refine endsOnce_cons fun hu _ _ heq => ?_
    rw [hu.of_letter.2.2 rfl] at heq
    exact List.append_cancel_left heq
  | number h => exact endsOnce_number h
  | string h => exact endsOnce_cons fun hu _ _ heq => h.rest_eq hu.of_quote heq
  | emptyArray h =>
    refine endsOnce_cons fun hu _ _ heq => ?_
    obtain ⟨l, -, ⟨blanks, hblanks, rfl⟩ | ⟨q, qs, rfl, hqs⟩⟩ := hu.of_bracket
    · rw [List.append_assoc, List.append_assoc] at heq
      exact rest_eq_of_blanks h hblanks (by decide) heq
    · rw [List.append_assoc, Padded.ahead_append] at heq
      exact absurd heq (blanks_ne_ahead h (by decide) (hqs q List.mem_cons_self).exists_cons)
  | @array _ p ps h ih =>
    refine endsOnce_cons fun hu _ _ heq => ?_
    have hps : ∀ x ∈ p :: ps, StartsForm x.form ∧ EndsOnce x.form :=
      fun x hx => ⟨(h x hx).startsForm, ih x hx⟩
    obtain ⟨l, -, ⟨blanks, hblanks, rfl⟩ | ⟨q, qs, rfl, hqs⟩⟩ := hu.of_bracket
    · rw [List.append_assoc, Padded.ahead_append] at heq
      exact absurd heq.symm
        (blanks_ne_ahead hblanks (by decide) (h p List.mem_cons_self).exists_cons)
    · rw [Padded.ahead_append, Padded.ahead_append, commaTail_append Padded.ahead_append,
        commaTail_append Padded.ahead_append] at heq
      exact (Padded.forms_of_array hps hqs heq).2
  | emptyObject h =>
    refine endsOnce_cons fun hu _ _ heq => ?_
    obtain ⟨l, -, ⟨blanks, hblanks, rfl⟩ | ⟨f, fs, rfl, hkeys, -⟩⟩ := hu.of_brace
    · rw [List.append_assoc, List.append_assoc] at heq
      exact rest_eq_of_blanks h hblanks (by decide) heq
    · rw [List.append_assoc, Entry.ahead_append] at heq
      exact absurd heq (blanks_ne_ahead h (by decide) (hkeys f List.mem_cons_self).exists_cons)
  | @object _ e es hkeys hvalues ih =>
    refine endsOnce_cons fun hu _ _ heq => ?_
    have hes : ∀ x ∈ e :: es, StartsForm x.value.form ∧ EndsOnce x.value.form :=
      fun x hx => ⟨(hvalues x hx).startsForm, ih x hx⟩
    obtain ⟨l, -, ⟨blanks, hblanks, rfl⟩ | ⟨f, fs, rfl, hkeys', hfs⟩⟩ := hu.of_brace
    · rw [List.append_assoc, Entry.ahead_append] at heq
      exact absurd heq.symm
        (blanks_ne_ahead hblanks (by decide) (hkeys e List.mem_cons_self).exists_cons)
    · rw [Entry.ahead_append, Entry.ahead_append, commaTail_append Entry.ahead_append,
        commaTail_append Entry.ahead_append] at heq
      exact (Entry.forms_of_object hkeys hes hkeys' hfs heq).2

/-! ## Parts of arrays and objects -/

theorem ValueForm.part {s : List Char} (h : ValueForm levels s) : StartsForm s ∧ EndsOnce s :=
  ⟨h.startsForm, h.endsOnce⟩

/-- The items of an array that is a form are forms one level further in. -/
theorem ValueForm.items {p : Padded β} {ps : List (Padded β)}
    (hps : ∀ x ∈ p :: ps, ValueForm levels' x.form)
    (h : ValueForm (levels + 1) ('[' :: p.ahead (commaTail Padded.ahead ps [']']))) :
    ∀ x ∈ p :: ps, ValueForm levels x.form := by
  obtain ⟨l, hl, ⟨blanks, hblanks, heq⟩ | ⟨q, qs, heq, hqs⟩⟩ := h.of_bracket
  · exact absurd heq.symm
      (blanks_ne_ahead hblanks (by decide) (hps p List.mem_cons_self).exists_cons)
  · intro x hx
    obtain ⟨y, hy, hxy⟩ := (Padded.forms_of_array (fun x hx => (hps x hx).part) hqs heq).1 x hx
    rw [hxy, Nat.succ.inj hl]
    exact hqs y hy

/-- The values of an object that is a form are forms one level further in. -/
theorem ValueForm.values {e : Entry β} {es : List (Entry β)}
    (hkeys : ∀ x ∈ e :: es, StringForm x.key.form)
    (hes : ∀ x ∈ e :: es, ValueForm levels' x.value.form)
    (h : ValueForm (levels + 1) ('\x7b' :: e.ahead (commaTail Entry.ahead es ['\x7d']))) :
    ∀ x ∈ e :: es, ValueForm levels x.value.form := by
  obtain ⟨l, hl, ⟨blanks, hblanks, heq⟩ | ⟨f, fs, heq, hkeys', hfs⟩⟩ := h.of_brace
  · exact absurd heq.symm
      (blanks_ne_ahead hblanks (by decide) (hkeys e List.mem_cons_self).exists_cons)
  · intro x hx
    obtain ⟨y, hy, hxy⟩ :=
      (Entry.forms_of_object hkeys (fun x hx => (hes x hx).part) hkeys' hfs heq).1 x hx
    rw [hxy, Nat.succ.inj hl]
    exact hfs y hy

/-- **The brackets of a spelling** are those of its form. -/
theorem Denotes.relevel {s : List Char} {v : Value} (h : Denotes levels s v)
    (hs : ValueForm levels' s) : Denotes levels' s v := by
  induction h generalizing levels' with
  | null => exact .null
  | true => exact .true
  | false => exact .false
  | number h => exact .number h
  | string h => exact .string h
  | emptyArray h =>
    obtain ⟨l, rfl, -⟩ := hs.of_bracket
    exact .emptyArray h
  | array h ih =>
    obtain ⟨l, rfl, -⟩ := hs.of_bracket
    exact .array fun x hx => ih x hx (hs.items (fun y hy => (h y hy).form) x hx)
  | emptyObject h =>
    obtain ⟨l, rfl, -⟩ := hs.of_brace
    exact .emptyObject h
  | object hkeys h ih =>
    obtain ⟨l, rfl, -⟩ := hs.of_brace
    refine .object hkeys fun x hx => ih x hx ?_
    exact hs.values (fun y hy => (hkeys y hy).form) (fun y hy => (h y hy).form) x hx

/-- What is spelled between the brackets of an object. -/
theorem Denotes.of_brace {s : List Char} {v : Value} (h : Denotes levels ('\x7b' :: s) v) :
    ∃ l, levels = l + 1 ∧ ((∃ blanks, Blanks blanks ∧ s = blanks ++ ['\x7d']) ∨
      ∃ (e : Entry Value) (es : List (Entry Value)),
        s = e.ahead (commaTail Entry.ahead es ['\x7d']) ∧
        (∀ x ∈ e :: es, DenotesString x.key.form x.key.meaning) ∧
        ∀ x ∈ e :: es, Denotes l x.value.form x.value.meaning) := by
  generalize hs : '\x7b' :: s = form at h
  cases h with
  | null | true | false => simp at hs
  | number h =>
    subst hs
    exact absurd h.form.head (by decide)
  | string h =>
    obtain ⟨body, rfl, -⟩ := h
    exact absurd (List.cons.inj hs).1 (by decide)
  | emptyArray | array => exact absurd (List.cons.inj hs).1 (by decide)
  | @emptyObject l blanks h => exact ⟨l, rfl, .inl ⟨blanks, h, (List.cons.inj hs).2⟩⟩
  | @object l e es hkeys hvalues =>
    exact ⟨l, rfl, .inr ⟨e, es, (List.cons.inj hs).2, hkeys, hvalues⟩⟩

/-- The values of an object that is spelled are spelled one level further in. -/
theorem Denotes.values {e : Entry β} {es : List (Entry β)} {v : Value}
    (hkeys : ∀ x ∈ e :: es, StringForm x.key.form)
    (hes : ∀ x ∈ e :: es, ValueForm levels' x.value.form)
    (h : Denotes (levels + 1) ('\x7b' :: e.ahead (commaTail Entry.ahead es ['\x7d'])) v) :
    ∀ x ∈ e :: es, ∃ w, Denotes levels x.value.form w := by
  obtain ⟨l, hl, ⟨blanks, hblanks, heq⟩ | ⟨f, fs, heq, hkeys', hfs⟩⟩ := h.of_brace
  · exact absurd heq.symm
      (blanks_ne_ahead hblanks (by decide) (hkeys e List.mem_cons_self).exists_cons)
  · intro x hx
    have hforms := Entry.forms_of_object hkeys (fun x hx => (hes x hx).part)
      (fun y hy => (hkeys' y hy).form) (fun y hy => (hfs y hy).form) heq
    obtain ⟨y, hy, hxy⟩ := hforms.1 x hx
    rw [hxy, Nat.succ.inj hl]
    exact ⟨_, hfs y hy⟩

/-! ## Whole texts -/

/-- **The JSON texts** in which up to so many brackets are open at a time: a form of a value with
blanks around it. -/
def IsText (levels : Nat) (text : String) : Prop :=
  ∃ p : Padded Unit, text.toList = p.ahead [] ∧ ValueForm levels p.form

/-- A whole text has one form. -/
theorem Padded.form_eq_of_text {p : Padded β} {q : Padded γ} (hp : ValueForm levels p.form)
    (hq : ValueForm levels' q.form) (h : p.ahead [] = q.ahead []) : p.form = q.form :=
  (Padded.form_eq hp.startsForm hq.startsForm
    (hp.endsOnce hq (endsValue_append p.blankAfter endsValue_nil)
      (endsValue_append q.blankAfter endsValue_nil)) rfl rfl h).1

/-- A form as a whole text. -/
def Padded.bare (form : List Char) : Padded Unit :=
  ⟨[], form, [], (), blanks_nil, blanks_nil⟩

theorem Padded.bare_ahead (form : List Char) : (Padded.bare form).ahead [] = form := by
  simp [Padded.ahead, Padded.bare]

/-- The brackets of a text are those of its form. -/
theorem IsText.relevel {text : String} {p : Padded β} (h : IsText levels text)
    (htext : text.toList = p.ahead []) (hform : ValueForm levels' p.form) :
    ValueForm levels p.form := by
  obtain ⟨q, hq, hqform⟩ := h
  rwa [← Padded.form_eq_of_text hqform hform (hq.symm.trans htext)]

/-- **A text is read if its form spells a value**, and it is refused otherwise. -/
theorem parse_of_form {text : String} {p : Padded β} (htext : text.toList = p.ahead [])
    (hform : ValueForm maxLevels p.form) :
    (∀ v, Denotes maxLevels p.form v → parse text = .ok v.sorted) ∧
    ((¬ ∃ v, Denotes maxLevels p.form v) → ∃ e, parse text = .error e) := by
  constructor
  · intro v hv
    exact TextOf.parse ⟨{ p with meaning := v }, htext, rfl, hv⟩
  · intro hnone
    cases hparse : parse text with
    | error e => exact ⟨e, rfl⟩
    | ok w =>
      obtain ⟨v, ⟨q, hq, -, hv⟩, -⟩ := exists_textOf hparse
      refine absurd ⟨v, ?_⟩ hnone
      rwa [Padded.form_eq_of_text hform hv.form (htext.symm.trans hq)]

end MailBlocks.Json
