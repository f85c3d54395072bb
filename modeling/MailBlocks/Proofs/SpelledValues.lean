import MailBlocks.Proofs.IndentedText
import MailBlocks.Proofs.SpelledLexemes

/-!
# The grammar of JSON texts

What a JSON text looks like, said without the reader: values in one of their spellings, with blanks
around them, commas between them and brackets about them. The reader takes the texts of the grammar
and no others, and what it gives is the value that the text spells, with the members of every object
in ascending key order.

* `Denotes`: the spellings of a value.
* `TextOf`: the texts of a value.
* `value_finds`: what is read is spelled there.
* `readsAs_of_denotes`: a spelling is read.
* `parse_eq_ok_iff`: the texts that are read.
-/

namespace MailBlocks.Json

variable {α β γ : Type}

/-! ## Blanks before a part -/

/-- More blanks before a part. -/
def Padded.indent (p : Padded β) {blanks : List Char} (h : Blanks blanks) : Padded β :=
  { p with
    before := blanks ++ p.before
    blankBefore := fun c hc => (List.mem_append.1 hc).elim (h c) (p.blankBefore c) }

theorem Padded.indent_ahead (p : Padded β) {blanks : List Char} (h : Blanks blanks)
    (r : List Char) : (p.indent h).ahead r = blanks ++ p.ahead r :=
  List.append_assoc _ _ _

/-- More blanks before an entry. -/
def Entry.indent (e : Entry β) {blanks : List Char} (h : Blanks blanks) : Entry β :=
  { e with key := e.key.indent h }

theorem Entry.indent_ahead (e : Entry β) {blanks : List Char} (h : Blanks blanks) (r : List Char) :
    (e.indent h).ahead r = blanks ++ e.ahead r :=
  e.key.indent_ahead h _

/-- What holds for all parts still does when the first of them is exchanged for one like it. -/
theorem forall_mem_cons_congr {P : γ → Prop} {x y : γ} {xs : List γ}
    (h : ∀ z ∈ x :: xs, P z) (hxy : P x → P y) : ∀ z ∈ y :: xs, P z := by
  obtain ⟨hx, hxs⟩ := List.forall_mem_cons.1 h
  exact List.forall_mem_cons.2 ⟨hxy hx, hxs⟩

/-- A text begins with the blanks that are skipped. -/
theorem exists_blanks (s : List Char) : ∃ blanks, Blanks blanks ∧ s = blanks ++ skipSpace s :=
  ⟨s.takeWhile isSpace, fun _ hc => List.mem_takeWhile_imp hc,
    List.takeWhile_append_dropWhile.symm⟩

/-! ## Spelled values -/

/-- **The spellings of a value** inside which up to so many brackets are open at a time. The members
of an object are the ones that are written, in their order and with repeated keys. -/
inductive Denotes : Nat → List Char → Value → Prop where
  | null {levels : Nat} : Denotes levels "null".toList .null
  | true {levels : Nat} : Denotes levels "true".toList (.bool true)
  | false {levels : Nat} : Denotes levels "false".toList (.bool false)
  | number {levels : Nat} {s : List Char} {n : Number} (h : DenotesNumber s n) :
      Denotes levels s (.number n)
  | string {levels : Nat} {s : List Char} {x : String} (h : DenotesString s x) :
      Denotes levels s (.string x)
  | emptyArray {levels : Nat} {blanks : List Char} (h : Blanks blanks) :
      Denotes (levels + 1) ('[' :: (blanks ++ [']'])) (.array [])
  | array {levels : Nat} {p : Padded Value} {ps : List (Padded Value)}
      (h : ∀ q ∈ p :: ps, Denotes levels q.form q.meaning) :
      Denotes (levels + 1) ('[' :: p.ahead (commaTail Padded.ahead ps [']']))
        (.array ((p :: ps).map (·.meaning)))
  | emptyObject {levels : Nat} {blanks : List Char} (h : Blanks blanks) :
      Denotes (levels + 1) ('\x7b' :: (blanks ++ ['\x7d'])) (.object [])
  | object {levels : Nat} {e : Entry Value} {es : List (Entry Value)}
      (hkeys : ∀ x ∈ e :: es, DenotesString x.key.form x.key.meaning)
      (hvalues : ∀ x ∈ e :: es, Denotes levels x.value.form x.value.meaning) :
      Denotes (levels + 1) ('\x7b' :: e.ahead (commaTail Entry.ahead es ['\x7d']))
        (.object ((e :: es).map Entry.meaning))

/-- **The texts of a value**: one of its spellings with blanks around it. -/
def TextOf (text : String) (v : Value) : Prop :=
  ∃ p : Padded Value, text.toList = p.ahead [] ∧ p.meaning = v ∧ Denotes maxLevels p.form v

/-! ## What is read is spelled there -/

/-- **A reader finds forms**: what it reads are blanks and a form of the grammar, and what it gives
is the result for what the form stands for. -/
def Finds (item : Reader α) (IsForm : List Char → β → Prop) (result : β → α) : Prop :=
  ∀ s a r, item s = .ok (a, r) →
    ∃ blanks form b, s = blanks ++ (form ++ r) ∧ Blanks blanks ∧ IsForm form b ∧ a = result b

section finds

variable {item : Reader α} {IsForm : List Char → β → Prop} {result : β → α}

/-- The part that is read first, with the blanks behind it. -/
theorem Finds.exists_padded (h : Finds item IsForm result) {s r : List Char} {a : α}
    (hs : item s = .ok (a, r)) :
    ∃ p : Padded β, s = p.ahead (skipSpace r) ∧ IsForm p.form p.meaning ∧ a = result p.meaning := by
  obtain ⟨before, form, b, rfl, hbefore, hform, rfl⟩ := h s a r hs
  obtain ⟨after, hafter, hr⟩ := exists_blanks r
  refine ⟨⟨before, form, after, b, hbefore, hafter⟩, ?_, hform, rfl⟩
  rw [Padded.ahead, ← hr]

theorem Finds.itemsFrom (h : Finds item IsForm result) {most : Nat} {s r : List Char} {as : List α}
    (hs : itemsFrom item most s = .ok (as, r)) :
    ∃ p ps, s = Padded.ahead p (commaTail Padded.ahead ps (']' :: r)) ∧
      (∀ q ∈ p :: ps, IsForm q.form q.meaning) ∧ as = (p :: ps).map fun q => result q.meaning := by
  induction most generalizing s as with
  | zero => cases hs
  | succ most ih =>
    obtain ⟨⟨a, t⟩, ha, hs⟩ := bind_eq_ok hs
    obtain ⟨p, rfl, hp, rfl⟩ := h.exists_padded ha
    simp only [bind, Except.bind] at hs
    split at hs
    · next u hu =>
      obtain ⟨rfl, rfl⟩ := Prod.mk.inj (Except.ok.inj hs)
      refine ⟨p, [], ?_, ?_, rfl⟩
      · rw [hu]
        rfl
      · simpa using hp
    · next u hu =>
      split at hs
      · cases hs
      · obtain ⟨⟨bs, w⟩, hbs, hs⟩ := bind_eq_ok hs
        obtain ⟨rfl, rfl⟩ := Prod.mk.inj (Except.ok.inj hs)
        obtain ⟨q, qs, hq, hqs, rfl⟩ := ih hbs
        obtain ⟨blanks, hblanks, hu'⟩ := exists_blanks u
        refine ⟨p, q.indent hblanks :: qs, ?_, ?_, rfl⟩
        · rw [hu, commaTail_cons, Padded.indent_ahead, ← hq, ← hu']
        · exact List.forall_mem_cons.2 ⟨hp, forall_mem_cons_congr hqs id⟩
    · cases hs
    · cases hs

/-- **The items that are read** up to a closing bracket. -/
theorem Finds.items (h : Finds item IsForm result) {s r : List Char} {as : List α}
    (hs : items item s = .ok (as, r)) :
    (∃ blanks, Blanks blanks ∧ s = blanks ++ ']' :: r ∧ as = []) ∨
    ∃ p ps, s = Padded.ahead p (commaTail Padded.ahead ps (']' :: r)) ∧
      (∀ q ∈ p :: ps, IsForm q.form q.meaning) ∧ as = (p :: ps).map fun q => result q.meaning := by
  obtain ⟨blanks, hblanks, hskip⟩ := exists_blanks s
  unfold Json.items at hs
  split at hs
  · next t ht =>
    obtain ⟨rfl, rfl⟩ := Prod.mk.inj (Except.ok.inj hs)
    rw [ht] at hskip
    exact .inl ⟨blanks, hblanks, hskip, rfl⟩
  · cases hs
  · obtain ⟨p, ps, hp, hps, has⟩ := h.itemsFrom hs
    refine .inr ⟨p.indent hblanks, ps, ?_, forall_mem_cons_congr hps id, has⟩
    rw [Padded.indent_ahead, ← hp, ← hskip]

theorem blanks_of_colon {s t : List Char} (h : colon s = .ok t) : skipSpace s = ':' :: t := by
  unfold colon at h
  split at h
  · next u hu =>
    obtain rfl := Except.ok.inj h
    exact hu
  · cases h
  · cases h

theorem Finds.membersFrom (h : Finds item IsForm result) {most : Nat} {s r : List Char}
    {ms : List (String × α)} (hs : membersFrom item most s = .ok (ms, r)) :
    ∃ e es, s = Entry.ahead e (commaTail Entry.ahead es ('\x7d' :: r)) ∧
      (∀ x ∈ e :: es, DenotesString x.key.form x.key.meaning) ∧
      (∀ x ∈ e :: es, IsForm x.value.form x.value.meaning) ∧
      ms = (e :: es).map fun x => (x.key.meaning, result x.value.meaning) := by
  induction most generalizing s ms with
  | zero => cases hs
  | succ most ih =>
    unfold Json.membersFrom at hs
    split at hs
    case h_2 => cases hs
    case h_1 most' s' heq =>
      obtain rfl := Nat.succ.inj heq
      obtain ⟨⟨key, t⟩, hkey, hs⟩ := bind_eq_ok hs
      obtain ⟨t', hcolon, hs⟩ := bind_eq_ok hs
      obtain ⟨⟨a, u⟩, ha, hs⟩ := bind_eq_ok hs
      obtain ⟨form, hform, hdenotes⟩ := denotesString_of_stringBody hkey
      obtain ⟨after, hafter, ht⟩ := exists_blanks t
      obtain ⟨p, rfl, hp, rfl⟩ := h.exists_padded ha
      rw [blanks_of_colon hcolon] at ht
      let e : Entry β := ⟨⟨[], form, after, key, blanks_nil, hafter⟩, p⟩
      have he : '"' :: s' = e.ahead (skipSpace u) := by
        rw [hform, ht]
        rfl
      simp only [bind, Except.bind] at hs
      split at hs
      · next v hv =>
        obtain ⟨rfl, rfl⟩ := Prod.mk.inj (Except.ok.inj hs)
        refine ⟨e, [], ?_, ?_, ?_, rfl⟩
        · rw [he, hv]
          rfl
        · simpa using hdenotes
        · simpa using hp
      · next v hv =>
        split at hs
        · cases hs
        · cases hs
        · obtain ⟨⟨bs, w⟩, hbs, hs⟩ := bind_eq_ok hs
          obtain ⟨rfl, rfl⟩ := Prod.mk.inj (Except.ok.inj hs)
          obtain ⟨f, fs, hf, hkeys, hvalues, rfl⟩ := ih hbs
          obtain ⟨blanks, hblanks, hv'⟩ := exists_blanks v
          refine ⟨e, f.indent hblanks :: fs, ?_, ?_, ?_, rfl⟩
          · rw [he, hv, commaTail_cons, Entry.indent_ahead, ← hf, ← hv']
          · exact List.forall_mem_cons.2 ⟨hdenotes, forall_mem_cons_congr hkeys id⟩
          · exact List.forall_mem_cons.2 ⟨hp, forall_mem_cons_congr hvalues id⟩
      · cases hs
      · cases hs

/-- **The members that are read** up to a closing bracket. -/
theorem Finds.members (h : Finds item IsForm result) {s r : List Char}
    {ms : List (String × α)} (hs : members item s = .ok (ms, r)) :
    (∃ blanks, Blanks blanks ∧ s = blanks ++ '\x7d' :: r ∧ ms = []) ∨
    ∃ e es, s = Entry.ahead e (commaTail Entry.ahead es ('\x7d' :: r)) ∧
      (∀ x ∈ e :: es, DenotesString x.key.form x.key.meaning) ∧
      (∀ x ∈ e :: es, IsForm x.value.form x.value.meaning) ∧
      ms = (e :: es).map fun x => (x.key.meaning, result x.value.meaning) := by
  obtain ⟨blanks, hblanks, hskip⟩ := exists_blanks s
  unfold Json.members at hs
  split at hs
  · next t ht =>
    obtain ⟨rfl, rfl⟩ := Prod.mk.inj (Except.ok.inj hs)
    rw [ht] at hskip
    exact .inl ⟨blanks, hblanks, hskip, rfl⟩
  · cases hs
  · obtain ⟨e, es, he, hkeys, hvalues, hms⟩ := h.membersFrom hs
    refine .inr ⟨e.indent hblanks, es, ?_, ?_, ?_, hms⟩
    · rw [Entry.indent_ahead, ← he, ← hskip]
    · exact forall_mem_cons_congr hkeys id
    · exact forall_mem_cons_congr hvalues id

end finds

/-- **One step of reading a value**: what is ahead, the value that is given and what is left. -/
inductive Opens : Nat → List Char → Value → List Char → Prop where
  | null {levels : Nat} {r : List Char} : Opens levels ("null".toList ++ r) .null r
  | true {levels : Nat} {r : List Char} : Opens levels ("true".toList ++ r) (.bool true) r
  | false {levels : Nat} {r : List Char} : Opens levels ("false".toList ++ r) (.bool false) r
  | minus {levels : Nat} {t r : List Char} {n : Number} (h : number true t = .ok (n, r)) :
      Opens levels ('-' :: t) (.number n) r
  | digit {levels : Nat} {c : Char} {t r : List Char} {n : Number} (hc : c.isDigit)
      (h : number false (c :: t) = .ok (n, r)) : Opens levels (c :: t) (.number n) r
  | string {levels : Nat} {t r : List Char} {x : String} (h : stringBody [] t = .ok (x, r)) :
      Opens levels ('"' :: t) (.string x) r
  | array {levels : Nat} {t r : List Char} {vs : List Value}
      (h : items (value levels) t = .ok (vs, r)) : Opens (levels + 1) ('[' :: t) (.array vs) r
  | object {levels : Nat} {t r : List Char} {ms : List (String × Value)}
      (h : members (value levels) t = .ok (ms, r)) :
      Opens (levels + 1) ('\x7b' :: t) (.object (Keyed.ofList ms)) r

theorem append_of_word {w s r : List Char} (h : word w s = .ok r) : s = w ++ r := by
  induction w generalizing s with
  | nil => exact Except.ok.inj h
  | cons c w ih =>
    cases s with
    | nil => cases h
    | cons d s =>
      rw [word] at h
      split at h
      · next hcd => rw [hcd, ih h, List.cons_append]
      · cases h

/-- **What is ahead of a value that is read.** -/
theorem opens_of_value {levels : Nat} {s r : List Char} {v : Value}
    (h : value levels s = .ok (v, r)) : Opens levels (skipSpace s) v r := by
  unfold value at h
  generalize skipSpace s = t at h ⊢
  split at h
  case h_1 | h_7 | h_9 => cases h
  case h_2 | h_3 | h_4 =>
    obtain ⟨u, hu, h⟩ := map_eq_ok h
    obtain ⟨rfl, rfl⟩ := Prod.mk.inj h
    rw [append_of_word hu]
    first
      | exact .null
      | exact .true
      | exact .false
  case h_5 =>
    obtain ⟨⟨n, u⟩, hu, h⟩ := map_eq_ok h
    obtain ⟨rfl, rfl⟩ := Prod.mk.inj h
    exact .minus hu
  case h_6 =>
    obtain ⟨⟨x, u⟩, hu, h⟩ := map_eq_ok h
    obtain ⟨rfl, rfl⟩ := Prod.mk.inj h
    exact .string hu
  case h_8 =>
    obtain ⟨⟨vs, u⟩, hu, h⟩ := map_eq_ok h
    obtain ⟨rfl, rfl⟩ := Prod.mk.inj h
    exact .array hu
  case h_10 =>
    obtain ⟨⟨ms, u⟩, hu, h⟩ := map_eq_ok h
    obtain ⟨rfl, rfl⟩ := Prod.mk.inj h
    exact .object hu
  case h_11 =>
    split at h
    · next hc =>
      obtain ⟨⟨n, u⟩, hu, h⟩ := map_eq_ok h
      obtain ⟨rfl, rfl⟩ := Prod.mk.inj h
      exact .digit hc hu
    · cases h

theorem commaTail_append {ahead : γ → List Char → List Char}
    (h : ∀ x r t, ahead x r ++ t = ahead x (r ++ t)) (xs : List γ) (r t : List Char) :
    commaTail ahead xs r ++ t = commaTail ahead xs (r ++ t) := by
  induction xs with
  | nil => rfl
  | cons x xs ih => rw [commaTail_cons, List.cons_append, h, ih, commaTail_cons]

theorem Padded.ahead_append (p : Padded β) (r t : List Char) :
    p.ahead r ++ t = p.ahead (r ++ t) := by
  simp [Padded.ahead]

theorem Entry.ahead_append (e : Entry β) (r t : List Char) :
    e.ahead r ++ t = e.ahead (r ++ t) := by
  simp [Entry.ahead, Padded.ahead]

theorem arrayForm_append (p : Padded β) (ps : List (Padded β)) (r : List Char) :
    '[' :: p.ahead (commaTail Padded.ahead ps [']']) ++ r =
      '[' :: p.ahead (commaTail Padded.ahead ps (']' :: r)) := by
  rw [List.cons_append, Padded.ahead_append, commaTail_append Padded.ahead_append]
  rfl

theorem objectForm_append (e : Entry β) (es : List (Entry β)) (r : List Char) :
    '\x7b' :: e.ahead (commaTail Entry.ahead es ['\x7d']) ++ r =
      '\x7b' :: e.ahead (commaTail Entry.ahead es ('\x7d' :: r)) := by
  rw [List.cons_append, Entry.ahead_append, commaTail_append Entry.ahead_append]
  rfl

theorem Value.sorted_array_map (f : γ → Value) (xs : List γ) :
    (Value.array (xs.map f)).sorted = .array (xs.map fun x => (f x).sorted) := by
  rw [Value.sorted, Value.sortedItems_eq_map, List.map_map]
  rfl

theorem Value.sorted_object_map (f : γ → String × Value) (xs : List γ) :
    (Value.object (xs.map f)).sorted =
      .object (Keyed.ofList (xs.map fun x => ((f x).1, (f x).2.sorted))) := by
  rw [Value.sorted, Value.sortedMembers_eq_map, List.map_map]
  rfl

/-- One step finds a spelling, if the reader between its brackets does. -/
theorem Opens.exists_form {levels : Nat} {s r : List Char} {w : Value} (h : Opens levels s w r)
    (hinner : ∀ l, levels = l + 1 → Finds (value l) (Denotes l) Value.sorted) :
    ∃ form v, s = form ++ r ∧ Denotes levels form v ∧ w = v.sorted := by
  cases h with
  | null => exact ⟨_, .null, rfl, .null, rfl⟩
  | true => exact ⟨_, .bool .true, rfl, .true, rfl⟩
  | false => exact ⟨_, .bool .false, rfl, .false, rfl⟩
  | minus h =>
    obtain ⟨form, rfl, hform, hread⟩ := numeral_of_number h
    exact ⟨'-' :: form, _, rfl, .number (.negative hform hread), rfl⟩
  | digit _ h =>
    obtain ⟨form, hs, hform, hread⟩ := numeral_of_number h
    exact ⟨form, _, hs, .number (.positive hform hread), rfl⟩
  | string h =>
    obtain ⟨form, hs, hform⟩ := denotesString_of_stringBody h
    exact ⟨form, _, hs, .string hform, rfl⟩
  | array h =>
    rcases (hinner _ rfl).items h with ⟨blanks, hblanks, rfl, rfl⟩ | ⟨p, ps, rfl, hps, rfl⟩
    · exact ⟨'[' :: (blanks ++ [']']), .array [], by simp, .emptyArray hblanks, rfl⟩
    · refine ⟨_, _, (arrayForm_append p ps r).symm, .array hps, ?_⟩
      rw [Value.sorted_array_map]
  | object h =>
    rcases (hinner _ rfl).members h with ⟨blanks, hblanks, rfl, rfl⟩ | ⟨e, es, rfl, hkeys, hvs, rfl⟩
    · exact ⟨'\x7b' :: (blanks ++ ['\x7d']), .object [], by simp, .emptyObject hblanks, rfl⟩
    · refine ⟨_, _, (objectForm_append e es r).symm, .object hkeys hvs, ?_⟩
      rw [Value.sorted_object_map]
      rfl

/-- **What is read as a value is spelled there**, and it is given in canonical order. -/
theorem value_finds (levels : Nat) : Finds (value levels) (Denotes levels) Value.sorted := by
  induction levels with
  | zero =>
    intro s w r h
    obtain ⟨form, v, hs, hv, hw⟩ := (opens_of_value h).exists_form nofun
    obtain ⟨blanks, hblanks, hskip⟩ := exists_blanks s
    exact ⟨blanks, form, v, by rw [← hs, ← hskip], hblanks, hv, hw⟩
  | succ levels ih =>
    intro s w r h
    obtain ⟨form, v, hs, hv, hw⟩ := (opens_of_value h).exists_form
      (fun l hl => by
        obtain rfl := Nat.succ.inj hl
        exact ih)
    obtain ⟨blanks, hblanks, hskip⟩ := exists_blanks s
    exact ⟨blanks, form, v, by rw [← hs, ← hskip], hblanks, hv, hw⟩

/-! ## What is spelled is read -/

theorem DenotesString.readsKey {s : List Char} {x : String} (h : DenotesString s x) :
    ReadsKey s x := h.read

variable {levels : Nat}

/-- An array is read, if its items are, whatever follows its closing bracket. -/
theorem value_arrayForm {p : Padded Value} {ps : List (Padded Value)}
    (h : ∀ q ∈ p :: ps, ReadsAs (value levels) q.form q.meaning.sorted) {s r : List Char}
    (hs : skipSpace s = '[' :: p.ahead (commaTail Padded.ahead ps [']']) ++ r) :
    value (levels + 1) s = .ok ((Value.array ((p :: ps).map (·.meaning))).sorted, r) := by
  rw [arrayForm_append] at hs
  have hitems := items_ahead h blanks_nil r
  rw [List.nil_append] at hitems
  rw [value_of_bracket hs, hitems, Value.sorted_array_map]
  rfl

/-- An object is read, if the values of its members are, whatever follows its closing bracket. -/
theorem value_objectForm {e : Entry Value} {es : List (Entry Value)}
    (hkeys : ∀ x ∈ e :: es, DenotesString x.key.form x.key.meaning)
    (h : ∀ x ∈ e :: es, ReadsAs (value levels) x.value.form x.value.meaning.sorted)
    {s r : List Char}
    (hs : skipSpace s = '\x7b' :: e.ahead (commaTail Entry.ahead es ['\x7d']) ++ r) :
    value (levels + 1) s = .ok ((Value.object ((e :: es).map Entry.meaning)).sorted, r) := by
  rw [objectForm_append] at hs
  have hmembers := members_ahead (fun x hx => (hkeys x hx).readsKey) h blanks_nil r
  rw [List.nil_append] at hmembers
  rw [value_of_brace hs, hmembers, Value.sorted_object_map]
  rfl

/-- An array without items is read, whatever follows its closing bracket. -/
theorem value_emptyArray {blanks : List Char} (h : Blanks blanks) {s r : List Char}
    (hs : skipSpace s = '[' :: (blanks ++ [']']) ++ r) :
    value (levels + 1) s = .ok (.array [], r) := by
  have hbracket : skipSpace s = '[' :: (blanks ++ ']' :: r) := by
    rw [hs]
    simp
  rw [value_of_bracket hbracket, items, skipSpace_close (by decide) h]
  rfl

/-- An object without members is read, whatever follows its closing bracket. -/
theorem value_emptyObject {blanks : List Char} (h : Blanks blanks) {s r : List Char}
    (hs : skipSpace s = '\x7b' :: (blanks ++ ['\x7d']) ++ r) :
    value (levels + 1) s = .ok (.object [], r) := by
  have hbrace : skipSpace s = '\x7b' :: (blanks ++ '\x7d' :: r) := by
    rw [hs]
    simp
  rw [value_of_brace hbrace, members, skipSpace_close (by decide) h]
  rfl

/-- **A spelling is read** as its value in canonical order. -/
theorem readsAs_of_denotes {form : List Char} {v : Value} (h : Denotes levels form v) :
    ReadsAs (value levels) form v.sorted := by
  induction h with
  | null => exact ⟨⟨'n', _, rfl, by decide, by decide⟩, fun s r hs _ => value_of_null hs⟩
  | true => exact ⟨⟨'t', _, rfl, by decide, by decide⟩, fun s r hs _ => value_of_true hs⟩
  | false => exact ⟨⟨'f', _, rfl, by decide, by decide⟩, fun s r hs _ => value_of_false hs⟩
  | number h => exact readsAs_number h
  | string h =>
    obtain ⟨body, rfl, hbody⟩ := h.read
    refine ⟨⟨'"', _, rfl, by decide, by decide⟩, fun s r hs _ => ?_⟩
    have hquote : skipSpace s = '"' :: (body ++ r) := hs
    rw [value_of_quote hquote, hbody]
    rfl
  | emptyArray h =>
    exact ⟨⟨'[', _, rfl, by decide, by decide⟩, fun s r hs _ => value_emptyArray h hs⟩
  | array _ ih =>
    exact ⟨⟨'[', _, rfl, by decide, by decide⟩, fun s r hs _ => value_arrayForm ih hs⟩
  | emptyObject h =>
    exact ⟨⟨'\x7b', _, rfl, by decide, by decide⟩, fun s r hs _ => value_emptyObject h hs⟩
  | object hkeys _ ih =>
    exact ⟨⟨'\x7b', _, rfl, by decide, by decide⟩, fun s r hs _ => value_objectForm hkeys ih hs⟩

/-- A spelled array is read, whatever follows its closing bracket. -/
theorem Denotes.read_array {form : List Char} {vs : List Value}
    (h : Denotes levels form (.array vs)) {s r : List Char} (hs : skipSpace s = form ++ r) :
    value levels s = .ok ((Value.array vs).sorted, r) := by
  cases h with
  | emptyArray h => exact value_emptyArray h hs
  | array h => exact value_arrayForm (fun q hq => readsAs_of_denotes (h q hq)) hs

/-- **Arrays and objects.** -/
inductive Value.Bracketed : Value → Prop where
  | array (items : List Value) : Bracketed (.array items)
  | object (members : List (String × Value)) : Bracketed (.object members)

/-- Arrays and objects are spelled from an opening bracket on. -/
theorem Denotes.exists_bracket {form : List Char} {v : Value} (h : Denotes levels form v)
    (hv : v.Bracketed) : ∃ c ∈ ['[', '\x7b'], ∃ t, form = c :: t := by
  cases hv with
  | array =>
    cases h with
    | emptyArray | array => exact ⟨'[', by decide, _, rfl⟩
  | object =>
    cases h with
    | emptyObject | object => exact ⟨'\x7b', by decide, _, rfl⟩

/-! ## Whole texts -/

/-- **The texts that are read** are those of the grammar, and each gives its value in canonical
order. -/
theorem parse_eq_ok_iff {text : String} {w : Value} :
    parse text = .ok w ↔ ∃ v, TextOf text v ∧ w = v.sorted := by
  rw [parse_iff_value]
  constructor
  · rintro ⟨r, hvalue, hend⟩
    obtain ⟨p, hp, hform, hw⟩ := (value_finds maxLevels).exists_padded hvalue
    rw [hend] at hp
    exact ⟨p.meaning, ⟨p, hp, rfl, hform⟩, hw⟩
  · rintro ⟨v, ⟨p, hp, rfl, hform⟩, rfl⟩
    have hreads := readsAs_of_denotes hform
    have hafter : p.after ++ [] = p.after := List.append_nil _
    have hends : EndsValue p.after := by
      rw [← hafter]
      exact endsValue_append p.blankAfter endsValue_nil
    have hskip := hreads.skipSpace_ahead (p := p) []
    refine ⟨p.after, ?_, ?_⟩
    · rw [hp]
      rw [hafter] at hskip
      exact hreads.read _ _ hskip hends
    · rw [← hafter, skipSpace_append p.blankAfter]
      rfl

/-- A text is the text of a value if it is read. -/
theorem exists_textOf {text : String} {w : Value} (h : parse text = .ok w) :
    ∃ v, TextOf text v ∧ w = v.sorted :=
  parse_eq_ok_iff.1 h

/-- What a text of a value is read as. -/
theorem TextOf.parse {text : String} {v : Value} (h : TextOf text v) :
    parse text = .ok v.sorted :=
  parse_eq_ok_iff.2 ⟨v, h, rfl⟩

end MailBlocks.Json
