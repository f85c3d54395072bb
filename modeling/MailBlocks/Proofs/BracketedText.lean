import Mathlib.Data.List.TakeWhile
import MailBlocks.Json.Decoder
import MailBlocks.Keyed

/-!
# Written values read back

Values are written without blanks or on lines of their own. Either way a reader meets the same
forms with blanks between them: the items of an array and the members of an object come back in
their order, if the reader of the items reads each of their forms.

* `ReadsAs`: a reader and a written form.
* `readsAs_string`: the form of a string.
* `Padded`, `Entry`: what stands between commas, with any blanks around it.
* `items_ahead`, `members_ahead`: what stands between brackets.
* `items_flatMap`, `members_flatMap`: the same where each form has the same blanks around it.
-/

namespace MailBlocks.Json

variable {α β γ : Type}

/-! ## Outcomes -/

theorem map_eq_ok {ε : Type} {x : Except ε α} {f : α → β} {b : β} (h : x.map f = .ok b) :
    ∃ a, x = .ok a ∧ f a = b := by
  cases x with
  | error e => cases h
  | ok a => exact ⟨a, rfl, Except.ok.inj h⟩

theorem bind_eq_ok {ε : Type} {x : Except ε α} {f : α → Except ε β} {b : β}
    (h : x.bind f = .ok b) : ∃ a, x = .ok a ∧ f a = .ok b := by
  cases x with
  | error e => cases h
  | ok a => exact ⟨a, rfl, h⟩

/-- What is computed can be evaluated with the errors left out. -/
theorem eq_ok_of_toOption {ε : Type} {x : Except ε α} {a : α} (h : x.toOption = some a) :
    x = .ok a := by
  cases x with
  | error e => cases h
  | ok b => exact congrArg Except.ok (Option.some.inj h)

theorem bind_ne_ok {ε : Type} {f : α → Except ε β} (hf : ∀ a b, f a ≠ .ok b) (x : Except ε α)
    (b : β) : x.bind f ≠ .ok b := by
  intro h
  obtain ⟨a, -, ha⟩ := bind_eq_ok h
  exact hf a b ha

/-- **A whole text is read as a shape** if a value of the shape is read first and blanks are left. -/
theorem Decoder.parse_eq_ok_iff {d : Decoder α} {text : String} {a : α} :
    d.parse text = .ok a ↔
      ∃ r, d.ofText maxLevels text.toList = .ok (.ok a, r) ∧ skipSpace r = [] := by
  unfold Decoder.parse
  dsimp only
  constructor
  · intro h
    split at h
    case h_2 => cases h
    case h_1 outcome hwhole =>
      obtain rfl := Except.ok.inj h
      obtain ⟨⟨read, r⟩, hread, hrest⟩ := bind_eq_ok hwhole
      cases read with
      | error c => cases hrest
      | ok b =>
        dsimp only at hrest
        split at hrest
        case h_2 => cases hrest
        case h_1 hend =>
          obtain rfl := Except.ok.inj hrest
          exact ⟨r, hread, hend⟩
  · rintro ⟨r, hread, hend⟩
    rw [hread]
    simp only [bind, Except.bind, hend]

/-- A whole text is read as a value. -/
theorem parse_iff_value {text : String} {v : Value} :
    parse text = .ok v ↔ ∃ r, value maxLevels text.toList = .ok (v, r) ∧ skipSpace r = [] := by
  refine Decoder.parse_eq_ok_iff.trans (exists_congr fun r => and_congr_left' ?_)
  constructor
  · intro h
    obtain ⟨⟨w, u⟩, hread, hw⟩ := map_eq_ok h
    obtain ⟨hvalue, rfl⟩ := Prod.mk.inj hw
    obtain rfl := Except.ok.inj hvalue
    exact hread
  · exact congrArg (Except.map _)

/-! ## Blanks -/

/-- The blanks between the forms of a text. -/
def Blanks (s : List Char) : Prop :=
  ∀ c ∈ s, isSpace c

theorem blanks_nil : Blanks [] := nofun

theorem skipSpace_cons {c : Char} (h : ¬ isSpace c) (s : List Char) :
    skipSpace (c :: s) = c :: s :=
  List.dropWhile_cons_of_neg h

theorem skipSpace_append {blanks : List Char} (h : Blanks blanks) (s : List Char) :
    skipSpace (blanks ++ s) = skipSpace s :=
  List.dropWhile_append_of_pos h

/-- **What follows a value** between brackets or at the end of a text. -/
def EndsValue (r : List Char) : Prop :=
  ∀ c s, r = c :: s → c = ',' ∨ c = ']' ∨ c = '\x7d' ∨ isSpace c

theorem endsValue_nil : EndsValue [] := nofun

theorem endsValue_cons {c : Char} (h : c = ',' ∨ c = ']' ∨ c = '\x7d' ∨ isSpace c)
    (s : List Char) : EndsValue (c :: s) := by
  rintro _ _ ⟨rfl, rfl⟩
  exact h

theorem endsValue_append {blanks : List Char} (h : Blanks blanks) {r : List Char}
    (hr : EndsValue r) : EndsValue (blanks ++ r) := by
  cases blanks with
  | nil => exact hr
  | cons c blanks => exact endsValue_cons (.inr (.inr (.inr (h c List.mem_cons_self)))) _

/-- **A reader reads a written form** as `a`, also behind blanks, and leaves what follows. The form
begins with a character that no reader of items passes over. -/
structure ReadsAs (item : Reader α) (form : List Char) (a : α) : Prop where
  head : ∃ c s, form = c :: s ∧ ¬ isSpace c ∧ c ≠ ']'
  read : ∀ s r, skipSpace s = form ++ r → EndsValue r → item s = .ok (a, r)

/-- Behind blanks, a form is what is found first. -/
theorem ReadsAs.skipSpace_append {item : Reader α} {form : List Char} {a : α}
    (h : ReadsAs item form a) {blanks : List Char} (hblanks : Blanks blanks) (r : List Char) :
    skipSpace (blanks ++ (form ++ r)) = form ++ r := by
  obtain ⟨c, s, rfl, hspace, -⟩ := h.head
  rw [Json.skipSpace_append hblanks]
  exact skipSpace_cons hspace _

/-- A form that is a whole text is read to its end. -/
theorem ReadsAs.read_form {item : Reader α} {form : List Char} {a : α}
    (h : ReadsAs item form a) : item form = .ok (a, []) := by
  obtain ⟨c, s, rfl, hspace, -⟩ := h.head
  refine h.read (c :: s) [] ?_ endsValue_nil
  rw [List.append_nil]
  exact skipSpace_cons hspace s

/-! ## Strings -/

theorem value_of_quote {levels : Nat} {s t : List Char} (h : skipSpace s = '"' :: t) :
    value levels s = (stringBody [] t).map fun (x, r) => (.string x, r) := by
  unfold value
  rw [h]
  cases levels <;> rfl

/-- A string is read as itself. -/
theorem readsAs_string (levels : Nat) (x : String) :
    ReadsAs (value levels) (stringChars x) (.string x) where
  head := ⟨'"', _, rfl, by decide, by decide⟩
  read s r hs _ := by
    have hquote : skipSpace s = '"' :: (x.toList.flatMap escapedChar ++ '"' :: r) := by
      rw [hs]
      simp [stringChars]
    rw [value_of_quote hquote, stringBody_written]
    rfl

/-! ## Parts and commas -/

/-- **A part of a text with the blanks around it**: its form and what it stands for. -/
structure Padded (β : Type) where
  before : List Char
  form : List Char
  after : List Char
  meaning : β
  blankBefore : Blanks before
  blankAfter : Blanks after

/-- A key and its value. -/
structure Entry (β : Type) where
  key : Padded String
  value : Padded β

/-- The text of a part with `r` behind it. -/
def Padded.ahead (p : Padded β) (r : List Char) : List Char :=
  p.before ++ (p.form ++ (p.after ++ r))

/-- The text of a key and its value with `r` behind them. -/
def Entry.ahead (e : Entry β) (r : List Char) : List Char :=
  e.key.ahead (':' :: e.value.ahead r)

/-- What an entry stands for. -/
def Entry.meaning (e : Entry β) : String × β :=
  (e.key.meaning, e.value.meaning)

/-- The text of further parts, each behind a comma, with `r` behind them. -/
def commaTail (ahead : γ → List Char → List Char) (xs : List γ) (r : List Char) : List Char :=
  xs.foldr (fun x s => ',' :: ahead x s) r

theorem commaTail_nil {ahead : γ → List Char → List Char} (r : List Char) :
    commaTail ahead [] r = r := rfl

theorem commaTail_cons {ahead : γ → List Char → List Char} (x : γ) (xs : List γ) (r : List Char) :
    commaTail ahead (x :: xs) r = ',' :: ahead x (commaTail ahead xs r) := rfl

theorem endsValue_commaTail {ahead : γ → List Char → List Char} {xs : List γ} {r : List Char}
    (h : EndsValue r) : EndsValue (commaTail ahead xs r) := by
  cases xs with
  | nil => exact h
  | cons x xs => exact endsValue_cons (.inl rfl) _

theorem Padded.length_le_ahead (p : Padded β) (r : List Char) :
    r.length ≤ (p.ahead r).length := by
  simp only [Padded.ahead, List.length_append]
  omega

theorem Entry.length_le_ahead (e : Entry β) (r : List Char) : r.length ≤ (e.ahead r).length := by
  have hvalue := e.value.length_le_ahead r
  have hkey := e.key.length_le_ahead (':' :: e.value.ahead r)
  rw [List.length_cons] at hkey
  exact Nat.le_trans hvalue (Nat.le_of_succ_le hkey)

/-- Every further part is a comma longer. -/
theorem length_le_commaTail {ahead : γ → List Char → List Char}
    (h : ∀ x r, r.length ≤ (ahead x r).length) (xs : List γ) (r : List Char) :
    xs.length + r.length ≤ (commaTail ahead xs r).length := by
  induction xs with
  | nil => exact Nat.le_of_eq (Nat.zero_add _)
  | cons x xs ih =>
    have hx := h x (commaTail ahead xs r)
    rw [commaTail_cons, List.length_cons, List.length_cons]
    omega

section brackets

variable {item : Reader α} {result : β → α} {close : List Char}

/-- A part is found behind the blanks before it. -/
theorem ReadsAs.skipSpace_ahead {p : Padded β} {a : α} (h : ReadsAs item p.form a)
    (r : List Char) : skipSpace (p.ahead r) = p.form ++ (p.after ++ r) :=
  h.skipSpace_append p.blankBefore _

theorem skipSpace_close {c : Char} (hc : ¬ isSpace c) (hclose : Blanks close) (r : List Char) :
    skipSpace (close ++ c :: r) = c :: r := by
  rw [skipSpace_append hclose]
  exact skipSpace_cons hc r

/-! ## Items -/

theorem itemsFrom_ahead {p : Padded β} {ps : List (Padded β)}
    (h : ∀ q ∈ p :: ps, ReadsAs item q.form (result q.meaning)) (hclose : Blanks close) {most : Nat}
    (hmost : ps.length < most) {s r : List Char}
    (hs : skipSpace s = p.form ++ (p.after ++ commaTail Padded.ahead ps (close ++ ']' :: r))) :
    itemsFrom item most s = .ok ((p :: ps).map fun q => result q.meaning, r) := by
  have hends : EndsValue (close ++ ']' :: r) :=
    endsValue_append hclose (endsValue_cons (.inr (.inl rfl)) r)
  induction ps generalizing p most s with
  | nil =>
    obtain ⟨most, rfl⟩ := Nat.exists_eq_add_one.2 hmost
    rw [commaTail_nil] at hs
    have hread := (h p List.mem_cons_self).read s _ hs (endsValue_append p.blankAfter hends)
    have hend : skipSpace (p.after ++ (close ++ ']' :: r)) = ']' :: r := by
      rw [skipSpace_append p.blankAfter, skipSpace_close (by decide) hclose]
    rw [itemsFrom, hread]
    simp only [bind, Except.bind, hend]
    rfl
  | cons q qs ih =>
    obtain ⟨most, rfl⟩ := Nat.exists_eq_add_one.2 (Nat.lt_of_le_of_lt (Nat.zero_le _) hmost)
    obtain ⟨hp, hqs⟩ := List.forall_mem_cons.1 h
    have hread := hp.read s _ hs (endsValue_append p.blankAfter (endsValue_commaTail hends))
    have hcomma : skipSpace (p.after ++ commaTail Padded.ahead (q :: qs) (close ++ ']' :: r)) =
        ',' :: q.ahead (commaTail Padded.ahead qs (close ++ ']' :: r)) := by
      rw [skipSpace_append p.blankAfter]
      exact skipSpace_cons (by decide) _
    have hq := hqs q List.mem_cons_self
    have hnext := hq.skipSpace_ahead (commaTail Padded.ahead qs (close ++ ']' :: r))
    have hrest := ih hqs (Nat.lt_of_succ_lt_succ hmost) (hq.skipSpace_append blanks_nil _)
    obtain ⟨c, u, hc, -, hbracket⟩ := hq.head
    rw [itemsFrom, hread]
    simp only [bind, Except.bind, hcomma, hnext]
    rw [List.nil_append, hc, List.cons_append] at hrest
    rw [hc, List.cons_append]
    split
    · next he => exact absurd (List.cons.inj he).1 hbracket
    · rw [hrest]
      rfl

/-- **The items of an array are read**, up to the closing bracket. -/
theorem items_ahead {p : Padded β} {ps : List (Padded β)}
    (h : ∀ q ∈ p :: ps, ReadsAs item q.form (result q.meaning)) (hclose : Blanks close)
    (r : List Char) :
    items item (p.ahead (commaTail Padded.ahead ps (close ++ ']' :: r))) =
      .ok ((p :: ps).map fun q => result q.meaning, r) := by
  have hp := h p List.mem_cons_self
  have hskip := hp.skipSpace_ahead (commaTail Padded.ahead ps (close ++ ']' :: r))
  obtain ⟨c, s, hc, -, hbracket⟩ := hp.head
  have hmost : ps.length <
      (p.form ++ (p.after ++ commaTail Padded.ahead ps (close ++ ']' :: r))).length := by
    have hle := length_le_commaTail Padded.length_le_ahead ps (close ++ ']' :: r)
    rw [hc, List.cons_append, List.length_cons, List.length_append, List.length_append]
    omega
  have hfrom := itemsFrom_ahead (r := r) h hclose hmost (hp.skipSpace_append blanks_nil _)
  rw [items, hskip]
  rw [List.nil_append, hc, List.cons_append] at hfrom
  rw [hc, List.cons_append]
  split
  · next he => exact absurd (List.cons.inj he).1 hbracket
  · next he => cases he
  · exact hfrom

/-! ## Members -/

/-- A form that is read as a key: a quote and what is read as the string, whatever follows. -/
def ReadsKey (form : List Char) (x : String) : Prop :=
  ∃ body, form = '"' :: body ∧ ∀ r, stringBody [] (body ++ r) = .ok (x, r)

theorem readsKey_stringChars (x : String) : ReadsKey (stringChars x) x :=
  ⟨x.toList.flatMap escapedChar ++ ['"'], rfl, fun r => by
    rw [List.append_assoc]
    exact stringBody_written x r⟩

/-- A key is found behind the blanks before it. -/
theorem ReadsKey.skipSpace_ahead {p : Padded String} {x : String} (h : ReadsKey p.form x)
    (r : List Char) : skipSpace (p.ahead r) = p.form ++ (p.after ++ r) := by
  obtain ⟨body, hbody, -⟩ := h
  rw [Padded.ahead, skipSpace_append p.blankBefore, hbody]
  exact skipSpace_cons (by decide) _

theorem colon_blanks {blanks : List Char} (h : Blanks blanks) (s : List Char) :
    colon (blanks ++ ':' :: s) = .ok s := by
  unfold colon
  rw [skipSpace_close (by decide) h]
  rfl

/-- What follows a member: the closing bracket, or a comma and more members. -/
def afterMember (item : Reader α) (most : Nat) (m : String × α) (s : List Char) :
    Except Fault (List (String × α) × List Char) :=
  match skipSpace s with
  | '\x7d' :: t => .ok ([m], t)
  | ',' :: t =>
    match skipSpace t with
    | '\x7d' :: u => offending .trailingComma ('\x7d' :: u)
    | [] => reached .endInValue []
    | u => (membersFrom item most u).bind fun (ms, w) => .ok (m :: ms, w)
  | [] => reached .endInObject []
  | t => offending .expectedObjectComma t

/-- A key and its value are read with the colon between them. -/
theorem membersFrom_entry {e : Entry β} {a : α} (hkey : ReadsKey e.key.form e.key.meaning)
    (hvalue : ReadsAs item e.value.form a) {r : List Char} (hr : EndsValue r) (most : Nat) :
    membersFrom item (most + 1) (e.key.form ++ (e.key.after ++ ':' :: e.value.ahead r)) =
      afterMember item most (e.key.meaning, a) r := by
  obtain ⟨body, hbody, hread⟩ := hkey
  have ha := hvalue.read _ _ (hvalue.skipSpace_ahead r) (endsValue_append e.value.blankAfter hr)
  rw [hbody, List.cons_append, membersFrom, hread]
  simp only [bind, Except.bind, colon_blanks e.key.blankAfter, ha,
    skipSpace_append e.value.blankAfter]
  rfl

theorem membersFrom_ahead {e : Entry β} {es : List (Entry β)}
    (hkeys : ∀ x ∈ e :: es, ReadsKey x.key.form x.key.meaning)
    (hvalues : ∀ x ∈ e :: es, ReadsAs item x.value.form (result x.value.meaning))
    (hclose : Blanks close) {most : Nat} (hmost : es.length < most) (r : List Char) :
    membersFrom item most (e.key.form ++ (e.key.after ++
        ':' :: e.value.ahead (commaTail Entry.ahead es (close ++ '\x7d' :: r)))) =
      .ok ((e :: es).map fun x => (x.key.meaning, result x.value.meaning), r) := by
  have hends : EndsValue (close ++ '\x7d' :: r) :=
    endsValue_append hclose (endsValue_cons (.inr (.inr (.inl rfl))) r)
  induction es generalizing e most with
  | nil =>
    obtain ⟨most, rfl⟩ := Nat.exists_eq_add_one.2 hmost
    rw [commaTail_nil, membersFrom_entry (hkeys e List.mem_cons_self)
      (hvalues e List.mem_cons_self) hends, afterMember, skipSpace_close (by decide) hclose]
    rfl
  | cons f fs ih =>
    obtain ⟨most, rfl⟩ := Nat.exists_eq_add_one.2 (Nat.lt_of_le_of_lt (Nat.zero_le _) hmost)
    obtain ⟨hkey, hfkeys⟩ := List.forall_mem_cons.1 hkeys
    obtain ⟨hvalue, hfvalues⟩ := List.forall_mem_cons.1 hvalues
    have hrest := ih hfkeys hfvalues (Nat.lt_of_succ_lt_succ hmost)
    have hnext := (hfkeys f List.mem_cons_self).skipSpace_ahead
      (':' :: f.value.ahead (commaTail Entry.ahead fs (close ++ '\x7d' :: r)))
    have hcomma := skipSpace_cons (c := ',') (by decide)
      (f.ahead (commaTail Entry.ahead fs (close ++ '\x7d' :: r)))
    obtain ⟨body, hbody, -⟩ := hfkeys f List.mem_cons_self
    rw [membersFrom_entry hkey hvalue (endsValue_commaTail hends), afterMember, commaTail_cons,
      hcomma]
    simp only [Entry.ahead, hnext]
    rw [hbody, List.cons_append] at hrest ⊢
    split
    · next he => exact absurd (List.cons.inj he).1 (by decide)
    · next he => cases he
    · rw [hrest]
      rfl

/-- **The members of an object are read**, up to the closing bracket. -/
theorem members_ahead {e : Entry β} {es : List (Entry β)}
    (hkeys : ∀ x ∈ e :: es, ReadsKey x.key.form x.key.meaning)
    (hvalues : ∀ x ∈ e :: es, ReadsAs item x.value.form (result x.value.meaning))
    (hclose : Blanks close) (r : List Char) :
    members item (e.ahead (commaTail Entry.ahead es (close ++ '\x7d' :: r))) =
      .ok ((e :: es).map fun x => (x.key.meaning, result x.value.meaning), r) := by
  have hskip := (hkeys e List.mem_cons_self).skipSpace_ahead
    (':' :: e.value.ahead (commaTail Entry.ahead es (close ++ '\x7d' :: r)))
  obtain ⟨body, hbody, -⟩ := hkeys e List.mem_cons_self
  have hmost : es.length < (e.key.form ++ (e.key.after ++
      ':' :: e.value.ahead (commaTail Entry.ahead es (close ++ '\x7d' :: r)))).length := by
    have hle := length_le_commaTail Entry.length_le_ahead es (close ++ '\x7d' :: r)
    have hvalue := e.value.length_le_ahead (commaTail Entry.ahead es (close ++ '\x7d' :: r))
    rw [List.length_append, List.length_append, List.length_cons]
    omega
  have hfrom := membersFrom_ahead hkeys hvalues hclose hmost r
  unfold members
  rw [Entry.ahead, hskip]
  rw [hbody, List.cons_append] at hfrom ⊢
  exact hfrom

/-! ## Written lists -/

variable {form : β → List Char} {blanks gap : List Char}

/-- A value written with the given blanks before it. -/
def writtenPart (form : β → List Char) (hblanks : Blanks blanks) (x : β) : Padded β :=
  ⟨blanks, form x, [], x, hblanks, blanks_nil⟩

/-- A member written with the given blanks before its key and before its value. -/
def writtenEntry (form : β → List Char) (hgap : Blanks gap) (hblanks : Blanks blanks)
    (m : String × β) : Entry β :=
  ⟨writtenPart stringChars hblanks m.1, writtenPart form hgap m.2⟩

/-- The forms of the items behind the first one, up to the closing bracket. -/
def itemsTail (form : β → List Char) (blanks close : List Char) (xs : List β) (r : List Char) :
    List Char :=
  (xs.flatMap fun y => ',' :: (blanks ++ form y)) ++ (close ++ ']' :: r)

theorem itemsTail_cons (y : β) (ys : List β) (r : List Char) :
    itemsTail form blanks close (y :: ys) r =
      ',' :: (blanks ++ (form y ++ itemsTail form blanks close ys r)) := by
  simp [itemsTail]

theorem itemsTail_eq_commaTail (hblanks : Blanks blanks) (xs : List β) (r : List Char) :
    itemsTail form blanks close xs r =
      commaTail Padded.ahead (xs.map (writtenPart form hblanks)) (close ++ ']' :: r) := by
  induction xs with
  | nil => rfl
  | cons x xs ih =>
    rw [itemsTail_cons, ih]
    rfl

/-- **The items of a written array are read back**, up to the closing bracket. -/
theorem items_flatMap {x : β} {xs : List β} (h : ∀ y ∈ x :: xs, ReadsAs item (form y) (result y))
    (hblanks : Blanks blanks) (hclose : Blanks close) (r : List Char) :
    items item (blanks ++ (form x ++ itemsTail form blanks close xs r)) =
      .ok ((x :: xs).map result, r) := by
  have hparts : ∀ q ∈ (x :: xs).map (writtenPart form hblanks),
      ReadsAs item q.form (result q.meaning) := List.forall_mem_map.2 h
  have hitems := items_ahead hparts hclose r
  rw [← List.map_cons, List.map_map] at hitems
  rw [itemsTail_eq_commaTail hblanks]
  exact hitems

/-- The form of a member, with blanks between the colon and its value. -/
def memberForm (form : β → List Char) (gap : List Char) (m : String × β) : List Char :=
  stringChars m.1 ++ ':' :: (gap ++ form m.2)

/-- The forms of the members behind the first one, up to the closing bracket. -/
def membersTail (form : β → List Char) (gap blanks close : List Char) (ms : List (String × β))
    (r : List Char) : List Char :=
  (ms.flatMap fun m => ',' :: (blanks ++ memberForm form gap m)) ++ (close ++ '\x7d' :: r)

theorem membersTail_cons (m : String × β) (ms : List (String × β)) (r : List Char) :
    membersTail form gap blanks close (m :: ms) r =
      ',' :: (blanks ++ (memberForm form gap m ++ membersTail form gap blanks close ms r)) := by
  simp [membersTail]

theorem memberForm_append (hgap : Blanks gap) (hblanks : Blanks blanks) (m : String × β)
    (r : List Char) :
    blanks ++ (memberForm form gap m ++ r) = (writtenEntry form hgap hblanks m).ahead r := by
  simp [memberForm, writtenEntry, writtenPart, Entry.ahead, Padded.ahead]

theorem membersTail_eq_commaTail (hgap : Blanks gap) (hblanks : Blanks blanks)
    (ms : List (String × β)) (r : List Char) :
    membersTail form gap blanks close ms r =
      commaTail Entry.ahead (ms.map (writtenEntry form hgap hblanks)) (close ++ '\x7d' :: r) := by
  induction ms with
  | nil => rfl
  | cons m ms ih =>
    rw [membersTail_cons, memberForm_append hgap hblanks, ih]
    rfl

/-- **The members of a written object are read back**, up to the closing bracket. -/
theorem members_flatMap {m : String × β} {ms : List (String × β)}
    (h : ∀ x ∈ m :: ms, ReadsAs item (form x.2) (result x.2)) (hgap : Blanks gap)
    (hblanks : Blanks blanks) (hclose : Blanks close) (r : List Char) :
    members item (blanks ++ (memberForm form gap m ++ membersTail form gap blanks close ms r)) =
      .ok ((m :: ms).map fun x => (x.1, result x.2), r) := by
  have hkeys : ∀ x ∈ (m :: ms).map (writtenEntry form hgap hblanks),
      ReadsKey x.key.form x.key.meaning :=
    List.forall_mem_map.2 fun x _ => readsKey_stringChars x.1
  have hvalues : ∀ x ∈ (m :: ms).map (writtenEntry form hgap hblanks),
      ReadsAs item x.value.form (result x.value.meaning) := List.forall_mem_map.2 h
  have hmembers := members_ahead hkeys hvalues hclose r
  rw [← List.map_cons, List.map_map] at hmembers
  rw [memberForm_append hgap hblanks, membersTail_eq_commaTail hgap hblanks]
  exact hmembers

end brackets

end MailBlocks.Json
