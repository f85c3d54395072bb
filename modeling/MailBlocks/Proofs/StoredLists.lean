import Mathlib.Data.Bool.AllAny
import MailBlocks.Proofs.CanonicalText
import MailBlocks.Proofs.SettledBlocks
import MailBlocks.Proofs.StoredOffers

/-!
# Which stored lists are read

A stored list of additional offers is read if it is blank or the text of an array of objects, and
refused as a whole otherwise. An object may give a field as a string, a number or a flag; where its
key is repeated, the last member counts.

* `Decoder.Accepts`: a decoder that reads what the reader of values reads.
* `AdditionalOffer.decode_stored_list`: which lists are read, and as which offers.
-/

namespace MailBlocks.Json

variable {α β : Type}

/-! ## Decoders that accept what is there -/

/-- Items are read by another reader if each of them is. -/
theorem itemsFrom_of_map {item : Reader α} {other : Reader β} {f : β → α}
    (h : ∀ s b r, item s = .ok (f b, r) → other s = .ok (b, r)) {most : Nat} {s r : List Char}
    {bs : List β} (hs : itemsFrom item most s = .ok (bs.map f, r)) :
    itemsFrom other most s = .ok (bs, r) := by
  induction most generalizing s bs with
  | zero => cases hs
  | succ most ih =>
    obtain ⟨⟨a, t⟩, ha, hs⟩ := bind_eq_ok hs
    rw [itemsFrom]
    simp only [bind, Except.bind] at hs ⊢
    split at hs
    · next u hu =>
      obtain ⟨hbs, rfl⟩ := Prod.mk.inj (Except.ok.inj hs)
      obtain ⟨b, rfl, rfl⟩ := List.map_eq_singleton_iff.1 hbs.symm
      simp only [h s b t ha, hu]
    · next u hu =>
      split at hs
      · cases hs
      · next w hw =>
        obtain ⟨⟨as, v⟩, has, hs⟩ := bind_eq_ok hs
        obtain ⟨hbs, rfl⟩ := Prod.mk.inj (Except.ok.inj hs)
        obtain ⟨b, cs, rfl, rfl, rfl⟩ := List.map_eq_cons_iff.1 hbs.symm
        rw [h s b t ha]
        simp only [hu, ih has]
    · cases hs
    · cases hs

theorem items_of_map {item : Reader α} {other : Reader β} {f : β → α}
    (h : ∀ s b r, item s = .ok (f b, r) → other s = .ok (b, r)) {s r : List Char} {bs : List β}
    (hs : items item s = .ok (bs.map f, r)) : items other s = .ok (bs, r) := by
  unfold items at hs ⊢
  split at hs
  · obtain ⟨hbs, rfl⟩ := Prod.mk.inj (Except.ok.inj hs)
    rw [List.map_eq_nil_iff.1 hbs.symm]
  · cases hs
  · exact itemsFrom_of_map h hs

namespace Decoder

/-- **A decoder that takes what is there**: where the reader of values reads a value of its shape,
it reads what that value is made of, and both leave the same rest. -/
def Accepts (d : Decoder α) (toValue : α → Value) : Prop :=
  ∀ levels s a r, Json.value levels s = .ok (toValue a, r) → d.ofText levels s = .ok (.ok a, r)

theorem accepts_map : map.Accepts .object := by
  intro levels s ms r h
  have hopens := opens_of_value h
  generalize hs : skipSpace s = t at hopens
  cases hopens with
  | object hmembers =>
    rw [map_of_brace hs, hmembers]
    rfl

theorem Accepts.sequence {d : Decoder α} {toValue : α → Value} (hd : d.Accepts toValue) :
    d.sequence.Accepts fun as => .array (as.map toValue) := by
  intro levels s as r h
  have hopens := opens_of_value h
  unfold Decoder.sequence
  dsimp only
  generalize skipSpace s = t at hopens
  cases hopens with
  | @array l _ _ _ hitems =>
    refine congrArg (Except.map _) (items_of_map ?_ hitems)
    intro u b w hread
    simp only [hd l u b w hread]
    rfl

/-- A whole text of a value of the shape is read. -/
theorem Accepts.parse {d : Decoder α} {toValue : α → Value} (hd : d.Accepts toValue)
    {text : String} {a : α} (h : Json.parse text = .ok (toValue a)) : d.parse text = .ok a := by
  obtain ⟨r, hread, hend⟩ := parse_iff_value.1 h
  exact parse_eq_ok_iff.2 ⟨r, hd _ _ _ _ hread, hend⟩

end Decoder

end MailBlocks.Json

namespace MailBlocks.AdditionalOffer

open Json

/-- **The text that a member gives to a field**: a string itself, a number and a flag as JSON writes
them, and nothing where there is no member or another one. -/
def fieldText : Option Value → String
  | some (.string x) => x
  | some (.number n) => n.text
  | some (.bool true) => "true"
  | some (.bool false) => "false"
  | _ => ""

/-- The texts that the members of a stored offer give to its four lines. -/
def fieldTexts (members : List (String × Value)) : List String :=
  lineNames.map fun name => fieldText (lastMember? name members)

/-- The texts of the four lines. -/
def texts (a : AdditionalOffer) : List String :=
  a.lines.map (·.text)

/-- A member gives the same text in canonical order. -/
theorem fieldText_sorted (v : Option Value) : fieldText (v.map Value.sorted) = fieldText v := by
  cases v with
  | none => rfl
  | some v =>
    cases v with
    | null | string | number | array | object => rfl
    | bool b => rfl

theorem fieldText_eq_getD (v : Option Value) : fieldText v = (v.bind attribute?).getD "" := by
  cases v with
  | none => rfl
  | some v =>
    cases v with
    | null | string | number | array | object => rfl
    | bool b => cases b <;> rfl

/-- A look-up in the bag of a stored offer whose keys are in order. -/
theorem get?_bagOf {members : List (String × Value)} (h : Keyed.Ascending members) (key : String) :
    (bagOf members).get? key = (Keyed.get? key members).bind attribute? :=
  get?_ofList_filterMap h attribute? key

/-- The texts of an offer that is read are those of its fields. -/
theorem texts_ofMembers (fresh : OfferId) (members : List (String × Value)) :
    (ofMembers fresh (Keyed.ofList (Value.sortedMembers members))).texts = fieldTexts members := by
  have hfield : ∀ name, (bagOf (Keyed.ofList (Value.sortedMembers members))).read .text name "" =
      fieldText (lastMember? name members) := by
    intro name
    have hget : (bagOf (Keyed.ofList (Value.sortedMembers members))).get? name =
        ((lastMember? name members).map Value.sorted).bind attribute? := by
      rw [get?_bagOf (Keyed.ascending_ofList _), get?_ofList, Value.sortedMembers_eq_map,
        lastMember?_map]
    rw [← fieldText_sorted, fieldText_eq_getD, Bag.read, hget]
    cases ((lastMember? name members).map Value.sorted).bind attribute? <;> rfl
  rw [ofMembers, read_slots]
  simp only [texts, lines, List.map_cons, List.map_nil, OfferLine.read_slots, blank, hfield]
  rfl

variable {fresh : FreshIds} {stored : String}

/-- A text of an array or an object is not blank. -/
theorem not_blank_of_textOf {v : Value} (h : TextOf stored v) (hv : v.Bracketed) :
    ¬ Text.blank stored := by
  obtain ⟨p, hp, -, hform⟩ := h
  obtain ⟨c, hc, t, ht⟩ := hform.exists_bracket hv
  intro hblank
  rw [Text.blank, hp, List.all_eq_true] at hblank
  have hbracket := hblank c (by simp [Padded.ahead, ht])
  have hnone : ∀ c ∈ ['[', '\x7b'], ¬ Text.isBlank c := List.all_iff_forall_prop.1 (by decide)
  exact hnone c hc hbracket

/-- The decoder of lists reads the texts of arrays of objects. -/
theorem parse_listDecoder_iff {entries : List (List (String × Value))} :
    listDecoder.parse stored = .ok entries ↔
      Json.parse stored = .ok (.array (entries.map .object)) := by
  have hmirrors : listDecoder.Mirrors fun entries => .array (entries.map .object) :=
    Decoder.mirrors_map.sequence
  have haccepts : listDecoder.Accepts fun entries => .array (entries.map .object) :=
    Decoder.accepts_map.sequence
  exact ⟨hmirrors.parse, haccepts.parse⟩

/-- The text of an array of objects is read, and each object as an offer. -/
theorem decode_of_textOf {entries : List (List (String × Value))}
    (h : TextOf stored (.array (entries.map .object))) :
    decode fresh stored =
      .ok ((entries.map fun members => Keyed.ofList (Value.sortedMembers members)).mapIdx
        fun i members => ofMembers (fresh i) members) := by
  have hsorted : (Value.array (entries.map .object)).sorted =
      .array ((entries.map fun members => Keyed.ofList (Value.sortedMembers members)).map
        .object) := by
    rw [Value.sorted_array_map, List.map_map]
    rfl
  have hparse := h.parse
  rw [hsorted] at hparse
  exact decode_of_parse (not_blank_of_textOf h (.array _)) (parse_listDecoder_iff.2 hparse)

/-- A value is an object if it is one in canonical order. -/
theorem exists_object_of_sorted {v : Value} {members : List (String × Value)}
    (h : v.sorted = .object members) : ∃ authored, v = .object authored := by
  cases v with
  | null | bool | number | string | array => cases h
  | object authored => exact ⟨authored, rfl⟩

/-- Values that are objects in canonical order are the objects of some members. -/
theorem exists_entries {items : List Value} {entries : List (List (String × Value))}
    (h : items.map Value.sorted = entries.map .object) :
    ∃ authored : List (List (String × Value)), items = authored.map .object := by
  induction items generalizing entries with
  | nil => exact ⟨[], rfl⟩
  | cons v items ih =>
    obtain ⟨members, rest, rfl, hv, hrest⟩ := List.map_eq_cons_iff.1 h.symm
    obtain ⟨authored, rfl⟩ := exists_object_of_sorted hv.symm
    obtain ⟨others, rfl⟩ := ih hrest.symm
    exact ⟨authored :: others, rfl⟩

/-- What a stored list that is not blank is the text of, if it is read. -/
theorem textOf_of_decode {offers : List AdditionalOffer} (hblank : ¬ Text.blank stored)
    (h : decode fresh stored = .ok offers) :
    ∃ entries : List (List (String × Value)), TextOf stored (.array (entries.map .object)) := by
  obtain ⟨entries, hstores, -⟩ := stored_of_decode h
  rw [Stores, if_neg hblank] at hstores
  obtain ⟨v, hv, hsorted⟩ := exists_textOf hstores
  cases v with
  | null | bool | number | string | object => cases hsorted
  | array items =>
    rw [Value.sorted, Value.sortedItems_eq_map] at hsorted
    obtain ⟨authored, rfl⟩ := exists_entries (Value.array.inj hsorted).symm
    exact ⟨authored, hv⟩

theorem exists_error {α ε : Type} {x : Except ε α} (h : ∀ a, x ≠ .ok a) : ∃ e, x = .error e := by
  cases x with
  | error e => exact ⟨e, rfl⟩
  | ok a => exact absurd rfl (h a)

/-- An item that is no object spoils the list. -/
theorem exists_error_of_mem {items : List Value} {v : Value} (h : TextOf stored (.array items))
    (hv : v ∈ items) (hother : ∀ members, v ≠ .object members) :
    ∃ e, decode fresh stored = .error e := by
  refine exists_error fun offers hoffers => ?_
  obtain ⟨entries, hentries⟩ := textOf_of_decode (not_blank_of_textOf h (.array _)) hoffers
  have hparse := h.parse
  rw [hentries.parse, Value.sorted_array_map, Value.sorted, Value.sortedItems_eq_map] at hparse
  have hsorted := Value.array.inj (Except.ok.inj hparse)
  have hmem := List.mem_map_of_mem (f := Value.sorted) hv
  rw [← hsorted] at hmem
  obtain ⟨members, -, hmembers⟩ := List.mem_map.1 hmem
  obtain ⟨authored, hauthored⟩ := exists_object_of_sorted hmembers.symm
  exact hother authored hauthored

/-- Something behind the array spoils the list. -/
theorem exists_error_of_append {text rest : String} {items : List Value}
    (h : TextOf text (.array items)) (hrest : ¬ Blanks rest.toList) :
    ∃ e, decode fresh (text ++ rest) = .error e := by
  refine exists_error fun offers hoffers => ?_
  have hblank : ¬ Text.blank (text ++ rest) := by
    intro hblank
    rw [Text.blank, String.toList_append, List.all_append, Bool.and_eq_true] at hblank
    exact not_blank_of_textOf h (.array _) hblank.1
  obtain ⟨entries, hentries⟩ := textOf_of_decode hblank hoffers
  obtain ⟨r, hread, hend⟩ := parse_iff_value.1 hentries.parse
  obtain ⟨p, hp, -, hform⟩ := h
  -- the array is read to its bracket, so that the rest would have to be blank
  have hskip : skipSpace (text ++ rest).toList = p.form ++ (p.after ++ rest.toList) := by
    rw [String.toList_append, hp, Padded.ahead_append, List.nil_append]
    exact (readsAs_of_denotes hform).skipSpace_ahead _
  rw [hform.read_array hskip] at hread
  obtain ⟨-, rfl⟩ := Prod.mk.inj (Except.ok.inj hread)
  rw [skipSpace_append p.blankAfter] at hend
  exact hrest fun c hc => List.dropWhile_eq_nil_iff.1 hend c hc

/-- **Which stored lists are read.** A list is read if it is blank or the text of an array of
objects. A blank one is empty, and any other one gives an offer for each object, in their order,
with the texts of its members; an item of another kind or something behind the array, which is not
blank, spoils the whole list. -/
theorem decode_stored_list (fresh : FreshIds) (stored : String) :
    ((∃ offers, decode fresh stored = .ok offers) ↔
      Text.blank stored ∨ ∃ entries : List (List (String × Value)),
        TextOf stored (.array (entries.map .object))) ∧
    (Text.blank stored → decode fresh stored = .ok []) ∧
    (∀ entries : List (List (String × Value)), TextOf stored (.array (entries.map .object)) →
      ∃ offers, decode fresh stored = .ok offers ∧ offers.map texts = entries.map fieldTexts) ∧
    (∀ items v, TextOf stored (.array items) → v ∈ items → (∀ members, v ≠ .object members) →
      ∃ e, decode fresh stored = .error e) ∧
    ∀ text rest items, stored = text ++ rest → TextOf text (.array items) → ¬ Blanks rest.toList →
      ∃ e, decode fresh stored = .error e := by
  have hempty : Text.blank stored → decode fresh stored = .ok [] := fun h => if_pos h
  refine ⟨⟨?_, ?_⟩, hempty, ?_, ?_, ?_⟩
  · rintro ⟨offers, hoffers⟩
    by_cases hblank : Text.blank stored
    · exact .inl hblank
    · exact .inr (textOf_of_decode hblank hoffers)
  · rintro (hblank | ⟨entries, hentries⟩)
    · exact ⟨[], hempty hblank⟩
    · exact ⟨_, decode_of_textOf hentries⟩
  · intro entries hentries
    refine ⟨_, decode_of_textOf hentries, ?_⟩
    refine List.ext_getElem? fun i => ?_
    simp only [List.getElem?_map, List.getElem?_mapIdx, Option.map_map, Function.comp_def,
      texts_ofMembers]
  · exact fun items v hitems hv hother => exists_error_of_mem hitems hv hother
  · rintro text rest items rfl hitems hrest
    exact exists_error_of_append hitems hrest

/-! ## A list of two offers -/

/-- The members of an offer that gives one of its lines twice. -/
def repeatedMembers : List (String × Value) :=
  [("offer", .string "a"), ("details", .bool true), ("offer", .number (.int 1))]

/-- A text of that offer. -/
def repeatedOffer : String :=
  "\x7b\"offer\":\"a\",\"details\":true,\"offer\":1\x7d"

theorem denotes_repeatedOffer (levels : Nat) :
    Denotes (levels + 1) repeatedOffer.toList (.object repeatedMembers) := by
  have hreadable : (Value.object repeatedMembers).Readable (levels + 1) := by
    refine .object ?_
    simp only [repeatedMembers, List.forall_mem_cons]
    exact ⟨.string "a", .bool true, .int (by decide) (by decide), List.forall_mem_nil _⟩
  exact denotes_compact hreadable

/-- One half. -/
def half : Number := .real false (.ofDecimal 5 (-1))

theorem denotesNumber_half : DenotesNumber "0.5".toList half := by
  have hread : number false "0.5".toList = .ok (half, []) := eq_ok_of_toOption (by decide +kernel)
  obtain ⟨form, hform, hnumeral, -⟩ := numeral_of_number hread
  rw [List.append_nil] at hform
  exact .positive (hform ▸ hnumeral) hread

/-- The members of an offer with a fraction, and with a line that is null. -/
def halfMembers : List (String × Value) :=
  [("offer", .number half), ("disclaimer", .null)]

/-- A text of that offer. -/
def halfOffer : String :=
  "\x7b\"offer\":0.5,\"disclaimer\":null\x7d"

theorem denotes_halfOffer (levels : Nat) :
    Denotes (levels + 1) halfOffer.toList (.object halfMembers) := by
  let offer : Entry Value :=
    ⟨writtenPart stringChars blanks_nil "offer",
      ⟨[], "0.5".toList, [], .number half, blanks_nil, blanks_nil⟩⟩
  let disclaimer : Entry Value :=
    writtenEntry Value.compactChars blanks_nil blanks_nil ("disclaimer", .null)
  have hkeys : ∀ x ∈ [offer, disclaimer], DenotesString x.key.form x.key.meaning := by
    simp only [List.forall_mem_cons]
    exact ⟨denotesString_stringChars _, denotesString_stringChars _, List.forall_mem_nil _⟩
  have hvalues : ∀ x ∈ [offer, disclaimer], Denotes levels x.value.form x.value.meaning := by
    simp only [List.forall_mem_cons]
    exact ⟨.number denotesNumber_half, .null, List.forall_mem_nil _⟩
  exact Denotes.object hkeys hvalues

/-- What a list of both offers gives. -/
def pricedEntries : List (List (String × Value)) := [repeatedMembers, halfMembers]

/-- A stored list of both offers. -/
def pricedText : String :=
  "[" ++ repeatedOffer ++ ", " ++ halfOffer ++ "]"

theorem textOf_pricedText : TextOf pricedText (.array (pricedEntries.map .object)) := by
  let first : Padded Value :=
    ⟨[], repeatedOffer.toList, [], .object repeatedMembers, blanks_nil, blanks_nil⟩
  let second : Padded Value :=
    ⟨[' '], halfOffer.toList, [], .object halfMembers, blanks_space, blanks_nil⟩
  have hitems : ∀ q ∈ [first, second], Denotes 126 q.form q.meaning := by
    simp only [List.forall_mem_cons]
    exact ⟨denotes_repeatedOffer 125, denotes_halfOffer 125, List.forall_mem_nil _⟩
  refine ⟨⟨[], _, [], _, blanks_nil, blanks_nil⟩, ?_, rfl, Denotes.array hitems⟩
  simp [pricedText, String.toList_append, Padded.ahead, commaTail, first, second]

theorem decode_pricedText :
    TextOf pricedText (.array (pricedEntries.map .object)) ∧
      ∃ offers, decode (fun _ => default) pricedText = .ok offers ∧
        offers.map texts = [["", "1", "true", ""], ["", "0.5", "", ""]] := by
  obtain ⟨-, -, hread, -⟩ := decode_stored_list (fun _ => default) pricedText
  have htexts : pricedEntries.map fieldTexts = [["", "1", "true", ""], ["", "0.5", "", ""]] := by
    decide +kernel
  rw [← htexts]
  exact ⟨textOf_pricedText, hread pricedEntries textOf_pricedText⟩

end MailBlocks.AdditionalOffer
