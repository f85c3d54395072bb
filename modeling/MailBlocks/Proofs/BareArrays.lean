import MailBlocks.Proofs.CanonicalText
import MailBlocks.Proofs.StoredProjects
import MailBlocks.Proofs.ValueForms

/-!
# Bare arrays of components

A project of the oldest schema may be stored as an object or as the bare array of its components.
The array is read in a way of its own, and still the object around it changes nothing: both are
refused, or both give the same project.

* `Json.Entry.objectForm`: the form of an object with given entries.
* `Project.ofValue_components`, `Project.ofValue_envelope`: the project of such an object.
* `Project.parse_enclosed`: reading an array with an object around it.
* `Project.parse_bare_array`: reading a bare array.
-/

namespace MailBlocks

open Json

namespace Json

variable {β : Type} {levels levels' : Nat} {es : List (Entry β)}

/-! ## Objects with given entries -/

/-- The form of an object with the given entries. -/
def Entry.objectForm : List (Entry β) → List Char
  | [] => ['\x7b', '\x7d']
  | e :: es => '\x7b' :: e.ahead (commaTail Entry.ahead es ['\x7d'])

theorem valueForm_objectForm (hkeys : ∀ x ∈ es, StringForm x.key.form)
    (hvalues : ∀ x ∈ es, ValueForm levels x.value.form) :
    ValueForm (levels + 1) (Entry.objectForm es) := by
  cases es with
  | nil => exact .emptyObject blanks_nil
  | cons e es => exact valueForm_object hkeys hvalues

theorem denotes_objectForm {es : List (Entry Value)}
    (hkeys : ∀ x ∈ es, DenotesString x.key.form x.key.meaning)
    (hvalues : ∀ x ∈ es, Denotes levels x.value.form x.value.meaning) :
    Denotes (levels + 1) (Entry.objectForm es) (.object (es.map Entry.meaning)) := by
  cases es with
  | nil => exact .emptyObject blanks_nil
  | cons e es => exact .object hkeys hvalues

theorem ValueForm.objectForm_values (hkeys : ∀ x ∈ es, StringForm x.key.form)
    (hes : ∀ x ∈ es, ValueForm levels' x.value.form)
    (h : ValueForm (levels + 1) (Entry.objectForm es)) :
    ∀ x ∈ es, ValueForm levels x.value.form := by
  cases es with
  | nil => nofun
  | cons e es => exact h.values hkeys hes

theorem Denotes.objectForm_values {v : Value} (hkeys : ∀ x ∈ es, StringForm x.key.form)
    (hes : ∀ x ∈ es, ValueForm levels' x.value.form)
    (h : Denotes (levels + 1) (Entry.objectForm es) v) :
    ∀ x ∈ es, ∃ w, Denotes levels x.value.form w := by
  cases es with
  | nil => nofun
  | cons e es => exact h.values hkeys hes

/-- A value that is spelled from an opening bracket on is an array. -/
theorem Denotes.array_of_bracket {s : List Char} {v : Value} (h : Denotes levels s v)
    (hs : s.head? = some '[') : ∃ vs, v = .array vs := by
  obtain ⟨t, rfl⟩ := List.head?_eq_some_iff.1 hs
  generalize hform : '[' :: t = form at h
  cases h with
  | null | true | false => simp at hform
  | number h =>
    subst hform
    exact absurd h.form.head (by decide)
  | string h =>
    obtain ⟨body, rfl, -⟩ := h
    exact absurd (List.cons.inj hform).1 (by decide)
  | emptyArray | array => exact ⟨_, rfl⟩
  | emptyObject | object => exact absurd (List.cons.inj hform).1 (by decide)

theorem Decoder.decode_eq_mapError {α : Type} (d : Decoder α) (v : Value) :
    d.decode v = (d.ofValue v).mapError fun c => (⟨c, none⟩ : Error) := by
  unfold Decoder.decode
  cases d.ofValue v <;> rfl

end Json

namespace Project

/-! ## The project of an object around an array -/

/-- The components that stored values are, or why they are none. -/
def storedComponents (vs : List Value) : Except Cause (List Component) :=
  (Decoder.sequence Component.decoder).ofValue (.array vs)

theorem ofValue_array (vs : List Value) :
    ofValue (.array vs) =
      ((storedComponents vs).map fun cs => (⟨oldestVersion, .standard, cs⟩ : Project)).mapError
        fun c => (⟨c, none⟩ : Error) := by
  change ((Decoder.sequence Component.decoder).decode (.array vs)).map _ = _
  rw [Decoder.decode_eq_mapError]
  change ((storedComponents vs).mapError _).map _ = _
  cases storedComponents vs <;> rfl

theorem ofValue_object (ms : List (String × Value)) :
    ofValue (.object ms) =
      (record.membersOfValues [] record.start ms).mapError fun c => (⟨c, none⟩ : Error) :=
  record.decoder.decode_eq_mapError (.object ms)

theorem membersOfValues_components (seen : List String) (p : Project) (vs : List Value)
    (rest : List (String × Value)) :
    record.membersOfValues seen p (("components", .array vs) :: rest) =
      (storedComponents vs).bind fun cs =>
        record.membersOfValues ("components" :: seen) { p with components := cs } rest := by
  rw [Record.membersOfValues]
  change ((storedComponents vs).bind fun cs => Except.ok fun p : Project =>
    { p with components := cs }).bind _ = _
  cases storedComponents vs <;> rfl

/-- **The components alone** are a project of the oldest schema with the standard settings. -/
theorem ofValue_components (vs : List Value) :
    ofValue (.object [("components", .array vs)]) = ofValue (.array vs) := by
  rw [ofValue_object, ofValue_array, membersOfValues_components]
  cases storedComponents vs <;> rfl

/-- **So they are with that schema and no settings** beside them. -/
theorem ofValue_envelope (vs : List Value) :
    ofValue (.object [("components", .array vs), ("schemaVersion", .string oldestVersion),
      ("settings", .object [])]) = ofValue (.array vs) := by
  rw [ofValue_object, ofValue_array, membersOfValues_components]
  cases storedComponents vs <;> rfl

/-! ## Reading an array with an object around it -/

theorem parse_eq_of_ofValue {text text' : String} {v v' : Value} (h : Json.parse text = .ok v)
    (h' : Json.parse text' = .ok v') (hvalue : ofValue v = ofValue v') :
    parse text = parse text' := by
  have hbind : (Json.parse text).bind ofValue = (Json.parse text').bind ofValue := by
    rw [h, h']
    exact hvalue
  unfold parse
  rw [hbind]

theorem parse_of_error {text : String} {e : Json.Error} (h : Json.parse text = .error e) :
    parse text = .error (.json e) := by
  unfold parse
  rw [h]
  rfl

/-- The entry of the components, which stand behind a blank. -/
def componentsEntry {before : List Char} (hbefore : Blanks before) (p : Padded Unit) (v : Value) :
    Entry Value :=
  ⟨writtenPart stringChars hbefore "components",
    { p.indent blanks_space with meaning := v }⟩

variable {text enclosed : String} {p : Padded Unit} {lead : List (Entry Value)}
  {before : List Char} {hbefore : Blanks before} {v : Value}

theorem denotesString_components :
    DenotesString (componentsEntry hbefore p v).key.form
      (componentsEntry hbefore p v).key.meaning :=
  denotesString_stringChars "components"

theorem forall_enclosed {P : Entry Value → Prop} (hlead : ∀ x ∈ lead, P x)
    (hlast : P (componentsEntry hbefore p v)) :
    ∀ x ∈ lead ++ [componentsEntry hbefore p v], P x :=
  List.forall_mem_append.2 ⟨hlead, List.forall_mem_singleton.2 hlast⟩

/-- An object around an array opens one bracket more than it. -/
theorem isText_enclosed (hform : ValueForm levels p.form)
    (henclosed : enclosed.toList = Entry.objectForm (lead ++ [componentsEntry hbefore p v]))
    (hkeys : ∀ x ∈ lead, StringForm x.key.form)
    (hvalues : ∀ x ∈ lead, ValueForm levels x.value.form) : IsText (levels + 1) enclosed :=
  ⟨Padded.bare _, henclosed.trans (Padded.bare_ahead _).symm,
    valueForm_objectForm (forall_enclosed hkeys denotesString_components.form)
      (forall_enclosed hvalues hform)⟩

/-- **Reading an array with an object around it**: if the entries in front of the array do not
matter for the project, nor does the object. -/
theorem parse_enclosed (htext : text.toList = p.ahead []) (hform : ValueForm maxLevels p.form)
    (hbracket : p.form.head? = some '[')
    (henclosed : ∀ v, enclosed.toList = Entry.objectForm (lead ++ [componentsEntry hbefore p v]))
    (hlimit : IsText maxLevels enclosed)
    (hkeys : ∀ x ∈ lead, DenotesString x.key.form x.key.meaning)
    (hvalues : ∀ x ∈ lead, ∀ l, Denotes (l + 1) x.value.form x.value.meaning)
    (hstored : ∀ vs, ofValue (Value.object (lead.map Entry.meaning ++
      [("components", .array vs)])).sorted = ofValue (Value.array vs).sorted) :
    (parse enclosed).toOption = (parse text).toOption := by
  have hmem : ∀ v, componentsEntry hbefore p v ∈ lead ++ [componentsEntry hbefore p v] :=
    fun v => List.mem_append_right _ List.mem_cons_self
  have hkeyForms : ∀ v, ∀ x ∈ lead ++ [componentsEntry hbefore p v], StringForm x.key.form :=
    fun v => forall_enclosed (fun x hx => (hkeys x hx).form) denotesString_components.form
  have hvalueForms : ∀ v, ∀ x ∈ lead ++ [componentsEntry hbefore p v],
      ValueForm maxLevels x.value.form :=
    fun v => forall_enclosed (fun x hx => (hvalues x hx 126).form) hform
  -- the object is one level deeper than the array, and still within the limit
  have htexts : ∀ v, enclosed.toList =
      (Padded.bare (Entry.objectForm (lead ++ [componentsEntry hbefore p v]))).ahead [] :=
    fun v => (henclosed v).trans (Padded.bare_ahead _).symm
  have hobject : ∀ v, ValueForm maxLevels
      (Entry.objectForm (lead ++ [componentsEntry hbefore p v])) :=
    fun v => hlimit.relevel (htexts v) (valueForm_objectForm (hkeyForms v) (hvalueForms v))
  have hinner : ValueForm 126 p.form :=
    ValueForm.objectForm_values (hkeyForms .null) (hvalueForms .null) (hobject .null) _
      (hmem .null)
  obtain ⟨hread, hrefused⟩ := parse_of_form htext hform
  by_cases hspelled : ∃ v, Denotes maxLevels p.form v
  · obtain ⟨v, hv⟩ := hspelled
    obtain ⟨vs, rfl⟩ := hv.array_of_bracket hbracket
    have hdenotes : Denotes maxLevels
        (Entry.objectForm (lead ++ [componentsEntry hbefore p (.array vs)]))
        (.object ((lead ++ [componentsEntry hbefore p (.array vs)]).map Entry.meaning)) :=
      denotes_objectForm (forall_enclosed hkeys denotesString_components)
        (forall_enclosed (fun x hx => hvalues x hx 125) (hv.relevel hinner))
    have hparse := (parse_of_form (htexts (.array vs)) (hobject _)).1 _ hdenotes
    rw [parse_eq_of_ofValue hparse (hread _ hv)]
    rw [List.map_append]
    exact hstored vs
  · obtain ⟨e, he⟩ := hrefused hspelled
    have hnone : ¬ ∃ v, Denotes maxLevels
        (Entry.objectForm (lead ++ [componentsEntry hbefore p .null])) v := by
      rintro ⟨v, hv⟩
      obtain ⟨w, hw⟩ : ∃ w, Denotes 126 (componentsEntry hbefore p .null).value.form w :=
        Denotes.objectForm_values (hkeyForms .null) (hvalueForms .null) hv _ (hmem .null)
      exact hspelled ⟨w, hw.relevel hform⟩
    obtain ⟨e', he'⟩ := (parse_of_form (htexts .null) (hobject .null)).2 hnone
    rw [parse_of_error he, parse_of_error he']
    rfl

/-! ## Bare arrays -/

/-- **The texts of arrays.** -/
def IsArrayText (levels : Nat) (text : String) : Prop :=
  ∃ p : Padded Unit, text.toList = p.ahead [] ∧ ValueForm levels p.form ∧ p.form.head? = some '['

/-- What stands in front of the components that are alone in an object. -/
def componentsLead : String :=
  "\x7b\"components\": "

/-- An object around a text, which stands under the key of the components. -/
def componentsText (text : String) : String :=
  componentsLead ++ text ++ "\x7d"

/-- What stands in front of the components beside the oldest schema and no settings. -/
def envelopeLead : String :=
  "\x7b\"schemaVersion\": \"1.0.0\", \"settings\": \x7b\x7d, \"components\": "

/-- The same object with the oldest schema and no settings in front. -/
def envelopeText (text : String) : String :=
  envelopeLead ++ text ++ "\x7d"

/-- The entries of the oldest schema and of no settings. -/
def envelopeEntries : List (Entry Value) :=
  [writtenEntry Value.compactChars blanks_space blanks_nil
    ("schemaVersion", .string oldestVersion),
   writtenEntry Value.compactChars blanks_space blanks_space ("settings", .object [])]

theorem denotesString_envelopeEntries :
    ∀ x ∈ envelopeEntries, DenotesString x.key.form x.key.meaning := by
  simp only [envelopeEntries, List.forall_mem_cons]
  exact ⟨denotesString_stringChars _, denotesString_stringChars _, nofun⟩

theorem denotes_envelopeEntries (levels : Nat) :
    ∀ x ∈ envelopeEntries, Denotes (levels + 1) x.value.form x.value.meaning := by
  simp only [envelopeEntries, List.forall_mem_cons]
  exact ⟨denotes_compact (.string _), denotes_compact (.object nofun), nofun⟩

/-- In canonical order the components come first. -/
theorem sorted_envelope (vs : List Value) :
    Value.sorted (.object (envelopeEntries.map Entry.meaning ++ [("components", .array vs)])) =
      .object [("components", .array (Value.sortedItems vs)),
        ("schemaVersion", .string oldestVersion), ("settings", .object [])] := by
  simp only [envelopeEntries, Entry.meaning, writtenEntry, writtenPart, List.map_cons, List.map_nil,
    List.cons_append, List.nil_append, Value.sorted, Value.sortedMembers]
  simp only [Keyed.ofList, Keyed.insert, List.foldl_cons, List.foldl_nil, String.reduceLT,
    String.reduceEq, if_true, if_false]

theorem toList_componentsLead :
    componentsLead.toList = '\x7b' :: (stringChars "components" ++ [':', ' ']) :=
  rfl

theorem toList_componentsText (htext : text.toList = p.ahead []) (v : Value) :
    (componentsText text).toList =
      Entry.objectForm ([] ++ [componentsEntry blanks_nil p v]) := by
  rw [componentsText, String.toList_append, String.toList_append, htext, toList_componentsLead]
  simp [Entry.objectForm, componentsEntry, writtenPart, Entry.ahead, Padded.ahead, Padded.indent,
    commaTail]

theorem toList_envelopeLead :
    envelopeLead.toList =
      '\x7b' :: (stringChars "schemaVersion" ++ ':' :: ' ' :: (stringChars oldestVersion ++
        ',' :: ' ' :: (stringChars "settings" ++ ':' :: ' ' :: '\x7b' :: '\x7d' :: ',' :: ' ' ::
          (stringChars "components" ++ [':', ' '])))) :=
  rfl

theorem toList_envelopeText (htext : text.toList = p.ahead []) (v : Value) :
    (envelopeText text).toList =
      Entry.objectForm (envelopeEntries ++ [componentsEntry blanks_space p v]) := by
  rw [envelopeText, String.toList_append, String.toList_append, htext, toList_envelopeLead]
  simp [Entry.objectForm, envelopeEntries, componentsEntry, writtenEntry, writtenPart, Entry.ahead,
    Padded.ahead, Padded.indent, commaTail, Value.compactChars, Value.compactMembers]

/-- **A bare array is the oldest envelope**: whether the array is stored bare, under the key of the
components, or so with the oldest schema and no settings beside it, it is refused, or it gives the
same project. The texts are those of the grammar, with no more brackets open than may be. -/
theorem parse_bare_array (text : String) (harray : IsArrayText maxLevels text) :
    (IsText maxLevels (componentsText text) →
      (parse (componentsText text)).toOption = (parse text).toOption) ∧
    (IsText maxLevels (envelopeText text) →
      (parse (envelopeText text)).toOption = (parse text).toOption) := by
  obtain ⟨p, htext, hform, hbracket⟩ := harray
  constructor
  · intro hlimit
    refine parse_enclosed htext hform hbracket (toList_componentsText htext) hlimit
      (List.forall_mem_nil _) (List.forall_mem_nil _) ?_
    intro vs
    simp only [Value.sorted]
    exact ofValue_components _
  · intro hlimit
    refine parse_enclosed htext hform hbracket (toList_envelopeText htext) hlimit
      denotesString_envelopeEntries (fun x hx l => denotes_envelopeEntries l x hx) ?_
    intro vs
    rw [sorted_envelope, Value.sorted]
    exact ofValue_envelope _

/-- The components of the old project as a bare array. -/
def bareComponents : Value :=
  .array (oldProject.components.map Component.toValue)

theorem readable_bareComponents (levels : Nat) : bareComponents.Readable (levels + 3) := by
  refine .array fun v hv => ?_
  obtain ⟨c, -, rfl⟩ := List.mem_map.1 hv
  exact c.readable_toValue levels

theorem parse_bareComponents : parse bareComponents.compact = .ok loadedProject := by
  have hread : (Decoder.sequence Component.decoder).ofValue bareComponents.sorted =
      .ok oldProject.components :=
    Decoder.Restores.sequence Component.restores oldProject.components
  have hstored : ofValue bareComponents.sorted = .ok oldProject := by
    rw [bareComponents, Value.sorted] at hread ⊢
    rw [ofValue_array, storedComponents, hread]
    rfl
  have hmigrate : migrate oldProject.schemaVersion oldProject.components =
      .ok (currentVersion, loadedProject.components) := by rfl
  have htext : TextOf bareComponents.compact bareComponents :=
    textOf_compact (readable_bareComponents 124)
  exact parse_eq_ok_iff.2 ⟨_, _, _, _, htext.parse, hstored, hmigrate, rfl⟩

theorem parse_bare_array_stored :
    IsArrayText maxLevels bareComponents.compact ∧
    (IsText maxLevels (componentsText bareComponents.compact) ∧
      (parse (componentsText bareComponents.compact)).toOption =
        (parse bareComponents.compact).toOption) ∧
    (IsText maxLevels (envelopeText bareComponents.compact) ∧
      (parse (envelopeText bareComponents.compact)).toOption =
        (parse bareComponents.compact).toOption) ∧
    parse bareComponents.compact = .ok loadedProject := by
  have htext : bareComponents.compact.toList =
      (Padded.bare bareComponents.compactChars).ahead [] := by
    rw [Padded.bare_ahead, Value.compact, String.toList_ofList]
  have hform : ∀ levels, ValueForm (levels + 3) bareComponents.compactChars :=
    fun levels => (denotes_compact (readable_bareComponents levels)).form
  have harray : IsArrayText maxLevels bareComponents.compact := ⟨_, htext, hform 124, rfl⟩
  have hcomponents : IsText maxLevels (componentsText bareComponents.compact) :=
    isText_enclosed (hform 123) (toList_componentsText htext .null)
      (List.forall_mem_nil _) (List.forall_mem_nil _)
  have henvelope : IsText maxLevels (envelopeText bareComponents.compact) :=
    isText_enclosed (hform 123) (toList_envelopeText htext .null)
      (fun x hx => (denotesString_envelopeEntries x hx).form)
      (fun x hx => (denotes_envelopeEntries 125 x hx).form)
  obtain ⟨hread, hreadEnvelope⟩ := parse_bare_array bareComponents.compact harray
  exact ⟨harray, ⟨hcomponents, hread hcomponents⟩, ⟨henvelope, hreadEnvelope henvelope⟩,
    parse_bareComponents⟩

end Project

end MailBlocks
