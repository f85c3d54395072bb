import MailBlocks.Proofs.IndentedText
import MailBlocks.Proofs.OldKeys

/-!
# Stored projects

A project of the current schema that is saved and loaded again is the same project, with all texts
that it holds. So what was loaded once, from whatever schema, is loaded again as it is.

* `Decoder.Restores`: a shape is read back from what is written for it.
* `Component.restores`, `DesignSettings.restores`: the stored records.
* `Project.ofValue_text`: the stored form of a project, whatever its schema.
* `parse_text`: saving and loading.
-/

namespace MailBlocks

open Json

/-! ## Shapes read back -/

namespace Json.Decoder

variable {α : Type}

/-- **What is written for a shape is read back.** Reading puts the members of all objects into
ascending key order. -/
def Restores (d : Decoder α) (write : α → Value) : Prop :=
  ∀ a, d.ofValue (write a).sorted = .ok a

theorem Restores.sequence {d : Decoder α} {write : α → Value} (h : d.Restores write) :
    d.sequence.Restores fun as => .array (as.map write) := by
  have hitems : ∀ as : List α, (as.map fun a => (write a).sorted).mapM d.ofValue = .ok as := by
    intro as
    induction as with
    | nil => rfl
    | cons a as ih =>
      rw [List.map_cons, List.mapM_cons, h a, ih]
      rfl
  intro as
  have hsorted : (Value.array (as.map write)).sorted =
      .array (as.map fun a => (write a).sorted) := by
    rw [Value.sorted, Value.sortedItems_eq_map, List.map_map]
    rfl
  rw [hsorted]
  exact hitems as

end Json.Decoder

/-- A member of a record is read into its field. -/
theorem Json.Record.membersOfValues_field {α β : Type} {r : Record α} {key : String}
    {required : Bool} {d : Decoder β} {set : β → α → α}
    (hfield : r.field? key = some (.of key required d set)) {v : Value} {b : β}
    (hv : d.ofValue v = .ok b) (seen : List String) (a : α) (rest : List (String × Value)) :
    r.membersOfValues seen a ((key, v) :: rest) =
      r.membersOfValues (key :: seen) (set b a) rest := by
  have hchange : (Field.of key required d set).change.ofValue v = .ok (set b) := by
    change (d.ofValue v).bind _ = _
    rw [hv]
    rfl
  rw [membersOfValues, hfield]
  simp only [hchange, bind, Except.bind]

/-! ## Bags and components -/

namespace Bag

theorem toValue_eq (b : Bag) :
    b.toValue = .object (b.entries.map fun e => (e.1, .string e.2)) := rfl

theorem sorted_toValue (b : Bag) : b.toValue.sorted = b.toValue := by
  rw [toValue_eq, Value.sorted, Value.sortedMembers_eq_map, List.map_map]
  exact congrArg Value.object (Keyed.ofList_of_ascending b.ascending_members)

theorem restores : Bag.decoder.Restores toValue := by
  intro b
  have hsome : (b.entries.map fun e => (e.1, Value.string e.2)).filterMap
      (fun m => (attribute? m.2).map fun text => (m.1, text)) = b.entries := by
    rw [List.filterMap_map]
    exact List.filterMap_some
  rw [sorted_toValue, toValue_eq]
  exact congrArg Except.ok ((congrArg ofList hsome).trans b.ofList_entries)

theorem readable_toValue (levels : Nat) (b : Bag) : b.toValue.Readable (levels + 1) := by
  refine .object fun m hm => ?_
  obtain ⟨e, -, rfl⟩ := List.mem_map.1 hm
  exact .string e.2

end Bag

namespace Component

theorem sorted_toValue (c : Component) :
    c.toValue.sorted =
      .object [("data", c.data.toValue), ("id", .string c.id), ("type", .string c.type)] := by
  simp only [toValue, Value.sorted, Value.sortedMembers, c.data.sorted_toValue]
  simp only [Keyed.ofList, Keyed.insert, List.foldl_cons, List.foldl_nil, String.reduceLT,
    String.reduceEq, if_true, if_false]

/-- A stored component is read back. -/
theorem restores : Component.decoder.Restores toValue := by
  intro c
  have hid : (Decoder.value.refine idOfValue).ofValue (.string c.id) = .ok c.id := rfl
  have htype : Decoder.string.ofValue (.string c.type) = .ok c.type := rfl
  have hdata : Bag.decoder.ofValue c.data.toValue = .ok c.data := by
    rw [← c.data.sorted_toValue]
    exact Bag.restores c.data
  rw [sorted_toValue]
  change record.membersOfValues [] record.start _ = _
  rw [Record.membersOfValues_field rfl hdata, Record.membersOfValues_field rfl hid,
    Record.membersOfValues_field rfl htype]
  rfl

theorem readable_toValue (levels : Nat) (c : Component) : c.toValue.Readable (levels + 2) := by
  refine .object fun m hm => ?_
  simp only [List.mem_cons, List.not_mem_nil, or_false] at hm
  rcases hm with rfl | rfl | rfl
  · exact .string c.id
  · exact .string c.type
  · exact c.data.readable_toValue levels

end Component

/-! ## Settings -/

namespace DesignSettings

theorem sorted_toValue (s : DesignSettings) :
    s.toValue.sorted =
      .object [("buttonStyle", .string s.buttonStyle.name), ("fontFamily", .string s.fontFamily),
        ("offersLayout", .string s.offersLayout.name)] := by
  simp only [toValue, Value.sorted, Value.sortedMembers]
  simp only [Keyed.ofList, Keyed.insert, List.foldl_cons, List.foldl_nil, String.reduceLT,
    String.reduceEq, if_true, if_false]

/-- Stored settings are read back. -/
theorem restores : DesignSettings.record.decoder.Restores toValue := by
  intro s
  have hstyle : ButtonStyle.decoder.ofValue (.string s.buttonStyle.name) = .ok s.buttonStyle := by
    cases s.buttonStyle <;> rfl
  have hlayout : OffersLayout.decoder.ofValue (.string s.offersLayout.name) =
      .ok s.offersLayout := by
    cases s.offersLayout <;> rfl
  have hfont : Decoder.string.ofValue (.string s.fontFamily) = .ok s.fontFamily := rfl
  rw [sorted_toValue]
  change record.membersOfValues [] record.start _ = _
  rw [Record.membersOfValues_field rfl hstyle, Record.membersOfValues_field rfl hfont,
    Record.membersOfValues_field rfl hlayout]
  rfl

theorem readable_toValue (levels : Nat) (s : DesignSettings) :
    s.toValue.Readable (levels + 1) := by
  refine .object fun m hm => ?_
  simp only [List.mem_cons, List.not_mem_nil, or_false] at hm
  rcases hm with rfl | rfl | rfl <;> exact .string _

end DesignSettings

/-! ## Projects -/

namespace Project

theorem sorted_toValue (p : Project) :
    p.toValue.sorted =
      .object [("components", (Value.array (p.components.map Component.toValue)).sorted),
        ("schemaVersion", .string p.schemaVersion), ("settings", p.settings.toValue.sorted)] := by
  rw [toValue, Value.sorted]
  simp only [Value.sortedMembers, Value.sorted]
  simp only [Keyed.ofList, Keyed.insert, List.foldl_cons, List.foldl_nil, String.reduceLT,
    String.reduceEq, if_true, if_false]

/-- A stored project is read back as it was stored, whatever its schema. -/
theorem ofValue_sorted_toValue (p : Project) : ofValue p.toValue.sorted = .ok p := by
  have hcomponents := Component.restores.sequence p.components
  have hversion : Decoder.string.ofValue (.string p.schemaVersion) = .ok p.schemaVersion := rfl
  have hread : record.decoder.ofValue p.toValue.sorted = .ok p := by
    rw [sorted_toValue]
    change record.membersOfValues [] record.start _ = _
    rw [Record.membersOfValues_field rfl hcomponents, Record.membersOfValues_field rfl hversion,
      Record.membersOfValues_field rfl (DesignSettings.restores p.settings)]
    rfl
  have hdecode : record.decoder.decode p.toValue.sorted = .ok p := by
    rw [Decoder.decode, hread]
  rw [sorted_toValue] at hdecode ⊢
  exact hdecode

theorem readable_toValue (p : Project) : p.toValue.Readable maxLevels := by
  have hcomponents : (Value.array (p.components.map Component.toValue)).Readable 126 := by
    refine .array fun v hv => ?_
    obtain ⟨c, -, rfl⟩ := List.mem_map.1 hv
    exact c.readable_toValue 123
  refine .object fun m hm => ?_
  simp only [List.mem_cons, List.not_mem_nil, or_false] at hm
  rcases hm with rfl | rfl | rfl
  · exact .string p.schemaVersion
  · exact p.settings.readable_toValue 125
  · exact hcomponents

theorem ofValue_text (p : Project) : (Json.parse p.text).bind ofValue = .ok p := by
  rw [text, parse_pretty p.readable_toValue]
  exact p.ofValue_sorted_toValue

end Project

/-! ## Loading what was saved -/

/-- Components of the current schema are left as they are. -/
theorem migrate_currentVersion (cs : List Component) :
    migrate currentVersion.text cs = .ok (currentVersion, cs) := by
  have hversion : parseVersion currentVersion.text = .ok currentVersion := by rfl
  have hnewer : currentVersion.compare currentVersion ≠ .gt := by decide
  rw [migrate_of_not_newer hversion hnewer, if_neg hnewer]

namespace Project

/-- **What is loaded** from a text: the project that its value is, brought up to the current
schema. -/
theorem parse_eq_ok_iff {t : String} {p : Project} :
    parse t = .ok p ↔
      ∃ v stored version cs, Json.parse t = .ok v ∧ ofValue v = .ok stored ∧
        migrate stored.schemaVersion stored.components = .ok (version, cs) ∧
          p = { stored with schemaVersion := version.text, components := cs } := by
  unfold parse
  constructor
  · intro h
    obtain ⟨stored, hstored, h⟩ := bind_eq_ok h
    obtain ⟨⟨version, cs⟩, hmigrate, h⟩ := bind_eq_ok h
    cases hread : (Json.parse t).bind ofValue with
    | error e =>
      rw [hread] at hstored
      cases hstored
    | ok q =>
      rw [hread] at hstored
      obtain rfl := Except.ok.inj hstored
      obtain ⟨v, hv, hstored⟩ := bind_eq_ok hread
      exact ⟨v, q, version, cs, hv, hstored, hmigrate, (Except.ok.inj h).symm⟩
  · rintro ⟨v, stored, version, cs, hv, hstored, hmigrate, rfl⟩
    rw [hv]
    simp only [Except.bind, hstored, Except.mapError, bind, hmigrate]

/-- What is loaded is of the current schema. -/
theorem schemaVersion_of_parse {t : String} {p : Project} (h : parse t = .ok p) :
    p.schemaVersion = currentVersion.text := by
  obtain ⟨_, _, version, _, -, -, hmigrate, rfl⟩ := parse_eq_ok_iff.1 h
  exact congrArg Version.text (migrate_cases hmigrate).1

/-- A project of the current schema is read back from its stored form. -/
theorem parse_text_of_current {p : Project} (h : p.schemaVersion = currentVersion.text) :
    parse p.text = .ok p := by
  have hmigrate : migrate p.schemaVersion p.components = .ok (currentVersion, p.components) := by
    rw [h, migrate_currentVersion]
  rw [parse, p.ofValue_text]
  simp only [Except.mapError, bind, Except.bind, hmigrate, ← h]

end Project

theorem text_currentVersion : currentVersion.text = "2.0.0" := by decide

/-- **Saved projects are loaded as they were.** This holds of every project of the current schema,
and so of what was loaded from any text: loading it again from its own stored form gives it back,
and finds no old key to move. -/
theorem parse_text :
    (∀ p : Project, p.schemaVersion = "2.0.0" → Project.parse p.text = .ok p) ∧
    ∀ (t : String) (p : Project), Project.parse t = .ok p →
      Project.parse p.text = .ok p ∧
        migrate p.schemaVersion p.components = .ok (currentVersion, p.components) := by
  refine ⟨fun p h => Project.parse_text_of_current (h.trans text_currentVersion.symm), ?_⟩
  intro t p h
  have hversion := Project.schemaVersion_of_parse h
  exact ⟨Project.parse_text_of_current hversion, by rw [hversion, migrate_currentVersion]⟩

/-- A project of the oldest schema, with an old key and a text over two lines. -/
def oldProject : Project :=
  ⟨"1.0.0", .standard, [⟨"7", "spacer", .ofList [("note", "\"a\"\n"), ("transparent", "yes")]⟩]⟩

/-- The project after loading. -/
def loadedProject : Project :=
  ⟨"2.0.0", .standard, [⟨"7", "spacer", .ofList [("matchBackground", "yes"), ("note", "\"a\"\n")]⟩]⟩

theorem parse_text_oldProject :
    (loadedProject.schemaVersion = "2.0.0" ∧
      Project.parse oldProject.text = .ok loadedProject) ∧
      Project.parse loadedProject.text = .ok loadedProject ∧
      migrate loadedProject.schemaVersion loadedProject.components =
        .ok (currentVersion, loadedProject.components) := by
  have hmigrate : migrate oldProject.schemaVersion oldProject.components =
      .ok (currentVersion, loadedProject.components) := by rfl
  have hload : Project.parse oldProject.text = .ok loadedProject := by
    rw [Project.parse, oldProject.ofValue_text]
    simp only [Except.mapError, bind, Except.bind, hmigrate, text_currentVersion]
    rfl
  exact ⟨⟨rfl, hload⟩, parse_text.2 oldProject.text loadedProject hload⟩

end MailBlocks
