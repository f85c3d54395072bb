import MailBlocks.Proofs.AlikeComponents
import MailBlocks.Proofs.KeyOrder
import MailBlocks.Proofs.Recoveries
import MailBlocks.Proofs.RelatedValues
import MailBlocks.Proofs.StoredLists
import MailBlocks.Proofs.StoredProjects

/-!
# Lists of offers stored as values

A stored list of additional offers is a text, but it may be authored as the value itself. A bag
takes the value as its compact text, which need not be the text that an author would write. Both
are read as the same offers, so that projects which differ only in this load as the same documents.

* `AdditionalOffer.Quoted`: a list as a value and as a text of that value.
* `Bag.SameOffers`, `Component.SameOffers`, `Project.SameOffers`: what stores the same offers.
* `Bag.decoder_follows`, `Component.decoder_follows`, `Project.ofValue_follows`: what is loaded.
* `SameOffers.withNewKeys`: migration keeps what stores the same offers so.
* `parse_quoted`: projects with a quoted list.
-/

namespace MailBlocks

open Json

/-! ## Texts of one value -/

namespace Json

variable {levels : Nat}

/-- In canonical order, a value is no deeper than its spelling may be. -/
theorem Denotes.depth_sorted_le {form : List Char} {v : Value} (h : Denotes levels form v) :
    v.sorted.depth ≤ levels := by
  induction h with
  | null | true | false | number | string => exact Nat.zero_le _
  | emptyArray | emptyObject => exact Nat.succ_le_succ (Nat.zero_le _)
  | array _ ih =>
    rw [Value.sorted, Value.sortedItems_eq_map, Value.depth]
    refine Nat.succ_le_succ (Value.depthItems_le_iff.2 ?_)
    exact List.forall_mem_map.2 (List.forall_mem_map.2 ih)
  | object _ _ ih =>
    rw [Value.sorted, Value.sortedMembers_eq_map, Value.depth]
    refine Nat.succ_le_succ (Value.depthMembers_le_iff.2 fun m hm => ?_)
    obtain ⟨n, hn, rfl⟩ := List.mem_map.1 (Keyed.mem_of_mem_ofList hm)
    obtain ⟨x, hx, rfl⟩ := List.mem_map.1 hn
    exact ih x hx

/-- A value without fractions that has a text is read back from what is written for it. -/
theorem TextOf.readable_sorted {text : String} {v : Value} (h : TextOf text v)
    (hwhole : v.sorted.Whole) : v.sorted.Readable maxLevels := by
  obtain ⟨p, -, -, hform⟩ := h
  exact hwhole.readable hform.depth_sorted_le

theorem Value.bracketed_sorted_iff {v : Value} : v.sorted.Bracketed ↔ v.Bracketed := by
  cases v with
  | null | bool | number | string => exact Iff.rfl
  | array => exact iff_of_true (.array _) (.array _)
  | object => exact iff_of_true (.object _) (.object _)

end Json

namespace AdditionalOffer

/-- Texts that are not blank and have one value are read as the same list, or refused. -/
theorem toOption_decode_of_parse {s t : String} {v : Value} (hs : Json.parse s = .ok v)
    (ht : Json.parse t = .ok v) (hblank : ¬ Text.blank s) (hblank' : ¬ Text.blank t)
    (fresh : FreshIds) : (decode fresh s).toOption = (decode fresh t).toOption := by
  rw [decode, decode, if_neg hblank, if_neg hblank']
  cases hread : listDecoder.parse s with
  | ok entries =>
    rw [parse_listDecoder_iff.2 (ht.trans (hs.symm.trans (parse_listDecoder_iff.1 hread)))]
  | error e =>
    cases hread' : listDecoder.parse t with
    | ok entries =>
      rw [parse_listDecoder_iff.2 (hs.trans (ht.symm.trans (parse_listDecoder_iff.1 hread')))]
        at hread
      cases hread
    | error e' => rfl

/-- **A list as a value and as a string**, which is a text of that value: keys may stand in another
order there, and of a key that is repeated the last member counts. The value is an array or an
object, and without fractions. -/
inductive Quoted : Value → Value → Prop
  | intro {v w : Value} {s : String} (hshape : v.Bracketed) (hwhole : v.sorted.Whole)
      (htext : TextOf s w) (hsame : w.sorted = v.sorted) : Quoted v (.string s)

/-- **The attributes** that a list gives as a value and as a string are read alike. -/
theorem Quoted.attributes {v w : Value} (h : Quoted v w) :
    ∃ s t, Bag.attribute? v.sorted = some s ∧ Bag.attribute? w.sorted = some t ∧
      ∀ fresh, (decode fresh s).toOption = (decode fresh t).toOption := by
  obtain @⟨authored, s, hshape, hwhole, htext, hsame⟩ := h
  have hsorted : v.sorted.Bracketed := Value.bracketed_sorted_iff.2 hshape
  have hauthored : authored.Bracketed := Value.bracketed_sorted_iff.1 (hsame ▸ hsorted)
  have hcompact : TextOf v.sorted.compact v.sorted := by
    rw [← hsame] at hwhole ⊢
    exact textOf_compact (htext.readable_sorted hwhole)
  have hparse := hcompact.parse
  rw [Value.sorted_sorted] at hparse
  have hauthor := htext.parse
  rw [hsame] at hauthor
  have hattribute : Bag.attribute? v.sorted = some v.sorted.compact := by
    cases hshape <;> rfl
  exact ⟨v.sorted.compact, s, hattribute, rfl, toOption_decode_of_parse hparse hauthor
    (not_blank_of_textOf hcompact hsorted) (not_blank_of_textOf htext hauthored)⟩

end AdditionalOffer

/-! ## Storing the same offers -/

/-- The additional offers that a bag stores: none if it has no list, and otherwise what is read of
the list, if it is read. -/
def Bag.storedOffers (fresh : FreshIds) (b : Bag) : Option (Option (List AdditionalOffer)) :=
  (b.get? "additionalOffers").map fun stored => (AdditionalOffer.decode fresh stored).toOption

/-- **Bags that store the same offers**: they have the same attributes but for the lists of
additional offers, which are both refused or read as the same offers, with the same identities for
those that have none. -/
structure Bag.SameOffers (a b : Bag) : Prop where
  others : ∀ key, key ≠ "additionalOffers" → a.get? key = b.get? key
  offers : ∀ fresh, a.storedOffers fresh = b.storedOffers fresh

/-- **Components that store the same offers.** -/
structure Component.SameOffers (c d : Component) : Prop where
  id : c.id = d.id
  type : c.type = d.type
  data : c.data.SameOffers d.data

/-- **Projects that store the same offers.** -/
structure Project.SameOffers (p q : Project) : Prop where
  schemaVersion : p.schemaVersion = q.schemaVersion
  settings : p.settings = q.settings
  components : List.Forall₂ Component.SameOffers p.components q.components

theorem Bag.SameOffers.refl (b : Bag) : b.SameOffers b :=
  ⟨fun _ _ => rfl, fun _ => rfl⟩

theorem Component.SameOffers.refl (c : Component) : c.SameOffers c :=
  ⟨rfl, rfl, .refl c.data⟩

/-! ## Reading stored values -/

/-- A look-up in the bag of stored members. -/
theorem Bag.exists_ofValue_object (ms : List (String × Value)) :
    ∃ b : Bag, Bag.decoder.ofValue (Value.object ms).sorted = .ok b ∧ ∀ key,
      b.get? key = (Keyed.get? key (Keyed.ofList (Value.sortedMembers ms))).bind attribute? :=
  ⟨_, rfl, get?_ofList_filterMap (Keyed.ascending_ofList _) attribute?⟩

/-- Bags whose lists are quoted store the same offers. -/
theorem Bag.decoder_follows :
    Bag.decoder.Follows (Value.DifferAt "additionalOffers" AdditionalOffer.Quoted)
      Bag.SameOffers := by
  rintro _ _ a (@⟨ms, ns, hmembers⟩) ha
  obtain ⟨a', ha', hgetA⟩ := Bag.exists_ofValue_object ms
  obtain ⟨b, hb, hgetB⟩ := Bag.exists_ofValue_object ns
  obtain rfl : a = a' := Except.ok.inj (ha.symm.trans ha')
  have hmatch := Value.matches_sortedMembers hmembers
  refine ⟨b, hb, ?_, ?_⟩
  · intro key hkey
    rw [hgetA, hgetB]
    obtain ⟨hms, hns⟩ | ⟨_, _, hms, hns, v, w, rfl | ⟨hlist, -⟩, rfl, rfl⟩ := hmatch.get?_cases key
    · rw [hms, hns]
    · rw [hms, hns]
    · exact absurd hlist hkey
  · intro fresh
    rw [storedOffers, storedOffers, hgetA, hgetB]
    obtain ⟨hms, hns⟩ | ⟨_, _, hms, hns, v, w, rfl | ⟨-, hquoted⟩, rfl, rfl⟩ :=
      hmatch.get?_cases "additionalOffers"
    · rw [hms, hns]
    · rw [hms, hns]
    · obtain ⟨s, t, hs, ht, hread⟩ := hquoted.attributes
      rw [hms, hns, Option.bind_some, Option.bind_some, hs, ht]
      exact congrArg some (hread fresh)

/-- **Stored components that differ in a quoted list only.** They are objects or arrays of their
fields. -/
inductive Component.Quotes : Value → Value → Prop
  | object {v w : Value}
      (h : Value.DifferAt "data" (Value.DifferAt "additionalOffers" AdditionalOffer.Quoted) v w) :
      Quotes v w
  | array {id type v w : Value} (h : Value.DifferAt "additionalOffers" AdditionalOffer.Quoted v w) :
      Quotes (.array [id, type, v]) (.array [id, type, w])

/-- **Stored projects that differ in quoted lists only.** They are objects or bare arrays of
components. -/
inductive Project.Quotes : Value → Value → Prop
  | object {v w : Value}
      (h : Value.DifferAt "components" (Value.DifferIn Component.Quotes) v w) : Quotes v w
  | array {v w : Value} (h : Value.DifferIn Component.Quotes v w) : Quotes v w

section

open scoped Relator

/-- The bag is the field of a component with the list of additional offers. -/
theorem Component.fields_follow :
    ∀ f ∈ record.fields, f.change.Follows
      (fun v w => v = w ∨
        f.key = "data" ∧ Value.DifferAt "additionalOffers" AdditionalOffer.Quoted v w)
      (SameOffers ⇒ SameOffers) := by
  simp only [record, List.forall_mem_cons]
  refine ⟨Field.follows_of_ne (by decide) ?_, Field.follows_of_ne (by decide) ?_,
    Field.follows_of_follows Bag.decoder_follows .refl ?_, nofun⟩
  · exact fun _ _ _ h => ⟨rfl, h.type, h.data⟩
  · exact fun _ _ _ h => ⟨h.id, rfl, h.data⟩
  · exact fun _ _ _ _ hbag h => ⟨h.id, h.type, hbag⟩

/-- The components are the field of a project with the lists of additional offers. -/
theorem Project.fields_follow
    (h : Component.decoder.Follows Component.Quotes Component.SameOffers) :
    ∀ f ∈ record.fields, f.change.Follows
      (fun v w => v = w ∨ f.key = "components" ∧ Value.DifferIn Component.Quotes v w)
      (SameOffers ⇒ SameOffers) := by
  have hcomponents := h.sequence Component.SameOffers.refl
  simp only [record, List.forall_mem_cons]
  refine ⟨Field.follows_of_ne (by decide) ?_, Field.follows_of_ne (by decide) ?_,
    Field.follows_of_follows hcomponents ?_ ?_, nofun⟩
  · exact fun _ _ _ h => ⟨rfl, h.settings, h.components⟩
  · exact fun _ _ _ h => ⟨h.schemaVersion, rfl, h.components⟩
  · exact fun cs => List.forall₂_same.2 fun c _ => .refl c
  · exact fun _ _ _ _ hcs h => ⟨h.schemaVersion, h.settings, hcs⟩

end

/-- **Stored components** that differ in a quoted list are read as components that store the same
offers. -/
theorem Component.decoder_follows : decoder.Follows Quotes SameOffers := by
  rintro _ _ c (hobject | @⟨id, type, v, w, hdata⟩) hc
  · exact Record.follows fields_follow (.refl _) _ _ c hobject hc
  · change record.elementsOfValues record.fields 0 record.start _ = _ at hc
    simp only [record, Value.sortedItems, Record.elementsOfValues] at hc
    obtain ⟨setId, hid, hc⟩ := bind_eq_ok hc
    obtain ⟨setType, htype, hc⟩ := bind_eq_ok hc
    obtain ⟨setData, hbag, hc⟩ := bind_eq_ok hc
    obtain rfl := Except.ok.inj hc
    -- the bag is the last of the fields
    obtain ⟨setOther, hother, hsets⟩ := fields_follow _ (by simp [record]) v w setData
      (.inr ⟨rfl, hdata⟩) hbag
    refine ⟨setOther (setType (setId record.start)), ?_, hsets (.refl _)⟩
    change record.elementsOfValues record.fields 0 record.start _ = _
    simp only [record, Value.sortedItems, Record.elementsOfValues, hid, htype, hother]
    rfl

/-- What is read from a value, or why it is not. -/
theorem Json.Decoder.decode_eq_ok_iff {α : Type} {d : Decoder α} {v : Value} {a : α} :
    d.decode v = .ok a ↔ d.ofValue v = .ok a := by
  unfold decode
  cases d.ofValue v <;> simp

/-- **Stored projects** that differ in quoted lists only are read as projects that store the same
offers. -/
theorem Project.ofValue_follows {v w : Value} (h : Quotes v w) {p : Project}
    (hp : ofValue v.sorted = .ok p) : ∃ q, ofValue w.sorted = .ok q ∧ p.SameOffers q := by
  rcases h with hobject | harray
  · obtain ⟨q, hq, hsame⟩ : ∃ q, record.decoder.ofValue w.sorted = .ok q ∧ p.SameOffers q := by
      refine Record.follows (fields_follow Component.decoder_follows) ⟨rfl, rfl, .nil⟩ v w p
        hobject ?_
      cases hobject
      exact Decoder.decode_eq_ok_iff.1 hp
    refine ⟨q, ?_, hsame⟩
    cases hobject
    exact Decoder.decode_eq_ok_iff.2 hq
  · have hcomponents := Component.decoder_follows.sequence Component.SameOffers.refl v w
    cases harray with
    | array hitems =>
      obtain ⟨cs, hcs, rfl⟩ := map_eq_ok hp
      obtain ⟨ds, hds, hsame⟩ := hcomponents cs (.array hitems) (Decoder.decode_eq_ok_iff.1 hcs)
      refine ⟨⟨oldestVersion, .standard, ds⟩, ?_, rfl, rfl, hsame⟩
      exact congrArg (Except.map _) (Decoder.decode_eq_ok_iff.2 hds)

/-! ## Migration -/

namespace Bag.SameOffers

variable {a b : Bag}

/-- A bag after a change stores the same offers if the change passes over the list. -/
theorem of_change (h : a.SameOffers b) {f : Bag → Bag}
    (hothers : ∀ key, key ≠ "additionalOffers" → (f a).get? key = (f b).get? key)
    (hlist : ∀ c : Bag, (f c).get? "additionalOffers" = c.get? "additionalOffers") :
    (f a).SameOffers (f b) where
  others := hothers
  offers fresh := by
    rw [storedOffers, storedOffers, hlist, hlist]
    exact h.offers fresh

theorem move (h : a.SameOffers b) {m : Move} (hold : m.old ≠ "additionalOffers")
    (hnew : m.new ≠ "additionalOffers") : (a.move m).SameOffers (b.move m) := by
  refine h.of_change (f := (Bag.move · m)) (fun key hkey => ?_) fun c => ?_
  · rw [get?_move, get?_move, h.others _ hold, h.others _ hnew, h.others _ hkey]
  · rw [get?_move, if_neg hold.symm, if_neg hnew.symm]

theorem foldl_move (h : a.SameOffers b) {ms : List Move}
    (hms : ∀ m ∈ ms, m.old ≠ "additionalOffers" ∧ m.new ≠ "additionalOffers") :
    (ms.foldl Bag.move a).SameOffers (ms.foldl Bag.move b) := by
  induction ms generalizing a b with
  | nil => exact h
  | cons m ms ih =>
    obtain ⟨⟨hold, hnew⟩, hrest⟩ := List.forall_mem_cons.1 hms
    exact ih (h.move hold hnew) hrest

theorem renameNumber (h : a.SameOffers b) {old : String} (hvalue : old ≠ "stockVinValue")
    (htype : old ≠ "stockVinType") (hlist : old ≠ "additionalOffers") (kind : VehicleNumber) :
    (renameNumber a old kind).SameOffers (renameNumber b old kind) := by
  refine h.of_change (f := (MailBlocks.renameNumber · old kind)) (fun key hkey => ?_) fun c => ?_
  · rw [get?_renameNumber hvalue htype, get?_renameNumber hvalue htype, contains, contains,
      contains, contains, h.others _ hlist, h.others _ hkey, h.others "stockVinValue" (by decide)]
  · rw [get?_renameNumber hvalue htype, if_neg hlist.symm]
    simp

/-- **The moves to new keys** pass over the list of additional offers. -/
theorem renameFirstKeys (h : a.SameOffers b) (type : String) :
    (renameFirstKeys type a).SameOffers (renameFirstKeys type b) := by
  have hmoves : ∀ m ∈ moves type, m.old ≠ "additionalOffers" ∧ m.new ≠ "additionalOffers" := by
    unfold moves
    split <;> simp
  rw [renameFirstKeys_eq_moves, renameFirstKeys_eq_moves]
  refine foldl_move ?_ hmoves
  split
  · have hstock : (MailBlocks.renameNumber a "stockNumber" .stock).SameOffers
        (MailBlocks.renameNumber b "stockNumber" .stock) :=
      h.renameNumber (by decide) (by decide) (by decide) .stock
    exact hstock.renameNumber (by decide) (by decide) (by decide) .vin
  · exact h

end Bag.SameOffers

theorem Component.SameOffers.withNewKeys {c d : Component} (h : c.SameOffers d) :
    c.withNewKeys.SameOffers d.withNewKeys where
  id := h.id
  type := h.type
  data := by
    rw [Component.withNewKeys, Component.withNewKeys, h.type]
    exact h.data.renameFirstKeys d.type

/-- **Components that store the same offers** still do when they are migrated. -/
theorem migrate_follows {cs ds : List Component} (h : List.Forall₂ Component.SameOffers cs ds)
    {version : String} {v : Version} {cs' : List Component}
    (hcs : migrate version cs = .ok (v, cs')) :
    ∃ ds', migrate version ds = .ok (v, ds') ∧ List.Forall₂ Component.SameOffers cs' ds' := by
  obtain ⟨rfl, schema, hversion, hnewer, rfl⟩ := migrate_cases hcs
  refine ⟨_, migrate_of_not_newer hversion hnewer ds, ?_⟩
  split
  · exact List.forall₂_map_left_iff.2
      (List.forall₂_map_right_iff.2 (h.imp fun _ _ => Component.SameOffers.withNewKeys))
  · exact h

/-! ## Blocks and reports -/

/-- Reading by a table that has the list of additional offers under no key. -/
theorem Bag.SameOffers.read_eq {a b : Bag} (h : a.SameOffers b) {α : Type} {slots : Slots α}
    (hkeys : "additionalOffers" ∉ slots.map (·.key)) (start : α) :
    slots.read a start = slots.read b start := by
  refine List.foldl_ext _ _ _ fun x s hs => ?_
  have hkey : s.key ≠ "additionalOffers" := fun hkey => hkeys (List.mem_map.2 ⟨s, hs, hkey⟩)
  rw [Slot.readFrom, Slot.readFrom, h.others s.key hkey]

/-- The slot of the list reads what a bag stores; a list that is refused counts as empty. -/
theorem SalesOffer.readFrom_additionalOffers {fresh : FreshIds} {s : Slot SalesOffer}
    (hs : s ∈ slots fresh) (hkey : s.key = "additionalOffers") (b : Bag) (o : SalesOffer) :
    s.readFrom b o =
      ((b.storedOffers fresh).map fun offers => { o with additional := offers.getD [] }).getD o := by
  rw [Slot.readFrom, hkey, Bag.storedOffers]
  cases b.get? "additionalOffers" with
  | none => rfl
  | some stored => exact load_of_key_eq hs hkey o stored

/-- **Sales offers are read alike** off bags that store the same offers. -/
theorem SalesOffer.read_of_sameOffers {a b : Bag} (h : a.SameOffers b) (fresh : FreshIds)
    (start : SalesOffer) : (slots fresh).read a start = (slots fresh).read b start := by
  refine List.foldl_ext _ _ _ fun o s hs => ?_
  by_cases hkey : s.key = "additionalOffers"
  · rw [readFrom_additionalOffers hs hkey, readFrom_additionalOffers hs hkey, h.offers]
  · rw [Slot.readFrom, Slot.readFrom, h.others s.key hkey]

/-- **Content of any kind is read alike** off bags that store the same offers. -/
theorem Content.ofBag_of_sameOffers {a b : Bag} (h : a.SameOffers b) (fresh : FreshIds)
    (typeName : String) : ofBag fresh typeName a = ofBag fresh typeName b := by
  unfold ofBag
  cases Kind.ofName? typeName with
  | none => rfl
  | some k =>
    cases k with
    | header => exact congrArg header (h.read_eq (by decide) _)
    | textBlock => exact congrArg textBlock (h.read_eq (by decide) _)
    | image => exact congrArg image (h.read_eq (by decide) _)
    | button => exact congrArg button (h.read_eq (by decide) _)
    | divider => exact congrArg divider (h.read_eq (by decide) _)
    | spacer => exact congrArg spacer (h.read_eq (by decide) _)
    | serviceOffer => exact congrArg serviceOffer (h.read_eq (by decide) _)
    | salesOffer => exact congrArg salesOffer (SalesOffer.read_of_sameOffers h fresh _)

/-- **The documents of projects that store the same offers** are the same. -/
theorem Project.SameOffers.document_eq {p q : Project} (h : p.SameOffers q)
    (fresh : Nat → FreshIds) : p.document fresh = q.document fresh := by
  refine congrArg Document.mk (mapIdx_eq_of_forall₂ h.components fun i c d hcd => ?_)
  rw [Block.ofComponent, Block.ofComponent, hcd.id, hcd.type,
    Content.ofBag_of_sameOffers hcd.data]

namespace Lint

/-- A violation without what the rule objects to. -/
def Violation.withoutActual (v : Violation) : Violation :=
  { v with actual := none }

/-- The violations of the rule on additional offers in a report. Their texts of what was refused are
left out. -/
def refusedOffers (mode : Mode) (p : Project) : List Violation :=
  ((check mode p).violations.filter (·.rule == "additional_offers")).map Violation.withoutActual

/-- The rule refuses the lists that are not read. -/
theorem additionalOffers_cons (c : Component) (cs : List Component) :
    (additionalOffers (c :: cs)).map Violation.withoutActual =
      (if c.kind? = some .salesOffer ∧ c.data.storedOffers (fun _ => default) = some none then
        [⟨"additional_offers", .warning,
          "Additional offers could not be decoded and will not render", some c.id, none,
          ["Reset the additional offers list"]⟩]
      else []) ++ (additionalOffers cs).map Violation.withoutActual := by
  unfold additionalOffers
  by_cases hkind : c.kind? = some .salesOffer
  · rw [List.filter_cons, if_pos (beq_iff_eq.2 hkind), List.filterMap_cons, Bag.storedOffers]
    cases c.data.get? "additionalOffers" with
    | none => simp
    | some stored =>
      cases hread : AdditionalOffer.decode (fun _ => default) stored with
      | ok offers => simp [hread, Except.toOption]
      | error e => simp [hread, hkind, Except.toOption, Violation.withoutActual]
  · rw [List.filter_cons, if_neg (mt beq_iff_eq.1 hkind), if_neg fun h => hkind h.1]
    rfl

/-- **Components that store the same offers** are refused together. -/
theorem additionalOffers_of_sameOffers {cs ds : List Component}
    (h : List.Forall₂ Component.SameOffers cs ds) :
    (additionalOffers cs).map Violation.withoutActual =
      (additionalOffers ds).map Violation.withoutActual := by
  induction h with
  | nil => rfl
  | cons hcd _ ih =>
    rw [additionalOffers_cons, additionalOffers_cons, ih, Component.kind?, Component.kind?, hcd.id,
      hcd.type, hcd.data.offers]

/-- Projects that store the same offers have the same of them refused. -/
theorem refusedOffers_of_sameOffers {p q : Project} (h : p.SameOffers q) (mode : Mode) :
    refusedOffers mode p = refusedOffers mode q := by
  have hmem := List.mem_of_mem_tail additionalOffers_mem_named
  rw [refusedOffers, refusedOffers, filter_rule_check mode hmem p, filter_rule_check mode hmem q,
    additionalOffers_of_sameOffers h.components]

end Lint

/-! ## Loading quoted lists -/

/-- **A list of additional offers may be authored as a value or as a text of it.** Of two texts that
differ in this only, in any sales offers, the second is loaded if the first is, and both give the
same offers with the same identities for those that have none, the same documents, the same refused
lists and the same email, whatever identities are drawn for it. -/
theorem parse_quoted {t₁ t₂ : String} {v₁ v₂ : Value} {p : Project} (h₁ : TextOf t₁ v₁)
    (h₂ : TextOf t₂ v₂) (hquotes : Project.Quotes v₁ v₂) (hload : Project.parse t₁ = .ok p) :
    ∃ q, Project.parse t₂ = .ok q ∧ p.SameOffers q ∧
      (∀ fresh, p.document fresh = q.document fresh) ∧
      (∀ mode, Lint.refusedOffers mode p = Lint.refusedOffers mode q) ∧
      ∀ fresh other, Email.renderComponents fresh p.components p.settings =
        Email.renderComponents other q.components q.settings := by
  obtain ⟨v, stored, version, cs, hv, hstored, hmigrate, rfl⟩ := Project.parse_eq_ok_iff.1 hload
  obtain rfl := Except.ok.inj (hv.symm.trans h₁.parse)
  obtain ⟨stored', hstored', hsame⟩ := Project.ofValue_follows hquotes hstored
  obtain ⟨ds, hmigrate', hcomponents⟩ := migrate_follows hsame.components hmigrate
  have hsame' : Project.SameOffers
      { stored with schemaVersion := version.text, components := cs }
      { stored' with schemaVersion := version.text, components := ds } :=
    ⟨rfl, hsame.settings, hcomponents⟩
  rw [hsame.schemaVersion] at hmigrate'
  refine ⟨_, Project.parse_eq_ok_iff.2 ⟨_, _, _, _, h₂.parse, hstored', hmigrate', rfl⟩, hsame',
    hsame'.document_eq, Lint.refusedOffers_of_sameOffers hsame', fun fresh other => ?_⟩
  have hrender : ∀ ids, Email.renderComponents ids cs stored.settings =
      Email.renderComponents ids ds stored'.settings := fun ids =>
    congr (congrArg Email.render (hsame'.document_eq ids)) hsame.settings
  rw [hrender, Email.renderComponents_fresh fresh other]

/-- A stored sales offer with a list of additional offers. -/
def offeringComponent (list : Value) : Value :=
  .object [("id", .number (.int 7)), ("type", .string "sales_offer"),
    ("data", .object [("additionalOffers", list)])]

/-- A stored project of that offer alone. -/
def offeringProject (list : Value) : Value :=
  .object [("components", .array [offeringComponent list])]

theorem textOf_offeringProject {list : Value} (h : list.Whole)
    (hdepth : (offeringProject list).depth ≤ maxLevels) :
    TextOf (offeringProject list).compact (offeringProject list) := by
  have hid : (Value.number (.int 7)).Whole := .int (by decide) (by decide)
  have hdata : (Value.object [("additionalOffers", list)]).Whole :=
    .object (List.forall_mem_singleton.2 h)
  have hcomponent : (offeringComponent list).Whole := by
    refine .object ?_
    simp only [List.forall_mem_cons]
    exact ⟨hid, .string _, hdata, List.forall_mem_nil _⟩
  have hproject : (offeringProject list).Whole :=
    .object (List.forall_mem_singleton.2 (.array (List.forall_mem_singleton.2 hcomponent)))
  exact textOf_compact (hproject.readable hdepth)

theorem quotes_offeringProject {v w : Value} (h : AdditionalOffer.Quoted v w) :
    Project.Quotes (offeringProject v) (offeringProject w) := by
  have hdata : Value.DifferAt "additionalOffers" AdditionalOffer.Quoted
      (.object [("additionalOffers", v)]) (.object [("additionalOffers", w)]) :=
    .object (.cons ⟨rfl, .inr ⟨rfl, h⟩⟩ .nil)
  have hcomponent : Component.Quotes (offeringComponent v) (offeringComponent w) :=
    .object (.object (.cons ⟨rfl, .inl rfl⟩ (.cons ⟨rfl, .inl rfl⟩
      (.cons ⟨rfl, .inr ⟨rfl, hdata⟩⟩ .nil))))
  exact .object (.object (.cons ⟨rfl, .inr ⟨rfl, .array (.cons (.inr hcomponent) .nil)⟩⟩ .nil))

/-- A list of an offer. -/
def plainList : Value :=
  .array [.object [("details", .bool true), ("offer", .number (.int 1))]]

/-- The list with a line given twice, and with the keys in another order. -/
def repeatedList : Value :=
  .array [.object AdditionalOffer.repeatedMembers]

theorem sorted_plainList : plainList.sorted = plainList := by
  simp only [plainList, Value.sorted, Value.sortedItems, Value.sortedMembers, Keyed.ofList,
    Keyed.insert, List.foldl_cons, List.foldl_nil, String.reduceLT, String.reduceEq, if_false]

theorem sorted_repeatedList : repeatedList.sorted = plainList := by
  simp only [plainList, repeatedList, AdditionalOffer.repeatedMembers, Value.sorted,
    Value.sortedItems, Value.sortedMembers, Keyed.ofList, Keyed.insert, List.foldl_cons,
    List.foldl_nil, String.reduceLT, String.reduceEq, if_true, if_false]

theorem whole_plainList : plainList.Whole := by
  refine .array (List.forall_mem_singleton.2 (.object ?_))
  simp only [List.forall_mem_cons]
  exact ⟨.bool true, .int (by decide) (by decide), List.forall_mem_nil _⟩

theorem textOf_repeatedList : TextOf repeatedList.compact repeatedList := by
  refine textOf_compact (.array (List.forall_mem_singleton.2 (.object ?_)))
  simp only [AdditionalOffer.repeatedMembers, List.forall_mem_cons]
  exact ⟨.string "a", .bool true, .int (by decide) (by decide), List.forall_mem_nil _⟩

/-- The list as a value, and the text of it in which a key is repeated. -/
theorem parse_quoted_repeated :
    ∃ p q, Project.parse (offeringProject plainList).compact = .ok p ∧
      Project.parse (offeringProject (.string repeatedList.compact)).compact = .ok q ∧
      p.SameOffers q ∧
      Email.renderComponents (fun _ _ => default) p.components p.settings =
        Email.renderComponents (fun _ _ => .padded [1]) q.components q.settings := by
  have hquoted : AdditionalOffer.Quoted plainList (.string repeatedList.compact) :=
    .intro (.array _) (sorted_plainList.symm ▸ whole_plainList) textOf_repeatedList
      (sorted_repeatedList.trans sorted_plainList.symm)
  have hvalue := textOf_offeringProject whole_plainList (by decide)
  have htext := textOf_offeringProject (.string repeatedList.compact) (by decide)
  obtain ⟨p, hp⟩ : ∃ p, Project.parse (offeringProject plainList).compact = .ok p :=
    ⟨_, Project.parse_eq_ok_iff.2 ⟨_, _, _, _, hvalue.parse, rfl, rfl, rfl⟩⟩
  obtain ⟨q, hq, hsame, -, -, hrender⟩ :=
    parse_quoted hvalue htext (quotes_offeringProject hquoted) hp
  exact ⟨p, q, hp, hq, hsame, hrender _ _⟩

end MailBlocks
