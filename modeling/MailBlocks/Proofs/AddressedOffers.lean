import Mathlib.Data.List.Nodup
import MailBlocks.Proofs.SettledBlocks
import MailBlocks.Proofs.StoredOffers

/-!
# Additional offers addressed by identity

Every look-up takes the first additional offer that has an identity, so the identities of a list
lead to its offers only if no two offers share one. Stored offers keep the identity that they bring
along, in whatever spelling, and a copied one brings along that of its original.

* `SalesOffer.position?_id_iff`: identities that lead to their offers.
* `SalesOffer.remove?_of_position?`, `SalesOffer.modifyLine?_of_position?`: edits of what is found.
* `AdditionalOffer.nodup_ids_iff`: which lists are read with distinct identities.
* `decode_addresses`: which stored lists can be addressed.
-/

namespace MailBlocks

/-! ## Look-ups -/

namespace SalesOffer

variable {o : SalesOffer} {id : OfferId} {i : Nat} {a : AdditionalOffer}

/-- An identity leads to the first offer that has it. -/
theorem position?_eq_some_iff :
    o.position? id = some i ↔ ∃ h : i < o.additional.length, o.additional[i].id = id ∧
      ∀ j (hj : j < i), o.additional[j].id ≠ id := by
  rw [position?, List.findIdx?_eq_some_iff_getElem]
  simp only [beq_iff_eq, ne_eq]

/-- **The identities of a list lead to its offers** if and only if no two offers share one. -/
theorem position?_id_iff :
    (∀ i a, o.additional[i]? = some a → o.position? a.id = some i) ↔
      (o.additional.map (·.id)).Nodup := by
  rw [List.nodup_iff_pairwise_ne, List.pairwise_map, List.pairwise_iff_getElem]
  constructor
  · intro h i j hi hj hij hid
    -- both places would be the first with the identity
    have hfirst := h i _ (List.getElem?_eq_getElem hi)
    have hsecond := h j _ (List.getElem?_eq_getElem hj)
    rw [hid, hsecond] at hfirst
    have := Option.some.inj hfirst
    omega
  · intro h i a ha
    obtain ⟨hi, rfl⟩ := List.getElem?_eq_some_iff.1 ha
    exact position?_eq_some_iff.2 ⟨hi, rfl, fun j hj => h j i _ hi hj⟩

/-- The offer that an identity leads to is found. -/
theorem find?_of_position? (h : o.position? id = some i) (ha : o.additional[i]? = some a) :
    o.find? id = some a := by
  obtain ⟨hi, hid, hfirst⟩ := position?_eq_some_iff.1 h
  obtain ⟨_, rfl⟩ := List.getElem?_eq_some_iff.1 ha
  rw [find?, List.find?_eq_some_iff_getElem]
  refine ⟨beq_iff_eq.2 hid, i, hi, rfl, fun j hj => ?_⟩
  rw [Bool.not_eq_true', beq_eq_false_iff_ne]
  exact hfirst j hj

/-- The offer that an identity leads to is taken out, and no other. -/
theorem remove?_of_position? (h : o.position? id = some i) (ha : o.additional[i]? = some a) :
    o.remove? id = some (a, { o with additional := o.additional.eraseIdx i }) := by
  have hplace : o.additional.findIdx? (·.id == id) = some i := h
  rw [remove?, find?_of_position? h ha, List.eraseP_eq_eraseIdx, hplace]
  rfl

/-- The offer that an identity leads to is changed, and no other. -/
theorem modifyLine?_of_position? (h : o.position? id = some i) (ha : o.additional[i]? = some a)
    (name : String) (f : OfferLine → OfferLine) :
    o.modifyLine? id name f =
      (a.modifyLine? name f).map fun b => { o with additional := o.additional.set i b } := by
  simp only [modifyLine?, h, ha, bind, Option.bind]
  cases a.modifyLine? name f <;> rfl

end SalesOffer

/-! ## The identities of a list that is read -/

namespace AdditionalOffer

/-- **The identity that a stored offer brings along**, if it has one in a valid spelling. -/
def storedId? (members : List (String × Json.Value)) : Option OfferId :=
  ((bagOf members).get? "id").bind OfferId.ofText?

theorem id_ofMembers (fresh : OfferId) (members : List (String × Json.Value)) :
    (ofMembers fresh members).id = (storedId? members).getD fresh := by
  rw [ofMembers, read_slots]
  dsimp only [Bag.read, storedId?]
  cases (bagOf members).get? "id" with
  | none => rfl
  | some text => rfl

/-- **Identities are drawn apart** for some stored offers: each is drawn once, and none of them is
that of a stored offer. -/
structure DrawnApart (fresh : FreshIds) (entries : List (List (String × Json.Value))) : Prop where
  distinct : ∀ i < entries.length, ∀ j < entries.length, fresh i = fresh j → i = j
  unstored : ∀ i < entries.length, ∀ members ∈ entries, storedId? members ≠ some (fresh i)

/-- **The offers of a list have distinct identities** if and only if those that the stored offers
bring along are distinct. -/
theorem nodup_ids_iff {fresh : FreshIds} {entries : List (List (String × Json.Value))}
    (h : DrawnApart fresh entries) :
    ((entries.mapIdx fun i members => ofMembers (fresh i) members).map (·.id)).Nodup ↔
      (entries.filterMap storedId?).Nodup := by
  rw [List.nodup_iff_pairwise_ne, List.nodup_iff_pairwise_ne, List.pairwise_map,
    List.pairwise_filterMap, List.pairwise_iff_getElem, List.pairwise_iff_getElem]
  simp only [List.length_mapIdx, List.getElem_mapIdx, id_ofMembers]
  refine forall₄_congr fun i j hi hj => forall_congr' fun hij => ?_
  have hi' := h.unstored i hi _ (List.getElem_mem hj)
  have hj' := h.unstored j hj _ (List.getElem_mem hi)
  -- only two identities that are brought along can be the same
  cases hfirst : storedId? entries[i] with
  | none =>
    cases hsecond : storedId? entries[j] with
    | none =>
      have hdrawn : fresh i ≠ fresh j := fun heq => absurd (h.distinct i hi j hj heq) (by omega)
      simpa using hdrawn
    | some second =>
      rw [hsecond, ne_eq, Option.some.injEq] at hi'
      simpa [eq_comm] using hi'
  | some first =>
    cases hsecond : storedId? entries[j] with
    | none =>
      rw [hfirst, ne_eq, Option.some.injEq] at hj'
      simpa using hj'
    | some second => simp

end AdditionalOffer

/-- **Which stored lists can be addressed.** For additional offers that were read from a list, each
identity leads to its own offer if and only if the identities that stored offers bring along are
distinct. The offer is then the one that is found, taken out or changed, and no other is. -/
theorem decode_addresses (fresh : FreshIds) (stored : String)
    (entries : List (List (String × Json.Value))) (o : SalesOffer)
    (hread : AdditionalOffer.decode fresh stored = .ok o.additional)
    (hstored : AdditionalOffer.Stores stored entries)
    (hdrawn : AdditionalOffer.DrawnApart fresh entries) :
    ((∀ i a, o.additional[i]? = some a → o.position? a.id = some i) ↔
      (entries.filterMap AdditionalOffer.storedId?).Nodup) ∧
    ((entries.filterMap AdditionalOffer.storedId?).Nodup → ∀ i a, o.additional[i]? = some a →
      o.find? a.id = some a ∧
      o.remove? a.id = some (a, { o with additional := o.additional.eraseIdx i }) ∧
      ∀ name f, o.modifyLine? a.id name f =
        (a.modifyLine? name f).map fun b => { o with additional := o.additional.set i b }) := by
  obtain ⟨others, hothers, hoffers⟩ := AdditionalOffer.stored_of_decode hread
  obtain rfl := AdditionalOffer.eq_of_stores hothers hstored
  have hpositions : (∀ i a, o.additional[i]? = some a → o.position? a.id = some i) ↔
      (others.filterMap AdditionalOffer.storedId?).Nodup := by
    rw [SalesOffer.position?_id_iff, hoffers, AdditionalOffer.nodup_ids_iff hdrawn]
  refine ⟨hpositions, fun hnodup i a ha => ?_⟩
  have hplace := hpositions.2 hnodup i a ha
  exact ⟨SalesOffer.find?_of_position? hplace ha, SalesOffer.remove?_of_position? hplace ha,
    SalesOffer.modifyLine?_of_position? hplace ha⟩

/-- Identities that begin with the place that they are drawn for. -/
def drawnIds : FreshIds :=
  fun i => .padded [OfferId.lowDigit i]

/-- A sales offer with some stored additional offers. -/
def offering (entries : List (List (String × Json.Value))) : SalesOffer :=
  { SalesOffer.new with
    additional := entries.mapIdx fun i members => .ofMembers (drawnIds i) members }

theorem decode_offering {text : String} {entries : List (List (String × Json.Value))}
    (hblank : ¬ Text.blank text) (h : AdditionalOffer.listDecoder.parse text = .ok entries) :
    AdditionalOffer.decode drawnIds text = .ok (offering entries).additional :=
  AdditionalOffer.decode_of_parse hblank h

/-- Stored offers with an identity, with an invalid one and with none. -/
def mixedEntries : List (List (String × Json.Value)) :=
  [[("id", .string "67e55044-10b1-426f-9247-bb680e5fe0c8")], [("id", .string "none")], []]

/-- The text that stores them, to be read only where a proof says so. -/
@[irreducible]
def mixedText : String :=
  "[\x7b\"id\":\"67e55044-10b1-426f-9247-bb680e5fe0c8\"\x7d,\x7b\"id\":\"none\"\x7d,\x7b\x7d]"

theorem decode_addresses_mixed :
    (∀ i a, (offering mixedEntries).additional[i]? = some a →
      (offering mixedEntries).position? a.id = some i) ∧
    ∀ i a, (offering mixedEntries).additional[i]? = some a →
      (offering mixedEntries).remove? a.id =
        some (a, { offering mixedEntries with
          additional := (offering mixedEntries).additional.eraseIdx i }) := by
  have hblank : ¬ Text.blank mixedText := by decide +kernel
  have hparse : AdditionalOffer.listDecoder.parse mixedText = .ok mixedEntries := by
    unfold mixedText
    rfl
  have hread := decode_offering hblank hparse
  have hstored := AdditionalOffer.stores_of_parse hblank hparse
  have hdrawn : AdditionalOffer.DrawnApart drawnIds mixedEntries :=
    ⟨by decide +kernel, by decide +kernel⟩
  have hnodup : (mixedEntries.filterMap AdditionalOffer.storedId?).Nodup := by decide +kernel
  obtain ⟨hpositions, hedits⟩ := decode_addresses drawnIds mixedText mixedEntries
    (offering mixedEntries) hread hstored hdrawn
  exact ⟨hpositions.2 hnodup, fun i a ha => (hedits hnodup i a ha).2.1⟩

/-- A stored offer and its copy, with the identity in another spelling. -/
def copiedEntries : List (List (String × Json.Value)) :=
  [[("id", .string "67e55044-10b1-426f-9247-bb680e5fe0c8")],
    [("id", .string "67E5504410B1426F9247BB680E5FE0C8")]]

/-- The text that stores them, to be read only where a proof says so. -/
@[irreducible]
def copiedText : String :=
  "[\x7b\"id\":\"67e55044-10b1-426f-9247-bb680e5fe0c8\"\x7d," ++
    "\x7b\"id\":\"67E5504410B1426F9247BB680E5FE0C8\"\x7d]"

/-- The identity of a copied offer leads to its original. -/
theorem copied_offer_unaddressed :
    ¬ ∀ (fresh : FreshIds) (stored : String) (entries : List (List (String × Json.Value)))
        (o : SalesOffer), AdditionalOffer.decode fresh stored = .ok o.additional →
      AdditionalOffer.Stores stored entries → AdditionalOffer.DrawnApart fresh entries →
        ∀ i a, o.additional[i]? = some a → o.position? a.id = some i := by
  intro h
  have hblank : ¬ Text.blank copiedText := by decide +kernel
  have hparse : AdditionalOffer.listDecoder.parse copiedText = .ok copiedEntries := by
    unfold copiedText
    rfl
  have hread := decode_offering hblank hparse
  have hstored := AdditionalOffer.stores_of_parse hblank hparse
  have hdrawn : AdditionalOffer.DrawnApart drawnIds copiedEntries :=
    ⟨by decide +kernel, by decide +kernel⟩
  have hcopy := h drawnIds copiedText copiedEntries (offering copiedEntries) hread hstored hdrawn
    1 _ rfl
  exact absurd hcopy (by decide +kernel)

end MailBlocks
