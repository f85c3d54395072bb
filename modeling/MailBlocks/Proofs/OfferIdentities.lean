import MailBlocks.Email.Render
import MailBlocks.Proofs.SettledBlocks

/-!
# Emails without identities

Reading a bag draws identities for additional offers that have none. They serve editing only: no
row of an email shows one, so an email does not depend on those that were drawn.

* `Bag.offers?`: the additional offers of a bag without identities.
* `Content.anonymous`: content with the identities of its additional offers taken out.
* `rowsOf_anonymous`: nothing that is shown is taken out.
* `anonymous_ofBag`: up to identities, a bag is read in one way.
* `renderComponents_fresh`: the email of some components is one text.
-/

namespace MailBlocks

theorem map_mapIdx {α β γ : Type} (f : Nat → α → β) (g : β → γ) (l : List α) :
    (l.mapIdx f).map g = l.mapIdx fun i a => g (f i a) := by
  simp [List.mapIdx_eq_zipIdx_map]

/-! ## Taking identities out -/

namespace AdditionalOffer

/-- The offer with the same lines and a fixed identity. -/
def anonymous (a : AdditionalOffer) : AdditionalOffer :=
  { a with id := default }

theorem anonymous_ofMembers (fresh other : OfferId) (members : List (String × Json.Value)) :
    (ofMembers fresh members).anonymous = (ofMembers other members).anonymous := by
  simp only [ofMembers, read_slots]
  rfl

/-- A stored list is refused or read in one way, whatever identities are drawn. -/
theorem map_anonymous_decode (fresh other : FreshIds) (stored : String) :
    (decode fresh stored).map (List.map anonymous) =
      (decode other stored).map (List.map anonymous) := by
  unfold decode
  split
  · rfl
  · cases listDecoder.parse stored with
    | error e => rfl
    | ok entries =>
      have hentry : ∀ i members, (ofMembers (fresh i) members).anonymous =
          (ofMembers (other i) members).anonymous := fun i => anonymous_ofMembers _ _
      simp only [Except.map, map_mapIdx, hentry]

end AdditionalOffer

/-- **The additional offers that a bag stores**, without identities: an empty list if there is no
list, and nothing if the list is refused. -/
def Bag.offers? (fresh : FreshIds) (b : Bag) : Option (List AdditionalOffer) :=
  match b.get? "additionalOffers" with
  | none => some []
  | some stored => ((AdditionalOffer.decode fresh stored).map (List.map .anonymous)).toOption

theorem Bag.offers?_fresh (fresh other : FreshIds) (b : Bag) :
    b.offers? fresh = b.offers? other := by
  unfold offers?
  simp only [AdditionalOffer.map_anonymous_decode fresh other]

namespace SalesOffer

/-- The offer without the identities of its additional offers. -/
def anonymous (o : SalesOffer) : SalesOffer :=
  { o with additional := o.additional.map AdditionalOffer.anonymous }

/-- The list of a new sales offer that is read over. -/
theorem map_anonymous_read (fresh : FreshIds) (b : Bag) :
    (b.read (additionalScalar fresh) "additionalOffers" new.additional).map
      AdditionalOffer.anonymous = (b.offers? fresh).getD [] := by
  unfold Bag.read Bag.offers?
  cases b.get? "additionalOffers" with
  | none => rfl
  | some stored =>
    dsimp only [additionalScalar]
    cases AdditionalOffer.decode fresh stored <;> rfl

theorem anonymous_read (fresh other : FreshIds) (b : Bag) :
    ((slots fresh).read b .new).anonymous = ((slots other).read b .new).anonymous := by
  simp only [read_slots, anonymous, map_anonymous_read, b.offers?_fresh fresh other]

end SalesOffer

namespace Content

/-- **Content without the identities** of its additional offers. -/
def anonymous : Content → Content
  | salesOffer o => salesOffer o.anonymous
  | c => c

/-- Up to identities, a bag is read in one way. -/
theorem anonymous_ofBag (fresh other : FreshIds) (typeName : String) (b : Bag) :
    (ofBag fresh typeName b).anonymous = (ofBag other typeName b).anonymous := by
  unfold ofBag
  cases Kind.ofName? typeName with
  | none => rfl
  | some k =>
    cases k with
    | salesOffer => exact congrArg salesOffer (SalesOffer.anonymous_read fresh other b)
    | _ => rfl

end Content

/-! ## Rows without identities -/

namespace Email

theorem salesLines_anonymous (theme : Theme) (o : SalesOffer) :
    salesLines theme o.anonymous = salesLines theme o := by
  have hlines : o.anonymous.additional.flatMap (additionalLines theme) =
      o.additional.flatMap (additionalLines theme) := List.flatMap_map _ _ _
  rw [salesLines, hlines]
  rfl

/-- **No row shows an identity.** -/
theorem rowsOf_anonymous (theme : Theme) (c : Content) :
    rowsOf theme c.anonymous = rowsOf theme c := by
  cases c with
  | salesOffer o =>
    have hlines := salesLines_anonymous theme o
    have hside : sideLines theme o.anonymous = sideLines theme o := by
      rw [sideLines, hlines, sideLines]
    change salesOfferRow theme o.anonymous = salesOfferRow theme o
    unfold salesOfferRow
    rw [hlines, hside]
    rfl
  | _ => rfl

theorem rows_ofComponents (fresh : Nat → FreshIds) (theme : Theme) (cs : List Component) :
    ((Document.ofComponents fresh cs).blocks.flatMap fun b => rowsOf theme b.content) =
      (cs.mapIdx fun i c => (Content.ofBag (fresh i) c.type c.data).anonymous).flatMap
        (rowsOf theme) := by
  simp only [Document.ofComponents, List.flatMap_def, map_mapIdx, rowsOf_anonymous]
  rfl

/-- Components with the same contents up to identities make the same email. -/
theorem renderComponents_congr {fresh other : Nat → FreshIds} {cs ds : List Component}
    (h : (cs.mapIdx fun i c => (Content.ofBag (fresh i) c.type c.data).anonymous) =
      ds.mapIdx fun i d => (Content.ofBag (other i) d.type d.data).anonymous)
    (s : DesignSettings) : renderComponents fresh cs s = renderComponents other ds s := by
  unfold renderComponents render tokens
  simp only [rows_ofComponents, h]

/-- **The email of some components is one text**, whatever identities are drawn for it. -/
theorem renderComponents_fresh (fresh other : Nat → FreshIds) (cs : List Component)
    (s : DesignSettings) : renderComponents fresh cs s = renderComponents other cs s := by
  have hcontent : ∀ i (c : Component), (Content.ofBag (fresh i) c.type c.data).anonymous =
      (Content.ofBag (other i) c.type c.data).anonymous := fun i c =>
    Content.anonymous_ofBag (fresh i) (other i) c.type c.data
  have hcontents : (fun i (c : Component) => (Content.ofBag (fresh i) c.type c.data).anonymous) =
      fun i c => (Content.ofBag (other i) c.type c.data).anonymous :=
    funext fun i => funext fun c => hcontent i c
  exact renderComponents_congr (congrArg (List.mapIdx · cs) hcontents) s

end Email

end MailBlocks
