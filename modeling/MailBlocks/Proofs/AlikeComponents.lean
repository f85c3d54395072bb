import MailBlocks.Proofs.OfferIdentities

/-!
# Components that look alike

Two runs of the compiler may differ in what nobody sees: the identities of components, those of
additional offers, stored or drawn, and the way in which a list of additional offers is stored. None
of it reaches the email, and neither does the stored layout of offers.

* `Component.Alike`: components that differ only in what nobody sees.
* `Alike.anonymous_ofBag`: their contents are the same up to identities.
* `renderComponents_alike`: so are their emails.
-/

namespace MailBlocks

/-! ## Alike bags -/

/-- **Bags of sales offers that look alike**: they have the same attributes but for the lists of
additional offers, which are either both refused or read as the same offers up to identities. -/
structure Bag.Alike (a b : Bag) : Prop where
  others : ∀ key, key ≠ "additionalOffers" → a.get? key = b.get? key
  offers : ∃ fresh other, a.offers? fresh = b.offers? other

/-- Bags that differ in lists of additional offers which are read alike. -/
theorem Bag.alike_insert (b : Bag) (fresh : FreshIds) (first second : String)
    (h : (b.insert "additionalOffers" first).offers? fresh =
      (b.insert "additionalOffers" second).offers? fresh) :
    (b.insert "additionalOffers" first).Alike (b.insert "additionalOffers" second) where
  others key hkey := by rw [get?_insert_of_ne b _ hkey.symm, get?_insert_of_ne b _ hkey.symm]
  offers := ⟨fresh, fresh, h⟩

/-- **Components that look alike**: they are of one type, and have the same bag, or, as sales offers,
bags that look alike. -/
inductive Component.Alike : Component → Component → Prop
  | same {i j type : String} {b : Bag} : Alike ⟨i, type, b⟩ ⟨j, type, b⟩
  | salesOffer {i j : String} {a b : Bag} :
      a.Alike b → Alike ⟨i, "sales_offer", a⟩ ⟨j, "sales_offer", b⟩

/-- **Sales offers read off bags that look alike** are the same up to identities. -/
theorem SalesOffer.anonymous_read_of_alike {a b : Bag} (h : a.Alike b) (fresh other : FreshIds) :
    ((slots fresh).read a .new).anonymous = ((slots other).read b .new).anonymous := by
  have hread : ∀ {α : Type} (kind : Scalar α) (key : String) (fallback : α),
      key ≠ "additionalOffers" → a.read kind key fallback = b.read kind key fallback := by
    intro α kind key fallback hkey
    rw [Bag.read, Bag.read, h.others key hkey]
  -- the lists are alike under the identities at hand, as under any
  have hoffers : a.offers? fresh = b.offers? other := by
    obtain ⟨first, second, hoffers⟩ := h.offers
    rw [a.offers?_fresh fresh first, hoffers, b.offers?_fresh second other]
  simp (disch := decide) only [read_slots, OfferLine.read_slots, LineStyle.read_slots,
    OfferButton.read_slots, anonymous, map_anonymous_read, hread, hoffers]

/-- **The contents of components that look alike** are the same up to identities. -/
theorem Component.Alike.anonymous_ofBag {c d : Component} (h : c.Alike d)
    (fresh other : FreshIds) :
    (Content.ofBag fresh c.type c.data).anonymous =
      (Content.ofBag other d.type d.data).anonymous := by
  cases h with
  | same => exact Content.anonymous_ofBag fresh other _ _
  | salesOffer hbags =>
    exact congrArg Content.salesOffer (SalesOffer.anonymous_read_of_alike hbags fresh other)

/-! ## Alike emails -/

theorem mapIdx_eq_of_forall₂ {α β γ : Type} {R : α → β → Prop} {as : List α} {bs : List β}
    (h : List.Forall₂ R as bs) {f : Nat → α → γ} {g : Nat → β → γ}
    (hfg : ∀ i a b, R a b → f i a = g i b) : as.mapIdx f = bs.mapIdx g := by
  -- the places of the rest are one further on
  induction h generalizing f g with
  | nil => rfl
  | cons hab _ ih =>
    rw [List.mapIdx_cons, List.mapIdx_cons, hfg 0 _ _ hab, ih fun i a b => hfg (i + 1) a b]

/-- **Components that look alike make one email**, whatever identities they have or are drawn for
their additional offers, and whatever layout of offers is stored. -/
theorem Email.renderComponents_alike {cs ds : List Component}
    (h : List.Forall₂ Component.Alike cs ds) (fresh other : Nat → FreshIds) (s : DesignSettings)
    (layout : OffersLayout) :
    renderComponents fresh cs s = renderComponents other ds { s with offersLayout := layout } := by
  have htheme : Theme.ofSettings s = Theme.ofSettings { s with offersLayout := layout } := rfl
  have hcontents : (cs.mapIdx fun i c => (Content.ofBag (fresh i) c.type c.data).anonymous) =
      ds.mapIdx fun i d => (Content.ofBag (other i) d.type d.data).anonymous :=
    mapIdx_eq_of_forall₂ h fun i _ _ halike => halike.anonymous_ofBag (fresh i) (other i)
  unfold renderComponents render tokens
  simp only [rows_ofComponents, hcontents, htheme]

/-- A list of one additional offer. -/
def oneOffer : String := "[\x7b\"offer\":\"A\"\x7d]"

/-- The same list with an identity and other spacing and spelling. -/
def oneOfferAgain : String :=
  "[ \x7b\"id\":\"67e55044-10b1-426f-9247-bb680e5fe0c8\", \"offer\":\"\\u0041\"\x7d ]"

/-- A header, a sales offer with an additional one, and a sales offer whose list is refused. -/
def firstDraft : List Component :=
  [⟨"1", "header", .ofList [("text", "Hello")]⟩,
    ⟨"2", "sales_offer", (Bag.ofList [("vehicle", "V")]).insert "additionalOffers" oneOffer⟩,
    ⟨"3", "sales_offer", Bag.empty.insert "additionalOffers" "["⟩]

/-- The same with other identities, and another list that is refused. -/
def secondDraft : List Component :=
  [⟨"x", "header", .ofList [("text", "Hello")]⟩,
    ⟨"", "sales_offer", (Bag.ofList [("vehicle", "V")]).insert "additionalOffers" oneOfferAgain⟩,
    ⟨"3", "sales_offer", Bag.empty.insert "additionalOffers" "7"⟩]

theorem Email.renderComponents_alike_drafts :
    List.Forall₂ Component.Alike firstDraft secondDraft ∧
      renderComponents (fun _ _ => default) firstDraft .standard =
        renderComponents (fun _ _ => .padded [1]) secondDraft
          { DesignSettings.standard with offersLayout := .grid } := by
  have hread := Bag.alike_insert (.ofList [("vehicle", "V")]) (fun _ => default) oneOffer
    oneOfferAgain (by decide +kernel)
  have hrefused := Bag.alike_insert .empty (fun _ => default) "[" "7" (by decide +kernel)
  have hdrafts : List.Forall₂ Component.Alike firstDraft secondDraft :=
    .cons .same (.cons (.salesOffer hread) (.cons (.salesOffer hrefused) .nil))
  exact ⟨hdrafts, renderComponents_alike hdrafts (fun _ _ => default) (fun _ _ => .padded [1])
    .standard .grid⟩

end MailBlocks
