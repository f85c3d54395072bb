import MailBlocks.Proofs.AlikeComponents
import MailBlocks.Proofs.BlockIdentities

/-!
# Attributes with their default texts

A bag is read over new content of its kind, and new content is written as a bag. Both give the same
defaults: filling in what a bag lacks from the bag of new content changes nothing of what is read,
whatever the bag has, usable or not. So attributes that still have their default texts can be left
out, and the email stays the same.

* `Bag.override`: a bag put over another one, and `get?_override`, what a look-up finds.
* `ofKind_override`: a bag that is read as new content can be filled in.
* `Component.LosesDefaults`: components of which some attributes with their default texts are left out.
* `LosesDefaults.anonymous_ofBag`, `renderComponents_losesDefaults`: contents and emails stay.
-/

namespace MailBlocks

open Slots

variable {α : Type}

/-! ## Bags over bags -/

namespace Bag

/-- **A bag put over another one**, whose texts stay where the bag has none. -/
def override (base b : Bag) : Bag :=
  b.entries.foldl (fun filled p => filled.insert p.1 p.2) base

theorem get?_foldl_insert {entries : List (String × String)} (h : Keyed.Ascending entries)
    (base : Bag) (key : String) :
    (entries.foldl (fun filled p => filled.insert p.1 p.2) base).get? key =
      (Keyed.get? key entries).or (base.get? key) := by
  induction entries generalizing base with
  | nil => rfl
  | cons p rest ih =>
    obtain ⟨hall, hrest⟩ := List.pairwise_cons.1 h
    obtain ⟨k, text⟩ := p
    rw [List.foldl_cons, ih hrest, Keyed.get?]
    by_cases hkey : k = key
    · -- the text under this key is the one just put, since no later pair has it
      have hlater : Keyed.get? key rest = none := by
        rw [← hkey]
        exact Keyed.get?_eq_none_of_lt hall
      rw [if_pos hkey, hlater, Option.none_or, Option.some_or, hkey, get?_insert_self]
    · rw [if_neg hkey, get?_insert_of_ne base text hkey]

/-- A look-up finds the text of the bag on top, if it has one. -/
theorem get?_override (base b : Bag) (key : String) :
    (base.override b).get? key = (b.get? key).or (base.get? key) :=
  get?_foldl_insert b.ascending base key

/-- A field is read alike if what lies below says no more than the fallback. -/
theorem read_override {base : Bag} {kind : Scalar α} {key : String} {fallback : α}
    (h : base.read kind key fallback = fallback) (b : Bag) :
    (base.override b).read kind key fallback = b.read kind key fallback := by
  unfold Bag.read at h ⊢
  rw [get?_override]
  cases b.get? key with
  | none => exact h
  | some text => rfl

/-- The bag without the texts under some keys. -/
def without (b : Bag) (keys : List String) : Bag :=
  keys.foldl erase b

theorem get?_without (b : Bag) (keys : List String) (key : String) :
    (b.without keys).get? key = if key ∈ keys then none else b.get? key := by
  induction keys generalizing b with
  | nil => rfl
  | cons k keys ih =>
    have hrest : (b.without (k :: keys)).get? key = ((b.erase k).without keys).get? key := rfl
    rw [hrest, ih, get?_erase]
    by_cases hmem : key ∈ keys
    · rw [if_pos hmem, if_pos (List.mem_cons_of_mem k hmem)]
    · by_cases hkey : k = key
      · rw [if_neg hmem, if_pos hkey, if_pos (by rw [hkey]; exact List.mem_cons_self)]
      · have hcons : key ∉ k :: keys := by
          rw [List.mem_cons, not_or]
          exact ⟨Ne.symm hkey, hmem⟩
        rw [if_neg hmem, if_neg hkey, if_neg hcons]

/-- **Texts that are the same below can be left out** of the bag on top. -/
theorem override_without {base b : Bag} {keys : List String}
    (h : ∀ key ∈ keys, ∀ text ∈ b.get? key, base.get? key = some text) :
    base.override (b.without keys) = base.override b := by
  refine ext_get? fun key => ?_
  rw [get?_override, get?_override, get?_without]
  by_cases hmem : key ∈ keys
  · rw [if_pos hmem, Option.none_or]
    cases hb : b.get? key with
    | none => rw [Option.none_or]
    | some text => rw [Option.some_or, h key hmem text hb]
  · rw [if_neg hmem]

end Bag

/-! ## Blocks that are read over filled bags -/

section

variable {base : Bag}

theorem Padding.read_slots (b : Bag) (p : Padding) :
    Padding.slots.read b p =
      { top := b.read .number "paddingTop" p.top
        right := b.read .number "paddingRight" p.right
        bottom := b.read .number "paddingBottom" p.bottom
        left := b.read .number "paddingLeft" p.left } := by
  simp only [slots, read_of, read_nil, implies_true]

theorem Padding.read_override {p : Padding} (h : Padding.slots.read base p = p) (b : Bag) :
    Padding.slots.read (base.override b) p = Padding.slots.read b p := by
  cases p
  simp only [read_slots, mk.injEq] at h
  simp only [read_slots, Bag.read_override, h]

theorem LineStyle.read_override {line : String} {s : LineStyle}
    (h : (LineStyle.slots line).read base s = s) (b : Bag) :
    (LineStyle.slots line).read (base.override b) s = (LineStyle.slots line).read b s := by
  cases s
  simp only [read_slots, mk.injEq] at h
  simp only [read_slots, Bag.read_override, h]

theorem OfferLine.read_override {textKey line : String} {l : OfferLine}
    (h : (OfferLine.slots textKey line).read base l = l) (b : Bag) :
    (OfferLine.slots textKey line).read (base.override b) l =
      (OfferLine.slots textKey line).read b l := by
  cases l
  simp only [read_slots, mk.injEq] at h
  simp only [read_slots, Bag.read_override, LineStyle.read_override, h]

theorem TextBlock.read_override {t : TextBlock} (h : TextBlock.slots.read base t = t) (b : Bag) :
    TextBlock.slots.read (base.override b) t = TextBlock.slots.read b t := by
  cases t
  simp only [read_slots, mk.injEq] at h
  simp only [read_slots, Bag.read_override, Padding.read_override, h]

theorem ImageBlock.read_override {i : ImageBlock} (h : ImageBlock.slots.read base i = i)
    (b : Bag) : ImageBlock.slots.read (base.override b) i = ImageBlock.slots.read b i := by
  cases i
  simp only [read_slots, mk.injEq] at h
  simp only [read_slots, Bag.read_override, Padding.read_override, h]

theorem ButtonBlock.read_override {k : ButtonBlock} (h : ButtonBlock.slots.read base k = k)
    (b : Bag) : ButtonBlock.slots.read (base.override b) k = ButtonBlock.slots.read b k := by
  cases k
  simp only [read_slots, mk.injEq] at h
  simp only [read_slots, Bag.read_override, h]

theorem DividerBlock.read_override {d : DividerBlock} (h : DividerBlock.slots.read base d = d)
    (b : Bag) : DividerBlock.slots.read (base.override b) d = DividerBlock.slots.read b d := by
  cases d
  simp only [read_slots, mk.injEq] at h
  simp only [read_slots, Bag.read_override, h]

theorem SpacerBlock.read_override {s : SpacerBlock} (h : SpacerBlock.slots.read base s = s)
    (b : Bag) : SpacerBlock.slots.read (base.override b) s = SpacerBlock.slots.read b s := by
  cases s
  simp only [read_slots, mk.injEq] at h
  simp only [read_slots, Bag.read_override, h]

theorem OfferButton.read_override {k : OfferButton} (h : OfferButton.slots.read base k = k)
    (b : Bag) : OfferButton.slots.read (base.override b) k = OfferButton.slots.read b k := by
  cases k
  simp only [read_slots, mk.injEq] at h
  simp only [read_slots, Bag.read_override, h]

theorem ServiceLine.read_override {line : String} {l : ServiceLine}
    (h : (ServiceLine.slots line).read base l = l) (b : Bag) :
    (ServiceLine.slots line).read (base.override b) l = (ServiceLine.slots line).read b l := by
  cases l
  simp only [read_slots, mk.injEq] at h
  simp only [read_slots, Bag.read_override, h]

theorem Coupon.read_override {c : Coupon} (h : Coupon.slots.read base c = c) (b : Bag) :
    Coupon.slots.read (base.override b) c = Coupon.slots.read b c := by
  cases c
  simp only [read_slots, mk.injEq] at h
  simp only [read_slots, Bag.read_override, h]

theorem ServiceOffer.read_override {o : ServiceOffer} (h : ServiceOffer.slots.read base o = o)
    (b : Bag) : ServiceOffer.slots.read (base.override b) o = ServiceOffer.slots.read b o := by
  cases o
  simp only [read_slots, mk.injEq] at h
  simp only [read_slots, Bag.read_override, ServiceLine.read_override, Coupon.read_override,
    OfferButton.read_override, h]

theorem SalesOffer.read_override {fresh : FreshIds} {o : SalesOffer}
    (h : (SalesOffer.slots fresh).read base o = o) (b : Bag) :
    (SalesOffer.slots fresh).read (base.override b) o = (SalesOffer.slots fresh).read b o := by
  cases o
  simp only [read_slots, mk.injEq] at h
  simp only [read_slots, Bag.read_override, OfferLine.read_override, OfferButton.read_override, h]

end

/-! ## Content of all kinds -/

namespace Content

/-- **Content is read alike over a bag that is itself read as new content.** -/
theorem ofKind_override {fresh : FreshIds} {k : Kind} {base : Bag}
    (h : ofKind fresh base k = new k) (b : Bag) :
    ofKind fresh (base.override b) k = ofKind fresh b k := by
  cases k with
  | header => exact congrArg header (TextBlock.read_override (header.inj h) b)
  | textBlock => exact congrArg textBlock (TextBlock.read_override (textBlock.inj h) b)
  | image => exact congrArg image (ImageBlock.read_override (image.inj h) b)
  | button => exact congrArg button (ButtonBlock.read_override (button.inj h) b)
  | divider => exact congrArg divider (DividerBlock.read_override (divider.inj h) b)
  | spacer => exact congrArg spacer (SpacerBlock.read_override (spacer.inj h) b)
  | serviceOffer => exact congrArg serviceOffer (ServiceOffer.read_override (serviceOffer.inj h) b)
  | salesOffer => exact congrArg salesOffer (SalesOffer.read_override (salesOffer.inj h) b)

/-- **What a bag lacks is as in new content**, also when it is filled in from its bag. -/
theorem ofBag_override (fresh : FreshIds) (typeName : String) (b : Bag) :
    ofBag fresh typeName ((newAttributes typeName).override b) = ofBag fresh typeName b := by
  have hnew := ofBag_newAttributes fresh typeName
  revert hnew
  unfold ofBag newOf
  cases Kind.ofName? typeName with
  | none => exact fun _ => rfl
  | some k => exact fun hnew => ofKind_override hnew b

end Content

/-! ## Components without their default texts -/

/-- **A component of which some attributes with their default texts are left out.** -/
inductive Component.LosesDefaults (c : Component) : Component → Prop
  | without (keys : List String)
      (h : ∀ key ∈ keys, ∀ text ∈ c.data.get? key, (newAttributes c.type).get? key = some text) :
      LosesDefaults c { c with data := c.data.without keys }

/-- The content stays the same, up to the identities that are drawn. -/
theorem Component.LosesDefaults.anonymous_ofBag {c d : Component} (h : c.LosesDefaults d)
    (fresh other : FreshIds) :
    (Content.ofBag fresh d.type d.data).anonymous =
      (Content.ofBag other c.type c.data).anonymous := by
  obtain ⟨keys, hkeys⟩ := h
  calc (Content.ofBag fresh c.type (c.data.without keys)).anonymous
      = (Content.ofBag fresh c.type
          ((newAttributes c.type).override (c.data.without keys))).anonymous := by
        rw [Content.ofBag_override]
    _ = (Content.ofBag fresh c.type ((newAttributes c.type).override c.data)).anonymous := by
        rw [Bag.override_without hkeys]
    _ = (Content.ofBag fresh c.type c.data).anonymous := by rw [Content.ofBag_override]
    _ = (Content.ofBag other c.type c.data).anonymous := Content.anonymous_ofBag fresh other _ _

/-- **The email stays the same** when attributes with their default texts are left out. -/
theorem Email.renderComponents_losesDefaults {cs ds : List Component}
    (h : List.Forall₂ Component.LosesDefaults cs ds) (fresh other : Nat → FreshIds)
    (s : DesignSettings) : renderComponents fresh ds s = renderComponents other cs s := by
  have hcontents : (cs.mapIdx fun i c => (Content.ofBag (other i) c.type c.data).anonymous) =
      ds.mapIdx fun i d => (Content.ofBag (fresh i) d.type d.data).anonymous :=
    mapIdx_eq_of_forall₂ h fun i _ _ hloses => (hloses.anonymous_ofBag (fresh i) (other i)).symm
  exact renderComponents_congr hcontents.symm s

/-- **Defaults come from one place.** Whatever a bag has, it is read as it is with all that it lacks
filled in from the bag of new content, up to the identities of additional offers where these are
drawn anew. So the email of some components stays the same when attributes with their default texts
are left out of them. -/
theorem defaults_agree :
    (∀ (fresh : FreshIds) (typeName : String) (b : Bag),
      Content.ofBag fresh typeName ((newAttributes typeName).override b) =
        Content.ofBag fresh typeName b) ∧
    (∀ (fresh other : FreshIds) (typeName : String) (b : Bag),
      (Content.ofBag fresh typeName ((newAttributes typeName).override b)).anonymous =
        (Content.ofBag other typeName b).anonymous) ∧
    ∀ (fresh other : Nat → FreshIds) (cs ds : List Component) (s : DesignSettings),
      List.Forall₂ Component.LosesDefaults cs ds →
        Email.renderComponents fresh ds s = Email.renderComponents other cs s := by
  refine ⟨Content.ofBag_override, fun fresh other typeName b => ?_,
    fun fresh other cs ds s h => Email.renderComponents_losesDefaults h fresh other s⟩
  rw [Content.ofBag_override]
  exact Content.anonymous_ofBag fresh other typeName b

/-- A header and a sales offer with default texts, and with others that are unusable or their own. -/
def wordy : List Component :=
  [⟨"1", "header", .ofList [("text", "Hello"), ("fontSize", "24"), ("color", " "),
      ("paddingTop", "20")]⟩,
    ⟨"2", "sales_offer", .ofList [("vehicle", "V"), ("vehiclePaddingTop", "15"),
      ("paddingTop", "x"), ("additionalOffers", "[]"), ("imageWidth", "wide")]⟩]

/-- The keys of the default texts among them. -/
def wordyDefaults : List (List String) :=
  [["fontSize", "paddingTop"], ["additionalOffers", "vehiclePaddingTop"]]

/-- The components without their default texts. -/
def terse : List Component :=
  wordy.zipWith (fun c keys => { c with data := c.data.without keys }) wordyDefaults

theorem defaults_agree_terse :
    List.Forall₂ Component.LosesDefaults wordy terse ∧
      terse.map (fun c => c.data.entries.length) = [2, 3] ∧
      Email.renderComponents (fun _ _ => default) terse .standard =
        Email.renderComponents (fun _ _ => .padded [1]) wordy .standard := by
  have hloses : List.Forall₂ Component.LosesDefaults wordy terse :=
    .cons (.without ["fontSize", "paddingTop"] (by decide +kernel))
      (.cons (.without ["additionalOffers", "vehiclePaddingTop"] (by decide +kernel)) .nil)
  exact ⟨hloses, by decide +kernel, defaults_agree.2.2 _ _ wordy terse _ hloses⟩

end MailBlocks
