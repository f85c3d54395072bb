import MailBlocks.Document
import MailBlocks.Proofs.SettledBlocks

/-!
# Bags read back

Blocks are written to bags and read back, one kind after the other, and documents with them.

* `Content.settled`: content with its words of style settled.
* `ofBag_toBag`: content is read back settled, and what was read is read back as it is.
-/

namespace MailBlocks

open Slots

/-! ## Content of all kinds -/

namespace Content

/-- **The block with its words of style settled**: trimmed, and replaced by those of a new block of
its kind if blank. -/
def settled : Content → Content
  | header t => header (t.settled .heading)
  | textBlock t => textBlock (t.settled .paragraph)
  | image i => image i
  | button k => button (k.settled .new)
  | divider d => divider (d.settled .new)
  | spacer s => spacer (s.settled .new)
  | serviceOffer o => serviceOffer (o.settled .new)
  | salesOffer o => salesOffer (o.settled .new)
  | unknown name => unknown name

/-- Content of a known kind is read back settled. -/
theorem ofKind_toBag {c : Content} {k : Kind} (h : c.kind? = some k) (fresh : FreshIds) :
    ofKind fresh c.toBag k = c.settled := by
  cases c with
  | unknown name => cases h
  | header t =>
    obtain rfl := Option.some.inj h
    rw [toBag, ofKind, read_write TextBlock.nodup_keys, TextBlock.reread_slots, settled]
  | textBlock t =>
    obtain rfl := Option.some.inj h
    rw [toBag, ofKind, read_write TextBlock.nodup_keys, TextBlock.reread_slots, settled]
  | image i =>
    obtain rfl := Option.some.inj h
    rw [toBag, ofKind, read_write ImageBlock.nodup_keys, ImageBlock.reread_slots, settled]
  | button b =>
    obtain rfl := Option.some.inj h
    rw [toBag, ofKind, read_write ButtonBlock.nodup_keys, ButtonBlock.reread_slots, settled]
  | divider d =>
    obtain rfl := Option.some.inj h
    rw [toBag, ofKind, read_write DividerBlock.nodup_keys, DividerBlock.reread_slots, settled]
  | spacer s =>
    obtain rfl := Option.some.inj h
    rw [toBag, ofKind, read_write SpacerBlock.nodup_keys, SpacerBlock.reread_slots, settled]
  | serviceOffer o =>
    obtain rfl := Option.some.inj h
    rw [toBag, ofKind, read_write ServiceOffer.nodup_keys, ServiceOffer.reread_slots, settled]
  | salesOffer o =>
    obtain rfl := Option.some.inj h
    rw [toBag, ofKind, SalesOffer.write_slots _ fresh, read_write (SalesOffer.nodup_keys fresh),
      SalesOffer.reread_slots, settled]

/-- What was read is settled. -/
theorem settled_ofKind (fresh : FreshIds) (b : Bag) (k : Kind) :
    (ofKind fresh b k).settled = ofKind fresh b k := by
  cases k with
  | header =>
    have hstart : TextBlock.heading.settled .heading = .heading := by decide +kernel
    exact congrArg header (TextBlock.settled_read hstart b)
  | textBlock =>
    have hstart : TextBlock.paragraph.settled .paragraph = .paragraph := by decide +kernel
    exact congrArg textBlock (TextBlock.settled_read hstart b)
  | image => rfl
  | button =>
    have hstart : ButtonBlock.new.settled .new = .new := by decide +kernel
    exact congrArg button (ButtonBlock.settled_read hstart b)
  | divider =>
    have hstart : DividerBlock.new.settled .new = .new := by decide +kernel
    exact congrArg divider (DividerBlock.settled_read hstart b)
  | spacer =>
    have hstart : SpacerBlock.new.settled .new = .new := by decide +kernel
    exact congrArg spacer (SpacerBlock.settled_read hstart b)
  | serviceOffer =>
    have hstart : ServiceOffer.new.settled .new = .new := by decide +kernel
    exact congrArg serviceOffer (ServiceOffer.settled_read hstart b)
  | salesOffer =>
    have hstart : SalesOffer.new.settled .new = .new := by decide +kernel
    exact congrArg salesOffer (SalesOffer.settled_read fresh hstart b)

theorem kind?_ofKind (fresh : FreshIds) (b : Bag) (k : Kind) :
    (ofKind fresh b k).kind? = some k := by
  cases k <;> rfl

theorem typeName_of_kind? {c : Content} {k : Kind} (h : c.kind? = some k) :
    c.typeName = k.name := by
  cases c with
  | unknown name => cases h
  | _ =>
    obtain rfl := Option.some.inj h
    rfl

theorem ofBag_name (fresh : FreshIds) (k : Kind) (b : Bag) :
    ofBag fresh k.name b = ofKind fresh b k := by
  rw [ofBag, Kind.ofName?_name]

/-- A block is read back settled, unless it only claims to be of an unknown kind. -/
theorem ofBag_toBag_eq_settled (fresh : FreshIds) {c : Content}
    (h : ∀ k : Kind, c ≠ unknown k.name) : ofBag fresh c.typeName c.toBag = c.settled := by
  cases hk : c.kind? with
  | some k => rw [typeName_of_kind? hk, ofBag_name, ofKind_toBag hk]
  | none =>
    obtain ⟨name, rfl⟩ : ∃ name, c = unknown name := by
      cases c with
      | unknown name => exact ⟨name, rfl⟩
      | _ => cases hk
    have hname : Kind.ofName? name = none := by
      refine Option.eq_none_iff_forall_ne_some.2 fun k hk => ?_
      exact h k (congrArg unknown (Kind.name_of_ofName? hk).symm)
    have hread : ofBag fresh name ∅ = unknown name := by rw [ofBag, hname]
    exact hread

/-- What was read is read back as it is. -/
theorem ofBag_toBag_ofBag (fresh again : FreshIds) (typeName : String) (b : Bag) :
    ofBag again (ofBag fresh typeName b).typeName (ofBag fresh typeName b).toBag =
      ofBag fresh typeName b := by
  cases hk : Kind.ofName? typeName with
  | some k =>
    have hread : ofBag fresh typeName b = ofKind fresh b k := by rw [ofBag, hk]
    have hkind := kind?_ofKind fresh b k
    rw [hread, typeName_of_kind? hkind, ofBag_name, ofKind_toBag hkind, settled_ofKind]
  | none =>
    have hread : ∀ f b', ofBag f typeName b' = unknown typeName := fun f b' => by rw [ofBag, hk]
    rw [hread]
    exact hread again _

end Content

/-! ## Documents -/

/-- A document that was read is read back as it is. -/
theorem Document.ofComponents_toComponents (fresh again : Nat → FreshIds) (cs : List Component) :
    ofComponents again (ofComponents fresh cs).toComponents = ofComponents fresh cs := by
  have hblock : ∀ i (c : Component), Block.ofComponent (again i)
      (Block.ofComponent (fresh i) c).toComponent = Block.ofComponent (fresh i) c := fun i c =>
    congrArg (Block.mk c.id) (Content.ofBag_toBag_ofBag (fresh i) (again i) c.type c.data)
  refine congrArg Document.mk (List.ext_getElem? fun i => ?_)
  simp only [toComponents, ofComponents, List.getElem?_mapIdx, List.getElem?_map, Option.map_map]
  cases cs[i]? with
  | none => rfl
  | some c => exact congrArg some (hblock i c)

/-- **Bags are read back.** A block of a known kind, or with a name that is not one, is read back
from its bag with its words of style settled and all else unchanged; a block that was read is read
back as it is, and so reading and writing components once more changes nothing. -/
theorem ofBag_toBag :
    (∀ (fresh : FreshIds) (c : Content), (∀ k : Kind, c ≠ .unknown k.name) →
      Content.ofBag fresh c.typeName c.toBag = c.settled) ∧
    (∀ (fresh again : FreshIds) (typeName : String) (b : Bag),
      Content.ofBag again (Content.ofBag fresh typeName b).typeName
        (Content.ofBag fresh typeName b).toBag = Content.ofBag fresh typeName b) ∧
    ∀ (fresh again : Nat → FreshIds) (cs : List Component),
      (Document.ofComponents again (Document.ofComponents fresh cs).toComponents).toComponents =
        (Document.ofComponents fresh cs).toComponents := by
  refine ⟨fun fresh c h => Content.ofBag_toBag_eq_settled fresh h, Content.ofBag_toBag_ofBag, ?_⟩
  intro fresh again cs
  rw [Document.ofComponents_toComponents]

theorem ofBag_toBag_blank_color :
    Content.ofBag (fun _ => default) "header"
        (Content.header { TextBlock.heading with color := " ", fontWeight := " 700 " }).toBag =
      .header { TextBlock.heading with fontWeight := "700" } := by
  have hread := ofBag_toBag.1 (fun _ => default)
    (.header { TextBlock.heading with color := " ", fontWeight := " 700 " }) (by intro k; nofun)
  have hsettled : (Content.header
      { TextBlock.heading with color := " ", fontWeight := " 700 " }).settled =
      .header { TextBlock.heading with fontWeight := "700" } := by decide +kernel
  rw [← hsettled, ← hread]
  rfl

end MailBlocks
