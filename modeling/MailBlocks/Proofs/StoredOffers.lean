import MailBlocks.Offer.Additional
import MailBlocks.Proofs.BracketedText

/-!
# Stored lists of additional offers

The list of additional offers is read by a decoder of its own, which knows the shape that it wants.
What that decoder reads, the reader of values reads as the same list: a decoder of a shape finds
nothing in a text that is not there, and leaves nothing out.

* `Decoder.Mirrors`: a decoder that reads what the reader of values reads.
* `AdditionalOffer.stored_of_decode`: every stored offer of a list that is read is read.
* `AdditionalOffer.eq_of_stores`: a text stores one list.
-/

namespace MailBlocks.Json

variable {α β : Type}

/-! ## Decoders and values -/

/-- Nothing is read where another shape is met. -/
theorem mismatch_ne_ok (expected : String) (s : List Char) (a : α) :
    mismatch expected s ≠ .ok a := by
  unfold mismatch
  split
  -- a word, a number or a string is read to its end and refused
  case h_1 | h_2 | h_3 | h_4 | h_5 =>
    refine bind_ne_ok ?_ _ a
    nofun
  case h_6 | h_7 | h_8 => nofun
  case h_9 =>
    split
    · refine bind_ne_ok ?_ _ a
      nofun
    · nofun

/-- Items are read by another reader if each of them is. -/
theorem itemsFrom_map {item : Reader α} {other : Reader β} {f : α → β}
    (h : ∀ s a r, item s = .ok (a, r) → other s = .ok (f a, r)) {most : Nat} {s r : List Char}
    {as : List α} (hs : itemsFrom item most s = .ok (as, r)) :
    itemsFrom other most s = .ok (as.map f, r) := by
  induction most generalizing s as with
  | zero => cases hs
  | succ most ih =>
    obtain ⟨⟨a, t⟩, ha, hs⟩ := bind_eq_ok hs
    rw [itemsFrom, h s a t ha]
    simp only [bind, Except.bind] at hs ⊢
    split at hs
    · cases hs
      rfl
    · split at hs
      · cases hs
      · obtain ⟨⟨bs, w⟩, hbs, hs⟩ := bind_eq_ok hs
        obtain ⟨rfl, rfl⟩ := Prod.mk.inj (Except.ok.inj hs)
        rw [ih hbs]
        rfl
    · cases hs
    · cases hs

theorem items_map {item : Reader α} {other : Reader β} {f : α → β}
    (h : ∀ s a r, item s = .ok (a, r) → other s = .ok (f a, r)) {s r : List Char} {as : List α}
    (hs : items item s = .ok (as, r)) : items other s = .ok (as.map f, r) := by
  unfold items at hs ⊢
  split at hs
  · cases hs
    rfl
  · cases hs
  · exact itemsFrom_map h hs

namespace Decoder

/-- **A decoder that reads what is there**: where it reads something, the reader of values reads its
value, and both leave the same rest. -/
def Mirrors (d : Decoder α) (toValue : α → Value) : Prop :=
  ∀ levels s a r, d.ofText levels s = .ok (.ok a, r) → Json.value levels s = .ok (toValue a, r)

theorem mirrors_map : map.Mirrors .object := by
  intro levels s ms r h
  unfold map at h
  unfold Json.value
  dsimp only at h
  split at h
  case h_1 t hbrace =>
    rw [hbrace]
    cases levels with
    | zero => cases h
    | succ levels =>
      obtain ⟨⟨members, w⟩, hmembers, hw⟩ := map_eq_ok h
      cases hw
      simp only [hmembers]
      rfl
  case h_2 => exact absurd h (mismatch_ne_ok _ _ _)

theorem Mirrors.sequence {d : Decoder α} {toValue : α → Value} (hd : d.Mirrors toValue) :
    d.sequence.Mirrors fun as => .array (as.map toValue) := by
  intro levels s as r h
  unfold Decoder.sequence at h
  unfold Json.value
  dsimp only at h
  split at h
  case h_1 t hbracket =>
    rw [hbracket]
    cases levels with
    | zero => cases h
    | succ levels =>
      obtain ⟨⟨read, w⟩, hread, hw⟩ := map_eq_ok h
      cases hw
      have hvalues : items (Json.value levels) t = .ok (read.map toValue, w) := by
        refine items_map ?_ hread
        intro u a w hplaced
        obtain ⟨⟨outcome, w'⟩, hread, hplaced⟩ := bind_eq_ok hplaced
        cases outcome with
        | error c => cases hplaced
        | ok b =>
          obtain ⟨rfl, rfl⟩ := Prod.mk.inj (Except.ok.inj hplaced)
          exact hd levels u b w' hread
      simp only [hvalues]
      rfl
  case h_2 => exact absurd h (mismatch_ne_ok _ _ _)

/-- A whole text that a mirroring decoder reads is the text of a value. -/
theorem Mirrors.parse {d : Decoder α} {toValue : α → Value} (hd : d.Mirrors toValue)
    {text : String} {a : α} (h : d.parse text = .ok a) : Json.parse text = .ok (toValue a) := by
  obtain ⟨r, hread, hend⟩ := parse_eq_ok_iff.1 h
  refine parse_eq_ok_iff.2 ⟨r, ?_, hend⟩
  exact congrArg (Except.map _) (hd _ _ _ _ hread)

end Decoder

end MailBlocks.Json

namespace MailBlocks.AdditionalOffer

open Json

/-- **A text stores some offers**, given by the members of their objects: a blank text none, and any
other text an array of them. -/
def Stores (stored : String) (entries : List (List (String × Value))) : Prop :=
  if Text.blank stored then entries = [] else Json.parse stored = .ok (.array (entries.map .object))

variable {fresh : FreshIds} {stored : String} {entries : List (List (String × Value))}

/-- What the decoder of lists reads is what the text stores. -/
theorem stores_of_parse (hblank : ¬ Text.blank stored)
    (h : listDecoder.parse stored = .ok entries) : Stores stored entries := by
  have hlist : listDecoder.Mirrors fun entries => .array (entries.map .object) :=
    Decoder.mirrors_map.sequence
  rw [Stores, if_neg hblank]
  exact hlist.parse h

theorem decode_of_parse (hblank : ¬ Text.blank stored)
    (h : listDecoder.parse stored = .ok entries) :
    decode fresh stored = .ok (entries.mapIdx fun i members => ofMembers (fresh i) members) := by
  rw [decode, if_neg hblank, h]
  rfl

/-- **No stored offer is dropped** from a list that is read: each becomes an offer, in their
order. -/
theorem stored_of_decode {offers : List AdditionalOffer} (h : decode fresh stored = .ok offers) :
    ∃ entries, Stores stored entries ∧
      offers = entries.mapIdx fun i members => ofMembers (fresh i) members := by
  unfold decode at h
  split at h
  case isTrue hblank =>
    obtain rfl := Except.ok.inj h
    refine ⟨[], ?_, rfl⟩
    rw [Stores, if_pos hblank]
  case isFalse hblank =>
    obtain ⟨entries, hentries, hoffers⟩ := map_eq_ok h
    exact ⟨entries, stores_of_parse hblank hentries, hoffers.symm⟩

/-- A text stores one list of offers. -/
theorem eq_of_stores {others : List (List (String × Value))} (h : Stores stored entries)
    (hothers : Stores stored others) : entries = others := by
  unfold Stores at h hothers
  split at h
  case isTrue hblank =>
    rw [if_pos hblank] at hothers
    rw [h, hothers]
  case isFalse hblank =>
    rw [if_neg hblank, h] at hothers
    have hmap := Value.array.inj (Except.ok.inj hothers)
    exact (List.map_inj_right fun _ _ => Value.object.inj).1 hmap

end MailBlocks.AdditionalOffer
