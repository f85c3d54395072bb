import MailBlocks.Attribute.Slot

/-!
# Text fields in bags

A text field of a block stands under a key of its own in the block's bag, as it is. The other slots
of the block's table leave it alone.

* `Slots.get_read`: the field that is read.
* `Slots.get?_write_of_keeps`: the text that is written.
* `Slots.get?_or_get?_write`: both together.
-/

namespace MailBlocks

variable {α : Type}

/-- **A slot with a text field in view**: if it has the key, it is the slot of that field, and
otherwise it leaves the field alone. -/
structure Slot.Keeps (key : String) (get : α → String) (s : Slot α) : Prop where
  load : ∀ a text, get (s.load a text) = if s.key = key then text else get a
  store : s.key = key → s.store = get

theorem Slot.Keeps.get_readFrom {key : String} {get : α → String} {s : Slot α}
    (hs : s.Keeps key get) (b : Bag) (a : α) :
    get (s.readFrom b a) = if s.key = key then (b.get? key).getD (get a) else get a := by
  unfold Slot.readFrom
  by_cases hk : s.key = key
  · rw [if_pos hk, ← hk]
    cases htext : b.get? s.key with
    | none => rfl
    | some text =>
      change get (s.load a text) = text
      rw [hs.load, if_pos hk]
  · rw [if_neg hk]
    split
    · rw [hs.load, if_neg hk]
    · rfl

theorem Slot.keeps_self {key : String} {get : α → String} {s : Slot α} (hk : s.key = key)
    (hload : ∀ a text, get (s.load a text) = text) (hstore : s.store = get) : s.Keeps key get :=
  ⟨fun a text => by rw [if_pos hk, hload], fun _ => hstore⟩

theorem Slot.keeps_of_ne {key : String} {get : α → String} {s : Slot α} (hk : s.key ≠ key)
    (hload : ∀ a text, get (s.load a text) = get a) : s.Keeps key get :=
  ⟨fun a text => by rw [if_neg hk, hload], fun h => absurd h hk⟩

namespace Slots

variable {slots : Slots α} {key : String} {get : α → String}

/-- **The field that is read** is the text under its key, or that of the start value. -/
theorem get_read (h : ∀ s ∈ slots, s.Keeps key get) (hkey : ∃ s ∈ slots, s.key = key) (b : Bag)
    (start : α) : get (slots.read b start) = (b.get? key).getD (get start) := by
  cases htext : b.get? key with
  | none =>
    clear hkey
    unfold read
    induction slots generalizing start with
    | nil => rfl
    | cons s ss ih =>
      obtain ⟨hs, hss⟩ := List.forall_mem_cons.1 h
      have hstep : get (s.readFrom b start) = get start := by
        rw [hs.get_readFrom, htext, Option.getD_none, ite_self]
      rw [List.foldl_cons, ih hss, Option.getD_none, Option.getD_none, hstep]
  | some text =>
    -- the text is in the field already, or its slot is still to come
    suffices hread : ∀ (ss : Slots α) (a : α), (∀ s ∈ ss, s.Keeps key get) →
        (get a = text ∨ ∃ s ∈ ss, s.key = key) → get (ss.read b a) = text from
      hread slots start h (.inr hkey)
    intro ss
    unfold read
    induction ss with
    | nil =>
      intro a _ ha
      simpa using ha
    | cons s ss ih =>
      intro a hss ha
      obtain ⟨hs, hss⟩ := List.forall_mem_cons.1 hss
      have hstep := hs.get_readFrom b a
      refine ih (s.readFrom b a) hss ?_
      by_cases hk : s.key = key
      · rw [if_pos hk, htext, Option.getD_some] at hstep
        exact .inl hstep
      · rw [if_neg hk] at hstep
        rw [hstep]
        refine ha.imp_right ?_
        rintro ⟨t, ht, htk⟩
        rcases List.mem_cons.1 ht with rfl | ht
        · exact absurd htk hk
        · exact ⟨t, ht, htk⟩

/-- **The field that is written** stands under its key. -/
theorem get?_write_of_keeps (h : ∀ s ∈ slots, s.Keeps key get) (hkey : ∃ s ∈ slots, s.key = key)
    (a : α) : (slots.write a).get? key = some (get a) := by
  suffices hwrite : ∀ (ss : Slots α) (b : Bag), (∀ s ∈ ss, s.Keeps key get) →
      (b.get? key = some (get a) ∨ ∃ s ∈ ss, s.key = key) →
      (ss.writeOver b a).get? key = some (get a) from hwrite slots ∅ h (.inr hkey)
  intro ss
  unfold writeOver
  induction ss with
  | nil =>
    intro b _ hb
    simpa using hb
  | cons s ss ih =>
    intro b hss hb
    obtain ⟨hs, hss⟩ := List.forall_mem_cons.1 hss
    refine ih (b.insert s.key (s.store a)) hss ?_
    by_cases hk : s.key = key
    · rw [← hk, Bag.get?_insert_self, hs.store hk]
      exact .inl rfl
    · rw [Bag.get?_insert_of_ne _ _ hk]
      refine hb.imp_right ?_
      rintro ⟨t, ht, htk⟩
      rcases List.mem_cons.1 ht with rfl | ht
      · exact absurd htk hk
      · exact ⟨t, ht, htk⟩

/-- What was written under a key is the text of a slot with that key. -/
theorem exists_of_get?_write {a : α} {text : String} (h : (slots.write a).get? key = some text) :
    ∃ s ∈ slots, s.key = key ∧ s.store a = text := by
  suffices hwrite : ∀ (ss : Slots α) (b : Bag), (ss.writeOver b a).get? key = some text →
      b.get? key = some text ∨ ∃ s ∈ ss, s.key = key ∧ s.store a = text by
    rcases hwrite slots ∅ h with hempty | hslot
    · cases hempty
    · exact hslot
  intro ss
  unfold writeOver
  induction ss with
  | nil => exact fun b hb => .inl hb
  | cons s ss ih =>
    intro b hb
    rcases ih (b.insert s.key (s.store a)) hb with hput | ⟨t, ht, htext⟩
    · rw [Bag.get?_insert] at hput
      split at hput
      · next hkey => exact .inr ⟨s, List.mem_cons_self, hkey, Option.some.inj hput⟩
      · exact .inl hput
    · exact .inr ⟨t, List.mem_cons_of_mem _ ht, htext⟩

/-- Exactly the slots under a key are those of a text field, and there is one. -/
def HasText (slots : Slots α) (key : String) (get : α → String) : Prop :=
  (∀ s ∈ slots, s.Keeps key get) ∧ ∃ s ∈ slots, s.key = key

/-- **The field that is read** is the text under its key, or that of what was written for the start
value. -/
theorem get?_or_get?_write {written : Slots α} (h : HasText slots key get)
    (hw : HasText written key get) (b : Bag) (start : α) :
    (b.get? key).or ((written.write start).get? key) = some (get (slots.read b start)) := by
  rw [get_read h.1 h.2, get?_write_of_keeps hw.1 hw.2]
  cases b.get? key <;> rfl

end Slots

end MailBlocks
