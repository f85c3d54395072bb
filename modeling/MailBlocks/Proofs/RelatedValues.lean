import Mathlib.Data.List.Forall2
import Mathlib.Logic.Relator
import MailBlocks.Proofs.CanonicalText

/-!
# Values that differ in places

Two values may be the same but for what stands under one key of an object or at some places of an
array, where one is related to the other. A decoder that reads what is related as something related
reads such values so too, whatever else they hold.

* `Value.DifferAt`, `Value.DifferIn`: objects and arrays that are the same but for related parts.
* `Keyed.Matches.ofList`: members match in canonical order if they match as they are written.
* `Decoder.Follows`: decoders that read related values as related things.
* `Record.follows`: records follow if their fields do.
-/

namespace MailBlocks

/-! ## Matching pairs -/

namespace Keyed

variable {α β : Type} {R : String → α → β → Prop} {as : List (String × α)} {bs : List (String × β)}

/-- **Lists of pairs that match**: they have the same keys in the same order, and related values. -/
def Matches (R : String → α → β → Prop) : List (String × α) → List (String × β) → Prop :=
  List.Forall₂ fun a b => a.1 = b.1 ∧ R a.1 a.2 b.2

theorem Matches.insert (h : Matches R as bs) {key : String} {a : α} {b : β} (hab : R key a b) :
    Matches R (insert key a as) (insert key b bs) := by
  induction h with
  | nil => exact .cons ⟨rfl, hab⟩ .nil
  | @cons x y xs ys hxy htail ih =>
    obtain ⟨k, v⟩ := x
    obtain ⟨_, w⟩ := y
    obtain ⟨rfl, hvw⟩ := hxy
    -- the place depends on the keys alone
    unfold Keyed.insert
    split
    · exact .cons ⟨rfl, hab⟩ (.cons ⟨rfl, hvw⟩ htail)
    · split
      · exact .cons ⟨rfl, hab⟩ htail
      · exact .cons ⟨rfl, hvw⟩ ih

/-- **Pairs that match do so in key order**, also where keys are repeated. -/
theorem Matches.ofList (h : Matches R as bs) : Matches R (ofList as) (ofList bs) := by
  -- over the pairs that are already put
  suffices hs : ∀ xs ys, Matches R xs ys →
      Matches R (as.foldl (fun entries p => Keyed.insert p.1 p.2 entries) xs)
        (bs.foldl (fun entries p => Keyed.insert p.1 p.2 entries) ys) from hs [] [] .nil
  induction h with
  | nil => exact fun _ _ hxs => hxs
  | @cons a b _ _ hab _ ih =>
    intro xs ys hxs
    obtain ⟨hkey, hvalue⟩ := hab
    rw [List.foldl_cons, List.foldl_cons, ← hkey]
    exact ih _ _ (hxs.insert hvalue)

/-- A look-up finds related values, or none in either list. -/
theorem Matches.get?_cases (h : Matches R as bs) (key : String) :
    (get? key as = none ∧ get? key bs = none) ∨
      ∃ a b, get? key as = some a ∧ get? key bs = some b ∧ R key a b := by
  induction h with
  | nil => exact .inl ⟨rfl, rfl⟩
  | @cons x y _ _ hxy _ ih =>
    obtain ⟨k, v⟩ := x
    obtain ⟨_, w⟩ := y
    obtain ⟨rfl, hvw⟩ := hxy
    unfold get?
    by_cases hkey : k = key
    · subst hkey
      exact .inr ⟨v, w, if_pos rfl, if_pos rfl, hvw⟩
    · rw [if_neg hkey, if_neg hkey]
      exact ih

end Keyed

namespace Json

/-! ## Related values -/

/-- **Objects that differ under one key at most**, where their values are related. -/
inductive Value.DifferAt (key : String) (R : Value → Value → Prop) : Value → Value → Prop
  | object {ms ns : List (String × Value)}
      (h : Keyed.Matches (fun k v w => v = w ∨ k = key ∧ R v w) ms ns) :
      DifferAt key R (.object ms) (.object ns)

/-- **Arrays that differ at some places at most**, where their items are related. -/
inductive Value.DifferIn (R : Value → Value → Prop) : Value → Value → Prop
  | array {vs ws : List Value} (h : List.Forall₂ (fun v w => v = w ∨ R v w) vs ws) :
      DifferIn R (.array vs) (.array ws)

/-- The members of matching objects in canonical order. -/
theorem Value.matches_sortedMembers {R : String → Value → Value → Prop}
    {ms ns : List (String × Value)} (h : Keyed.Matches R ms ns) :
    Keyed.Matches (fun k x y => ∃ v w, R k v w ∧ x = v.sorted ∧ y = w.sorted)
      (Keyed.ofList (Value.sortedMembers ms)) (Keyed.ofList (Value.sortedMembers ns)) := by
  refine Keyed.Matches.ofList ?_
  rw [Value.sortedMembers_eq_map, Value.sortedMembers_eq_map]
  refine List.forall₂_map_left_iff.2 (List.forall₂_map_right_iff.2 (h.imp fun m n hmn => ?_))
  exact ⟨hmn.1, m.2, n.2, hmn.2, rfl, rfl⟩

/-! ## Decoders that follow -/

namespace Decoder

variable {α β : Type} {d : Decoder α} {R : Value → Value → Prop} {S : α → α → Prop}

/-- **A decoder that follows a relation**: of two related values, it reads the second if it reads
the first, and what it reads is related. -/
def Follows (d : Decoder α) (R : Value → Value → Prop) (S : α → α → Prop) : Prop :=
  ∀ v w a, R v w → d.ofValue v.sorted = .ok a → ∃ b, d.ofValue w.sorted = .ok b ∧ S a b

theorem follows_eq (d : Decoder α) : d.Follows Eq Eq := by
  rintro v _ a rfl ha
  exact ⟨a, ha, rfl⟩

theorem Follows.of_imp (h : d.Follows R S) {R' : Value → Value → Prop}
    (hR : ∀ v w, R' v w → R v w) : d.Follows R' S :=
  fun v w a hvw => h v w a (hR v w hvw)

/-- Values that are the same are read as the same. -/
theorem Follows.orEq (h : d.Follows R S) (hS : ∀ a, S a a) :
    d.Follows (fun v w => v = w ∨ R v w) S := by
  rintro v w a (rfl | hvw) ha
  · exact ⟨a, ha, hS a⟩
  · exact h v w a hvw ha

/-- What is read related stays so after functions that keep the relation. -/
theorem Follows.as (h : d.Follows R S) {f : α → β} {T : β → β → Prop}
    (hf : ∀ a b, S a b → T (f a) (f b)) : (d.as f).Follows R T := by
  intro v w c hvw hc
  obtain ⟨a, ha, hc⟩ := bind_eq_ok hc
  obtain ⟨b, hb, hab⟩ := h v w a hvw ha
  obtain rfl := Except.ok.inj hc
  refine ⟨f b, ?_, hf a b hab⟩
  change (d.ofValue w.sorted).bind _ = _
  rw [hb]
  rfl

/-- Items one by one. -/
theorem Follows.mapM (h : d.Follows R S) {vs ws : List Value} (hvs : List.Forall₂ R vs ws)
    {as : List α} (has : (vs.map Value.sorted).mapM d.ofValue = .ok as) :
    ∃ bs, (ws.map Value.sorted).mapM d.ofValue = .ok bs ∧ List.Forall₂ S as bs := by
  induction hvs generalizing as with
  | nil =>
    cases has
    exact ⟨[], rfl, .nil⟩
  | @cons v w vs ws hvw _ ih =>
    rw [List.map_cons, List.mapM_cons] at has
    obtain ⟨a, ha, has⟩ := bind_eq_ok has
    obtain ⟨as, htail, has⟩ := bind_eq_ok has
    obtain rfl := Except.ok.inj has
    obtain ⟨b, hb, hab⟩ := h v w a hvw ha
    obtain ⟨bs, hbs, habs⟩ := ih htail
    refine ⟨b :: bs, ?_, .cons hab habs⟩
    rw [List.map_cons, List.mapM_cons, hb, hbs]
    rfl

/-- **Sequences follow** if their items do. -/
theorem Follows.sequence (h : d.Follows R S) (hS : ∀ a, S a a) :
    d.sequence.Follows (Value.DifferIn R) (List.Forall₂ S) := by
  rintro _ _ as ⟨hvs⟩ has
  rw [Value.sorted, Value.sortedItems_eq_map] at has ⊢
  exact (h.orEq hS).mapM hvs has

end Decoder

section

open scoped Relator

variable {α β : Type} {S : α → α → Prop} {R : Value → Value → Prop}

/-! ## Records that follow -/

/-- A field under another key than the one with related values is read as the same. -/
theorem Field.follows_of_ne {name key : String} {required : Bool} {d : Decoder β} {set : β → α → α}
    (hne : name ≠ key) (hset : ∀ x a b, S a b → S (set x a) (set x b)) :
    (Field.of name required d set).change.Follows (fun v w => v = w ∨ name = key ∧ R v w)
      (S ⇒ S) := by
  have hsame : d.Follows (fun v w => v = w ∨ name = key ∧ R v w) Eq :=
    d.follows_eq.of_imp fun _ _ h => h.resolve_right fun hkey => hne hkey.1
  refine hsame.as ?_
  rintro x _ rfl a b hab
  exact hset x a b hab

/-- The field under the key with related values. -/
theorem Field.follows_of_follows {key : String} {required : Bool} {d : Decoder β}
    {set : β → α → α} {T : β → β → Prop} (hd : d.Follows R T) (hT : ∀ x, T x x)
    (hset : ∀ x y a b, T x y → S a b → S (set x a) (set y b)) :
    (Field.of key required d set).change.Follows (fun v w => v = w ∨ key = key ∧ R v w)
      (S ⇒ S) := by
  have hrelated : d.Follows (fun v w => v = w ∨ key = key ∧ R v w) T :=
    (hd.orEq hT).of_imp fun _ _ h => h.imp_right And.right
  exact hrelated.as fun x y hxy a b hab => hset x y a b hxy hab

namespace Record

variable {r : Record α}

/-- A complete record is the record that was read. -/
theorem complete_eq_ok {seen : List String} {a b : α} (h : r.complete seen a = .ok b) (c : α) :
    a = b ∧ r.complete seen c = .ok c := by
  unfold complete at h ⊢
  split at h
  · cases h
  · exact ⟨Except.ok.inj h, rfl⟩

/-- **Members are read one by one**, each of which keeps the relation. -/
theorem membersOfValues_follows {R : String → Value → Value → Prop}
    (hfields : ∀ f ∈ r.fields, f.change.Follows (R f.key) (S ⇒ S)) {ms ns : List (String × Value)}
    (h : Keyed.Matches (fun k x y => ∃ v w, R k v w ∧ x = v.sorted ∧ y = w.sorted) ms ns)
    {seen : List String} {a b c : α} (hab : S a b) (hread : r.membersOfValues seen a ms = .ok c) :
    ∃ d, r.membersOfValues seen b ns = .ok d ∧ S c d := by
  induction h generalizing seen a b with
  | nil =>
    obtain ⟨rfl, hb⟩ := complete_eq_ok hread b
    exact ⟨b, hb, hab⟩
  | @cons m n ms ns hmn _ ih =>
    obtain ⟨key, _⟩ := m
    obtain ⟨_, _⟩ := n
    obtain ⟨rfl, v, w, hvw, rfl, rfl⟩ := hmn
    rw [membersOfValues] at hread ⊢
    cases hfield : r.field? key with
    | none =>
      rw [hfield] at hread
      exact ih hab hread
    | some f =>
      rw [hfield] at hread
      obtain ⟨g, hg, hread⟩ := bind_eq_ok hread
      have hkey : f.key = key := by simpa using List.find?_some hfield
      subst hkey
      obtain ⟨g', hg', hgg⟩ := hfields f (List.mem_of_find?_eq_some hfield) v w g hvw hg
      obtain ⟨d, hd, hcd⟩ := ih (hgg hab) hread
      refine ⟨d, ?_, hcd⟩
      simp only [hg', bind, Except.bind]
      exact hd

/-- **Records follow** if all fields keep the relation, and the one under the key for related
values too. -/
theorem follows {key : String}
    (hfields : ∀ f ∈ r.fields, f.change.Follows (fun v w => v = w ∨ f.key = key ∧ R v w) (S ⇒ S))
    (hstart : S r.start r.start) : r.decoder.Follows (Value.DifferAt key R) S := by
  rintro _ _ c ⟨hmembers⟩ hread
  exact membersOfValues_follows hfields (Value.matches_sortedMembers hmembers) hstart hread

end Record

end

end Json

end MailBlocks
