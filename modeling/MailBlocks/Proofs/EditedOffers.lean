import Mathlib.Logic.Function.Basic
import MailBlocks.Proofs.AddressedOffers
import MailBlocks.Proofs.BagRoundTrip

/-!
# Additional offers under edit

Additional offers are edited by identity, and the list keeps them in display order. As long as every
offer that is pushed has an identity of its own, the list is no more and no less than an ordered map
from identities to offers: places move when an offer is taken out, and no other offer does.

* `OfferMap.Step`: what an edit does to an ordered map.
* `AdditionalOffer.changes_of_modifyLine?`: what a change of a line leaves alone.
* `SalesOffer.step_edit`: an edit of the list is an edit of the map.
* `SalesOffer.run_editAll`: so is a run of edits.
* `SalesOffer.editAll_refines`: what holds along a run, and what is read back from a bag.
-/

namespace MailBlocks

/-! ## Edits -/

/-- **An edit** of the additional offers, or a question about them. -/
inductive OfferEdit where
  | push (a : AdditionalOffer)
  | remove (id : OfferId)
  | modifyLine (id : OfferId) (name : String) (f : OfferLine → OfferLine)
  | position (id : OfferId)

/-- The identity that an edit pushes, if it pushes one. -/
def OfferEdit.pushed? : OfferEdit → Option OfferId
  | push a => some a.id
  | _ => none

/-- **What an edit answers**: the identity that was pushed, the offer that was taken out, whether
there was a line to change, or a place. -/
inductive OfferAnswer where
  | pushed (id : OfferId)
  | removed (a : Option AdditionalOffer)
  | modified (found : Bool)
  | position (place : Option Nat)
  deriving DecidableEq, Repr

namespace SalesOffer

/-- The identities of the additional offers, in display order. -/
def ids (o : SalesOffer) : List OfferId :=
  o.additional.map (·.id)

/-- Makes an edit. What cannot be made changes nothing. -/
def edit (o : SalesOffer) : OfferEdit → OfferAnswer × SalesOffer
  | .push a => (.pushed a.id, o.push a)
  | .remove id =>
    match o.remove? id with
    | some (a, rest) => (.removed (some a), rest)
    | none => (.removed none, o)
  | .modifyLine id name f =>
    match o.modifyLine? id name f with
    | some changed => (.modified true, changed)
    | none => (.modified false, o)
  | .position id => (.position (o.position? id), o)

/-- Makes some edits one after the other. -/
def editAll (o : SalesOffer) : List OfferEdit → List OfferAnswer × SalesOffer
  | [] => ([], o)
  | e :: es =>
    let (answer, next) := o.edit e
    let (answers, last) := next.editAll es
    (answer :: answers, last)

/-- **Edits that push new identities only**: each is one that no offer has when it is pushed. -/
def PushesNew (o : SalesOffer) : List OfferEdit → Prop
  | [] => True
  | e :: es => (∀ id ∈ e.pushed?, id ∉ o.ids) ∧ PushesNew (o.edit e).2 es

instance decidablePushesNew (o : SalesOffer) : (es : List OfferEdit) → Decidable (o.PushesNew es)
  | [] => isTrue trivial
  | e :: es =>
    have := decidablePushesNew (o.edit e).2 es
    inferInstanceAs (Decidable ((∀ id ∈ e.pushed?, id ∉ o.ids) ∧ PushesNew (o.edit e).2 es))

end SalesOffer

/-! ## Ordered maps -/

/-- **An ordered map** from identities to offers: the identities in their order, and what is held
under them. -/
structure OfferMap where
  order : List OfferId
  offer? : OfferId → Option AdditionalOffer
  nodup_order : order.Nodup
  isSome_offer?_iff : ∀ id, (offer? id).isSome ↔ id ∈ order
  id_of_offer? : ∀ {id a}, offer? id = some a → a.id = id

namespace AdditionalOffer

/-- The line with a name, if there is one. -/
def line? (a : AdditionalOffer) (name : String) : Option OfferLine :=
  (lineNames.zip a.lines).lookup name

/-- What is written of an offer besides its styles: its identity and its texts. -/
def written (a : AdditionalOffer) : OfferId × List String :=
  (a.id, a.lines.map (·.text))

/-- **One line is changed**: `b` is `a` but for the line called `name`, which `f` was applied to. -/
structure Changes (a b : AdditionalOffer) (name : String) (f : OfferLine → OfferLine) : Prop where
  named : name ∈ lineNames
  id : b.id = a.id
  line : ∀ other, b.line? other = if other = name then (a.line? other).map f else a.line? other

end AdditionalOffer

namespace OfferMap

/-- **What an edit does to an ordered map** and what it answers. -/
inductive Step (m next : OfferMap) : OfferEdit → OfferAnswer → Prop
  | push {a : AdditionalOffer} (absent : a.id ∉ m.order) (order : next.order = m.order ++ [a.id])
      (offers : next.offer? = Function.update m.offer? a.id (some a)) :
      Step m next (.push a) (.pushed a.id)
  | remove {id : OfferId} {a : AdditionalOffer} (held : m.offer? id = some a)
      (order : next.order = m.order.erase id)
      (offers : next.offer? = Function.update m.offer? id none) :
      Step m next (.remove id) (.removed (some a))
  | removeAbsent {id : OfferId} (absent : id ∉ m.order) (same : next = m) :
      Step m next (.remove id) (.removed none)
  | modifyLine {id : OfferId} {name : String} {f : OfferLine → OfferLine} {a b : AdditionalOffer}
      (held : m.offer? id = some a) (changes : a.Changes b name f) (order : next.order = m.order)
      (offers : next.offer? = Function.update m.offer? id (some b)) :
      Step m next (.modifyLine id name f) (.modified true)
  | modifyAbsent {id : OfferId} {name : String} {f : OfferLine → OfferLine}
      (absent : id ∉ m.order ∨ name ∉ AdditionalOffer.lineNames) (same : next = m) :
      Step m next (.modifyLine id name f) (.modified false)
  | position {id : OfferId} (same : next = m) :
      Step m next (.position id) (.position (m.order.idxOf? id))

/-- **A run of edits** of an ordered map, with the answers. -/
inductive Run : OfferMap → List OfferEdit → List OfferAnswer → OfferMap → Prop
  | nil {m : OfferMap} : Run m [] [] m
  | cons {m next last : OfferMap} {e : OfferEdit} {es : List OfferEdit} {answer : OfferAnswer}
      {answers : List OfferAnswer} (step : Step m next e answer) (rest : Run next es answers last) :
      Run m (e :: es) (answer :: answers) last

end OfferMap

/-! ## Changes of a line -/

namespace AdditionalOffer

theorem line?_eq (a : AdditionalOffer) (name : String) :
    a.line? name =
      if name = "separator" then some a.separator
      else if name = "offer" then some a.offer
      else if name = "details" then some a.details
      else if name = "disclaimer" then some a.disclaimer
      else none := by
  have hlookup : ∀ (key : String) (l : OfferLine) (rest : List (String × OfferLine)),
      ((key, l) :: rest).lookup name = if name = key then some l else rest.lookup name := by
    intro key l rest
    by_cases h : name = key
    · rw [h, List.lookup_cons_self, if_pos rfl]
    · rw [List.lookup_cons, beq_false_of_ne h, if_neg h]
  change ([("separator", a.separator), ("offer", a.offer), ("details", a.details),
    ("disclaimer", a.disclaimer)].lookup name) = _
  rw [hlookup, hlookup, hlookup, hlookup, List.lookup_nil]

/-- **A line that is found is changed**, and nothing else of the offer. -/
theorem changes_of_modifyLine? {a b : AdditionalOffer} {name : String} {f : OfferLine → OfferLine}
    (h : a.modifyLine? name f = some b) : a.Changes b name f := by
  unfold modifyLine? at h
  -- one case for each name, and one for all others
  split at h
  case h_5 => cases h
  all_goals
    obtain rfl := Option.some.inj h
    refine ⟨by decide, rfl, fun other => ?_⟩
    rw [line?_eq, line?_eq]
    split_ifs <;> simp_all

/-- No line has another name than the four. -/
theorem modifyLine?_eq_none_iff {a : AdditionalOffer} {name : String} {f : OfferLine → OfferLine} :
    a.modifyLine? name f = none ↔ name ∉ lineNames := by
  unfold modifyLine?
  split <;> simp_all [lineNames]

end AdditionalOffer

/-! ## Look-ups after an edit -/

section

variable {α β : Type} [DecidableEq β] {key : α → β} {l : List α}

/-- Taking out the first element with a key does not hide what is found under other keys. -/
theorem find?_eraseP_of_ne {k other : β} (h : other ≠ k) :
    (l.eraseP (key · == k)).find? (key · == other) = l.find? (key · == other) := by
  induction l with
  | nil => rfl
  | cons x l ih =>
    by_cases hx : key x = k
    · have hother : (key x == other) = false := by
        rw [hx, beq_eq_false_iff_ne]
        exact h.symm
      rw [List.eraseP_cons_of_pos (by simpa using hx), List.find?_cons, hother]
    · rw [List.eraseP_cons_of_neg (by simpa using hx), List.find?_cons, List.find?_cons, ih]

/-- Putting an element in place of the first one with its key is seen under that key only. -/
theorem find?_set_findIdx? {i : Nat} {y : α} (hi : l.findIdx? (key · == key y) = some i)
    (other : β) : (l.set i y).find? (key · == other) =
      if other = key y then some y else l.find? (key · == other) := by
  induction l generalizing i with
  | nil => cases hi
  | cons x l ih =>
    rw [List.findIdx?_cons] at hi
    split at hi
    case isTrue hx =>
      obtain rfl := Option.some.inj hi
      rw [List.set_cons_zero, List.find?_cons, List.find?_cons, beq_iff_eq.1 hx]
      by_cases h : other = key y
      · rw [if_pos h, beq_iff_eq.2 h.symm]
      · rw [if_neg h, beq_false_of_ne (Ne.symm h)]
    case isFalse hx =>
      obtain ⟨j, hj, rfl⟩ := Option.map_eq_some_iff.1 hi
      rw [List.set_cons_succ, List.find?_cons, List.find?_cons, ih hj]
      by_cases h : other = key y
      · rw [h, Bool.not_eq_true] at *
        rw [hx, if_pos rfl]
      · rw [if_neg h, if_neg h]

end

namespace SalesOffer

variable {o : SalesOffer} {id : OfferId}

theorem find?_eq_none_iff : o.find? id = none ↔ id ∉ o.ids := by
  simp [find?, ids]

theorem isSome_find?_iff : (o.find? id).isSome ↔ id ∈ o.ids := by
  rw [← not_iff_not, ← find?_eq_none_iff, Option.not_isSome_iff_eq_none]

theorem id_of_find? {a : AdditionalOffer} (h : o.find? id = some a) : a.id = id := by
  simpa using List.find?_some h

/-- A place is the rank of the identity. -/
theorem position?_eq_idxOf? : o.position? id = o.ids.idxOf? id := by
  rw [position?, ids, List.idxOf?, List.findIdx?_map]
  rfl

/-- **The list of additional offers as an ordered map**, if their identities are distinct. -/
def offerMap (o : SalesOffer) (h : o.ids.Nodup) : OfferMap where
  order := o.ids
  offer? := o.find?
  nodup_order := h
  isSome_offer?_iff _ := isSome_find?_iff
  id_of_offer? := id_of_find?

theorem ids_push (a : AdditionalOffer) : (o.push a).ids = o.ids ++ [a.id] := by
  simp [ids, push]

theorem find?_push {a : AdditionalOffer} (h : a.id ∉ o.ids) :
    (o.push a).find? = Function.update o.find? a.id (some a) := by
  funext other
  have happend : (o.push a).find? other = (o.find? other).or ([a].find? (·.id == other)) :=
    List.find?_append
  rw [happend]
  by_cases hother : other = a.id
  · subst hother
    rw [Function.update_self, find?_eq_none_iff.2 h, Option.none_or]
    simp
  · rw [Function.update_of_ne hother, List.find?_cons_of_neg (by simpa using Ne.symm hother),
      List.find?_nil, Option.or_none]

theorem ids_remove {a : AdditionalOffer} {rest : SalesOffer} (h : o.remove? id = some (a, rest)) :
    rest.ids = o.ids.erase id := by
  obtain ⟨b, -, hb⟩ := Option.map_eq_some_iff.1 h
  obtain ⟨-, rfl⟩ := Prod.mk.inj hb
  rw [ids, ids, List.erase_eq_eraseP', List.eraseP_map]
  rfl

theorem find?_remove (hdistinct : o.ids.Nodup) {a : AdditionalOffer} {rest : SalesOffer}
    (h : o.remove? id = some (a, rest)) :
    rest.find? = Function.update o.find? id none := by
  funext other
  by_cases hother : other = id
  · rw [hother, Function.update_self, find?_eq_none_iff, ids_remove h]
    exact hdistinct.not_mem_erase
  · rw [Function.update_of_ne hother]
    obtain ⟨b, -, hb⟩ := Option.map_eq_some_iff.1 h
    obtain ⟨-, rfl⟩ := Prod.mk.inj hb
    exact find?_eraseP_of_ne hother

/-- The list is what the map holds, in its order. -/
theorem map_some_additional (h : o.ids.Nodup) :
    o.additional.map some = o.ids.map o.find? := by
  rw [ids, List.map_map]
  refine List.map_congr_left fun a ha => ?_
  obtain ⟨i, hi, rfl⟩ := List.mem_iff_getElem.1 ha
  have hget := List.getElem?_eq_getElem hi
  have hposition := position?_id_iff.2 h i _ hget
  exact (find?_of_position? hposition hget).symm

/-- An offer that is found stands at the place of its identity. -/
theorem exists_position?_of_find? {a : AdditionalOffer} (h : o.find? id = some a) :
    ∃ i, o.position? id = some i ∧ o.additional[i]? = some a := by
  obtain ⟨hid, i, hi, ha, hfirst⟩ := List.find?_eq_some_iff_getElem.1 h
  refine ⟨i, position?_eq_some_iff.2 ⟨hi, ?_, fun j hj => ?_⟩, ?_⟩
  · rw [ha]
    exact beq_iff_eq.1 hid
  · simpa using hfirst j hj
  · rw [List.getElem?_eq_getElem hi, ha]

/-- A line is changed if both the offer and the line are there, and changes one offer. -/
theorem modifyLine?_of_find? {a : AdditionalOffer} (h : o.find? id = some a) (name : String)
    (f : OfferLine → OfferLine) :
    ∃ i, o.position? id = some i ∧ o.additional[i]? = some a ∧ o.modifyLine? id name f =
      (a.modifyLine? name f).map fun b => { o with additional := o.additional.set i b } := by
  obtain ⟨i, hi, ha⟩ := exists_position?_of_find? h
  exact ⟨i, hi, ha, modifyLine?_of_position? hi ha name f⟩

theorem modifyLine?_of_absent (h : id ∉ o.ids) (name : String) (f : OfferLine → OfferLine) :
    o.modifyLine? id name f = none := by
  have hposition : o.position? id = none := by
    rw [position?_eq_idxOf?, List.idxOf?_eq_none_iff]
    exact h
  rw [modifyLine?, hposition]
  rfl

section

variable {a b : AdditionalOffer} {i : Nat}

theorem ids_set (ha : o.additional[i]? = some a) (hb : b.id = a.id) :
    { o with additional := o.additional.set i b }.ids = o.ids := by
  have hplace : o.ids[i]? = some b.id := by
    rw [ids, List.getElem?_map, ha, hb]
    rfl
  obtain ⟨hi, hget⟩ := List.getElem?_eq_some_iff.1 hplace
  rw [ids, List.map_set, ← hget]
  exact List.set_getElem_self hi

theorem find?_set (hi : o.position? b.id = some i) :
    { o with additional := o.additional.set i b }.find? =
      Function.update o.find? b.id (some b) := by
  funext other
  have hset : { o with additional := o.additional.set i b }.find? other =
      if other = b.id then some b else o.find? other := find?_set_findIdx? hi other
  rw [hset, Function.update_apply]

end

/-! ## Edits of the list as edits of the map -/

theorem step_push (h : o.ids.Nodup) {a : AdditionalOffer} (habsent : a.id ∉ o.ids) :
    ∃ hnext : (o.push a).ids.Nodup,
      (o.offerMap h).Step ((o.push a).offerMap hnext) (.push a) (.pushed a.id) := by
  have hnext : (o.push a).ids.Nodup := by
    rw [ids_push, ← List.concat_eq_append]
    exact h.concat habsent
  exact ⟨hnext, .push habsent (ids_push a) (find?_push habsent)⟩

theorem step_remove (h : o.ids.Nodup) (id : OfferId) :
    ∃ hnext : (o.edit (.remove id)).2.ids.Nodup,
      (o.offerMap h).Step ((o.edit (.remove id)).2.offerMap hnext) (.remove id)
        (o.edit (.remove id)).1 := by
  cases hfind : o.find? id with
  | none =>
    have hedit : o.edit (.remove id) = (.removed none, o) := by
      rw [edit, remove?, hfind]
      rfl
    rw [hedit]
    exact ⟨h, .removeAbsent (find?_eq_none_iff.1 hfind) rfl⟩
  | some a =>
    obtain ⟨rest, hremove⟩ : ∃ rest, o.remove? id = some (a, rest) := by
      rw [remove?, hfind]
      exact ⟨_, rfl⟩
    have hedit : o.edit (.remove id) = (.removed (some a), rest) := by
      rw [edit, hremove]
    have hnext : rest.ids.Nodup := by
      rw [ids_remove hremove]
      exact h.erase id
    rw [hedit]
    exact ⟨hnext, .remove hfind (ids_remove hremove) (find?_remove h hremove)⟩

theorem step_modifyLine (h : o.ids.Nodup) (id : OfferId) (name : String)
    (f : OfferLine → OfferLine) :
    ∃ hnext : (o.edit (.modifyLine id name f)).2.ids.Nodup,
      (o.offerMap h).Step ((o.edit (.modifyLine id name f)).2.offerMap hnext)
        (.modifyLine id name f) (o.edit (.modifyLine id name f)).1 := by
  have hunchanged : o.modifyLine? id name f = none →
      o.edit (.modifyLine id name f) = (.modified false, o) := by
    intro hnone
    rw [edit, hnone]
  cases hfind : o.find? id with
  | none =>
    have habsent := find?_eq_none_iff.1 hfind
    rw [hunchanged (modifyLine?_of_absent habsent name f)]
    exact ⟨h, .modifyAbsent (.inl habsent) rfl⟩
  | some a =>
    obtain ⟨i, hi, ha, hmodify⟩ := modifyLine?_of_find? hfind name f
    cases hline : a.modifyLine? name f with
    | none =>
      rw [hline, Option.map_none] at hmodify
      rw [hunchanged hmodify]
      exact ⟨h, .modifyAbsent (.inr (AdditionalOffer.modifyLine?_eq_none_iff.1 hline)) rfl⟩
    | some b =>
      have hchanges := AdditionalOffer.changes_of_modifyLine? hline
      have hid : b.id = id := hchanges.id.trans (id_of_find? hfind)
      have hedit : o.edit (.modifyLine id name f) =
          (.modified true, { o with additional := o.additional.set i b }) := by
        rw [edit, hmodify, hline]
        rfl
      have hids := ids_set ha hchanges.id
      have hfound := find?_set (o := o) (hid ▸ hi)
      rw [hid] at hfound
      rw [hedit]
      exact ⟨hids ▸ h, .modifyLine hfind hchanges hids hfound⟩

theorem step_position (h : o.ids.Nodup) (id : OfferId) :
    (o.offerMap h).Step (o.offerMap h) (.position id) (.position (o.position? id)) := by
  rw [position?_eq_idxOf?]
  exact .position rfl

/-- **An edit of the list is an edit of the map**, and keeps identities distinct. -/
theorem step_edit (h : o.ids.Nodup) {e : OfferEdit} (hnew : ∀ id ∈ e.pushed?, id ∉ o.ids) :
    ∃ hnext : (o.edit e).2.ids.Nodup,
      (o.offerMap h).Step ((o.edit e).2.offerMap hnext) e (o.edit e).1 := by
  cases e with
  | push a => exact step_push h (hnew a.id rfl)
  | remove id => exact step_remove h id
  | modifyLine id name f => exact step_modifyLine h id name f
  | position id => exact ⟨h, step_position h id⟩

/-- **A run of edits of the list is a run of edits of the map**, and keeps identities distinct. -/
theorem run_editAll (h : o.ids.Nodup) {es : List OfferEdit} (hnew : o.PushesNew es) :
    ∃ hlast : (o.editAll es).2.ids.Nodup,
      (o.offerMap h).Run es (o.editAll es).1 ((o.editAll es).2.offerMap hlast) := by
  induction es generalizing o with
  | nil => exact ⟨h, .nil⟩
  | cons e es ih =>
    obtain ⟨hnext, hstep⟩ := step_edit h hnew.1
    obtain ⟨hlast, hrun⟩ := ih hnext hnew.2
    exact ⟨hlast, .cons hstep hrun⟩

/-! ## What edits leave alone -/

theorem remove?_others {a : AdditionalOffer} {rest : SalesOffer}
    (h : o.remove? id = some (a, rest)) : { rest with additional := o.additional } = o := by
  obtain ⟨b, -, hb⟩ := Option.map_eq_some_iff.1 h
  obtain ⟨-, rfl⟩ := Prod.mk.inj hb
  rfl

theorem modifyLine?_others {name : String} {f : OfferLine → OfferLine} {changed : SalesOffer}
    (h : o.modifyLine? id name f = some changed) :
    { changed with additional := o.additional } = o := by
  simp only [modifyLine?, Option.bind_eq_bind, Option.bind_eq_some_iff] at h
  obtain ⟨i, -, a, -, b, -, hchanged⟩ := h
  obtain rfl := Option.some.inj hchanged
  rfl

/-- An edit concerns additional offers only. -/
theorem edit_others (o : SalesOffer) (e : OfferEdit) :
    { (o.edit e).2 with additional := o.additional } = o := by
  cases e with
  | push a => rfl
  | position id => rfl
  | remove id =>
    rw [edit]
    split
    case h_1 hremove => exact remove?_others hremove
    case h_2 => rfl
  | modifyLine id name f =>
    rw [edit]
    split
    case h_1 hmodify => exact modifyLine?_others hmodify
    case h_2 => rfl

theorem editAll_others (o : SalesOffer) (es : List OfferEdit) :
    { (o.editAll es).2 with additional := o.additional } = o := by
  induction es generalizing o with
  | nil => rfl
  | cons e es ih =>
    have hnext := edit_others o e
    have hrest := ih (o.edit e).2
    rw [← hrest] at hnext
    exact hnext

/-! ## Edited offers in bags -/

/-- **Additional offers are read back** from a bag with their identities and texts, in their
order. -/
theorem exists_ofBag_toBag (o : SalesOffer) (fresh : FreshIds) :
    ∃ back, Content.ofBag fresh "sales_offer" (Content.salesOffer o).toBag = .salesOffer back ∧
      back.additional.map AdditionalOffer.written = o.additional.map AdditionalOffer.written := by
  have hread := Content.ofBag_toBag_eq_settled fresh (c := .salesOffer o) (by intro k; nofun)
  refine ⟨o.settled .new, hread, ?_⟩
  -- words of style are settled, and nothing else changes
  have hsettled : ∀ a : AdditionalOffer, a.settled.written = a.written := fun _ => rfl
  change (o.additional.map AdditionalOffer.settled).map _ = _
  rw [List.map_map]
  exact List.map_congr_left fun a _ => hsettled a

/-- **Editing by identity is editing an ordered map.** If the identities are distinct and only new
ones are pushed, each edit does to the list of additional offers what it does to the map from
identities to offers in their order, and answers the same; nothing else of the sales offer changes;
and what is there in the end is read back from a bag, with identities and texts. -/
theorem editAll_refines (o : SalesOffer) (es : List OfferEdit) (fresh : FreshIds)
    (h : o.ids.Nodup) (hnew : o.PushesNew es) :
    (∃ hlast : (o.editAll es).2.ids.Nodup,
      (o.offerMap h).Run es (o.editAll es).1 ((o.editAll es).2.offerMap hlast)) ∧
    (o.editAll es).2.additional.map some = (o.editAll es).2.ids.map (o.editAll es).2.find? ∧
    { (o.editAll es).2 with additional := o.additional } = o ∧
    ∃ back, Content.ofBag fresh "sales_offer" (Content.salesOffer (o.editAll es).2).toBag =
        .salesOffer back ∧
      back.additional.map AdditionalOffer.written =
        (o.editAll es).2.additional.map AdditionalOffer.written := by
  obtain ⟨hlast, hrun⟩ := run_editAll h hnew
  exact ⟨⟨hlast, hrun⟩, map_some_additional hlast, editAll_others o es,
    exists_ofBag_toBag _ fresh⟩

/-- Two offers are pushed and edited, with an identity and a name that lead nowhere. -/
def editing : List OfferEdit :=
  [.push (.new (drawnIds 1)), .push (.new (drawnIds 2)),
    .modifyLine (drawnIds 2) "offer" fun l => { l with text := "A" },
    .modifyLine (drawnIds 2) "price" fun l => l,
    .remove (drawnIds 1), .remove (drawnIds 1), .position (drawnIds 2)]

theorem editAll_refines_editing :
    SalesOffer.new.ids.Nodup ∧ SalesOffer.new.PushesNew editing ∧
      (SalesOffer.new.editAll editing).1 =
        [.pushed (drawnIds 1), .pushed (drawnIds 2), .modified true, .modified false,
          .removed (some (.new (drawnIds 1))), .removed none, .position (some 0)] ∧
      (SalesOffer.new.editAll editing).2.ids.Nodup := by
  have hdistinct : SalesOffer.new.ids.Nodup := by decide
  have hnew : SalesOffer.new.PushesNew editing := by decide +kernel
  obtain ⟨⟨hlast, -⟩, -⟩ := editAll_refines .new editing (fun _ => default) hdistinct hnew
  exact ⟨hdistinct, hnew, by decide +kernel, hlast⟩

end SalesOffer

end MailBlocks
