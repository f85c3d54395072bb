import MailBlocks.Json.Printer

/-!
# Attribute bags

A component travels as a bag of attributes: texts under distinct keys, kept in ascending key order,
so that bags with the same attributes are equal.

* `get?_insert`, `get?_erase`: what a look-up finds after a change.
* `ext_get?`: the look-ups determine the bag.
-/

namespace MailBlocks

/-- **A bag of attributes.** -/
structure Bag where
  entries : List (String × String)
  ascending : Keyed.Ascending entries
  deriving DecidableEq

namespace Bag

/-- The bag without attributes. -/
def empty : Bag := ⟨[], List.Pairwise.nil⟩

instance : EmptyCollection Bag := ⟨empty⟩

instance : Inhabited Bag := ⟨empty⟩

/-- The text under a key. -/
def get? (b : Bag) (key : String) : Option String :=
  Keyed.get? key b.entries

/-- Whether there is a text under a key. -/
def contains (b : Bag) (key : String) : Bool :=
  (b.get? key).isSome

/-- Puts a text under a key, in place of the text that is there. -/
def insert (b : Bag) (key text : String) : Bag :=
  ⟨Keyed.insert key text b.entries, Keyed.ascending_insert b.ascending⟩

/-- Puts a text under a key unless there is one already. -/
def insertNew (b : Bag) (key text : String) : Bag :=
  if b.contains key then b else b.insert key text

/-- Drops the text under a key. -/
def erase (b : Bag) (key : String) : Bag :=
  ⟨Keyed.erase key b.entries, Keyed.ascending_erase b.ascending⟩

/-- The bag of some pairs, of which the last counts where a key is repeated. -/
def ofList (pairs : List (String × String)) : Bag :=
  ⟨Keyed.ofList pairs, Keyed.ascending_ofList pairs⟩

/-- The bag as an object of strings. -/
def toValue (b : Bag) : Json.Value :=
  .object (b.entries.map fun (k, text) => (k, .string text))

@[simp] theorem get?_empty (key : String) : (∅ : Bag).get? key = none := rfl

theorem get?_insert (b : Bag) (key text other : String) :
    (b.insert key text).get? other = if key = other then some text else b.get? other :=
  Keyed.get?_insert

@[simp] theorem get?_insert_self (b : Bag) (key text : String) :
    (b.insert key text).get? key = some text := by
  simp [get?_insert]

theorem get?_insert_of_ne (b : Bag) {key other : String} (text : String) (h : key ≠ other) :
    (b.insert key text).get? other = b.get? other := by
  simp [get?_insert, h]

/-- A text that is there stays when one is put only if there is none. -/
theorem get?_insertNew (b : Bag) (key text other : String) :
    (b.insertNew key text).get? other =
      if key = other then (b.get? key).or (some text) else b.get? other := by
  unfold insertNew contains
  split
  case isTrue h =>
    obtain ⟨held, hheld⟩ := Option.isSome_iff_exists.1 h
    split
    · next hkey => rw [← hkey, hheld, Option.some_or]
    · rfl
  case isFalse h =>
    rw [get?_insert, Option.not_isSome_iff_eq_none.1 h, Option.none_or]

theorem get?_erase (b : Bag) (key other : String) :
    (b.erase key).get? other = if key = other then none else b.get? other :=
  Keyed.get?_erase b.ascending

/-- **Bags with the same look-ups are equal.** -/
theorem ext_get? {a b : Bag} (h : ∀ key, a.get? key = b.get? key) : a = b := by
  cases a with
  | mk xs hx =>
    cases b with
    | mk ys hy =>
      have := Keyed.eq_of_get?_eq hx hy h
      subst this
      rfl

/-- A bag is the bag of its attributes. -/
theorem ofList_entries (b : Bag) : ofList b.entries = b :=
  ext_get? fun key => congrArg (Keyed.get? key) (Keyed.ofList_of_ascending b.ascending)

/-- The members of a bag's object are in ascending order. -/
theorem ascending_members (b : Bag) :
    Keyed.Ascending (b.entries.map fun (k, text) => (k, Json.Value.string text)) :=
  List.pairwise_map.2 b.ascending

end Bag

end MailBlocks
