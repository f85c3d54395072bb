import MailBlocks.Attribute.Scalar

/-!
# Tables of attributes

What a block keeps under which key is a table of slots. A slot knows its key, how a text under it
changes a block, and which text a block has there. The same table reads blocks from bags and writes
them.

* `get?_write`: a written block has the text of each slot under the slot's key.
-/

namespace MailBlocks

/-- **One attribute of `α`**: its key, what reading it does and what is written. -/
structure Slot (α : Type) where
  key : String
  load : α → String → α
  store : α → String

namespace Slot

variable {α β : Type}

/-- The slot of a field that holds a scalar. -/
def of (key : String) (kind : Scalar β) (get : α → β) (set : β → α → α) : Slot α :=
  ⟨key, fun a s => set (kind.read (get a) s) a, fun a => kind.write (get a)⟩

/-- The slot of a part, as a slot of the whole. -/
def within (get : α → β) (set : β → α → α) (s : Slot β) : Slot α :=
  ⟨s.key, fun a text => set (s.load (get a) text) a, fun a => s.store (get a)⟩

/-- Takes over the text that a bag has under the slot's key, if it has one. -/
def readFrom (b : Bag) (a : α) (s : Slot α) : α :=
  match b.get? s.key with
  | some text => s.load a text
  | none => a

end Slot

/-- The attributes of `α` in order. -/
abbrev Slots (α : Type) := List (Slot α)

namespace Slots

variable {α : Type}

/-- **Reads a bag over a start value**, which keeps what the bag does not say. -/
def read (slots : Slots α) (b : Bag) (start : α) : α :=
  slots.foldl (Slot.readFrom b) start

/-- Writes a value into a bag. -/
def writeOver (slots : Slots α) (b : Bag) (a : α) : Bag :=
  slots.foldl (fun b s => b.insert s.key (s.store a)) b

/-- **Writes a value** as the bag of all its attributes. -/
def write (slots : Slots α) (a : α) : Bag :=
  writeOver slots ∅ a

theorem get?_writeOver_of_not_mem {slots : Slots α} {key : String}
    (h : ∀ s ∈ slots, s.key ≠ key) (b : Bag) (a : α) :
    (writeOver slots b a).get? key = b.get? key := by
  induction slots generalizing b with
  | nil => rfl
  | cons s slots ih =>
    have := ih (fun t ht => h t (List.mem_cons_of_mem _ ht)) (b.insert s.key (s.store a))
    simpa [writeOver, Bag.get?_insert, h s (by simp)] using this

/-- A written value has the text of each slot under its key, if the keys are distinct. -/
theorem get?_writeOver {slots : Slots α} (h : slots.Pairwise fun s t => s.key ≠ t.key)
    {s : Slot α} (hs : s ∈ slots) (b : Bag) (a : α) :
    (writeOver slots b a).get? s.key = some (s.store a) := by
  induction slots generalizing b with
  | nil => simp at hs
  | cons t slots ih =>
    obtain ⟨hall, hrest⟩ := List.pairwise_cons.1 h
    rcases List.mem_cons.1 hs with rfl | hs
    · have := get?_writeOver_of_not_mem (fun u hu => (hall u hu).symm)
        (b.insert s.key (s.store a)) a
      simpa [writeOver] using this
    · exact ih hrest hs _

theorem get?_write {slots : Slots α} (h : slots.Pairwise fun s t => s.key ≠ t.key)
    {s : Slot α} (hs : s ∈ slots) (a : α) : (write slots a).get? s.key = some (s.store a) :=
  get?_writeOver h hs ∅ a

end Slots

end MailBlocks
