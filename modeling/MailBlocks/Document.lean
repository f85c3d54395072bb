import MailBlocks.Component

/-!
# Documents

A document is a list of blocks in display order. New blocks get an identity from a clock: its
reading in milliseconds, or the one after the last identity if the clock has not moved past that.

* `IdClock.next`: the identity for a reading of the clock.
* `Document.pushNew`: appends a new block whose identity no block of the document has.
-/

namespace MailBlocks

/-- The bag of new content of the kind with a name, empty for an unknown kind. -/
def newAttributes (typeName : String) : Bag :=
  match Kind.ofName? typeName with
  | some k => (Content.new k).toBag
  | none => ∅

/-- **The issuer of identities**, which remembers the last one. -/
structure IdClock where
  last : Int
  deriving DecidableEq, Repr

namespace IdClock

/-- The issuer before its first identity. -/
def new : IdClock := ⟨0⟩

/-- The next identity when the clock reads `now` milliseconds. -/
def next (c : IdClock) (now : Int) : Int × IdClock :=
  let id := max now (c.last + 1)
  (id, ⟨id⟩)

/-- A new component of the kind with a name. -/
def create (c : IdClock) (now : Int) (typeName : String) : Component × IdClock :=
  let (id, c) := c.next now
  (⟨Number.decimalInt id, typeName, newAttributes typeName⟩, c)

theorem last_lt_next (c : IdClock) (now : Int) : c.last < (c.next now).1 := by
  simp only [next]; omega

end IdClock

/-- **A document**: blocks in display order. -/
structure Document where
  blocks : List Block
  deriving DecidableEq, Repr

namespace Document

/-- The document without blocks. -/
def empty : Document := ⟨[]⟩

/-- Reads components in their order. `fresh` supplies the identities of additional offers, for each
component its own. -/
def ofComponents (fresh : Nat → FreshIds) (cs : List Component) : Document :=
  ⟨cs.mapIdx fun i c => Block.ofComponent (fresh i) c⟩

/-- Writes the blocks as components. -/
def toComponents (d : Document) : List Component :=
  d.blocks.map Block.toComponent

/-- The number of blocks. -/
def size (d : Document) : Nat := d.blocks.length

/-- Whether there are no blocks. -/
def isEmpty (d : Document) : Bool := d.blocks.isEmpty

/-- Whether a block has the identity. -/
def contains (d : Document) (id : String) : Bool :=
  d.blocks.any (·.id == id)

/-- The block with the identity, the first of them. -/
def get? (d : Document) (id : String) : Option Block :=
  d.blocks.find? (·.id == id)

/-- Appends a block. -/
def push (d : Document) (b : Block) : Document :=
  ⟨d.blocks ++ [b]⟩

/-- Takes out the block with the identity, the first of them. -/
def remove? (d : Document) (id : String) : Option (Block × Document) :=
  (d.get? id).map fun b => (b, ⟨d.blocks.eraseP (·.id == id)⟩)

/-- Changes the block with the identity, the first of them, if there is one. -/
def modify? (d : Document) (id : String) (f : Block → Block) : Option Document :=
  (d.blocks.findIdx? (·.id == id)).map fun i => ⟨d.blocks.modify i f⟩

/-- The number of blocks whose identity spells an integer above `n`. -/
def above (d : Document) (n : Int) : Nat :=
  d.blocks.countP fun b => decide (n < Number.ofIntDigits b.id.toList)

/-- A block whose identity spells an integer is above smaller integers and not above that one. -/
theorem above_lt {d : Document} {m n : Int} (h : m < n)
    (hn : d.contains (Number.decimalInt n)) : d.above n < d.above m := by
  obtain ⟨b, hb, hid⟩ := List.any_eq_true.1 hn
  obtain ⟨before, after, hblocks⟩ := List.append_of_mem hb
  have hvalue : Number.ofIntDigits b.id.toList = n := by
    rw [beq_iff_eq.1 hid, Number.decimalInt, String.toList_ofList,
      Number.ofIntDigits_decimalIntChars]
  have hmono : ∀ bs : List Block,
      bs.countP (fun b => decide (n < Number.ofIntDigits b.id.toList)) ≤
        bs.countP fun b => decide (m < Number.ofIntDigits b.id.toList) := fun bs =>
    List.countP_mono_left fun c _ hc => by
      simp only [decide_eq_true_eq] at hc ⊢
      omega
  have hbefore := hmono before
  have hafter := hmono after
  simp only [above, hblocks, List.countP_append, List.countP_cons, hvalue, h, decide_true,
    Int.lt_irrefl, decide_false, if_true, Bool.false_eq_true, if_false]
  omega

/-- The first identity for the readings `now` of the clock that no block has. The clock is read
again after each identity that is taken already. Identities grow, so that this comes to an end. -/
def freshId (d : Document) (now : Nat → Int) (clock : IdClock) : Int × IdClock :=
  let drawn := clock.next (now 0)
  if d.contains (Number.decimalInt drawn.1) then freshId d (fun i => now (i + 1)) drawn.2
  else drawn
termination_by d.above clock.last
decreasing_by exact above_lt (clock.last_lt_next (now 0)) (by assumption)

/-- **Appends a new block** of the kind with a name, and gives its identity. The clock is read once
for the block and again for each identity that is taken already; `now` are its readings. -/
def pushNew (d : Document) (clock : IdClock) (now : Nat → Int) (typeName : String) :
    String × Document × IdClock :=
  let (id, clock) := d.freshId now clock
  let c : Component := ⟨Number.decimalInt id, typeName, newAttributes typeName⟩
  -- new content has no additional offers that would need an identity
  (c.id, d.push (.ofComponent (fun _ => default) c), clock)

end Document

end MailBlocks
