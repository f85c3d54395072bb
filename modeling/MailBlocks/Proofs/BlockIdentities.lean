import Mathlib.Data.List.Nodup
import MailBlocks.Proofs.BagRoundTrip

/-!
# The identities of blocks

A new block gets the first identity from the clock that no other block has. Issued identities grow,
so each one that is taken is that of another block, and there are no more of them than blocks. The
clock may stand still or go back, and the blocks may have identities that it is still to issue.

* `freshId_eq_draw`: the identity of a new block among those that the clock issues.
* `ofBag_newAttributes`: the content of a new block.
* `pushNew_and_remove`: what is appended and taken out, and that identities stay distinct.
-/

namespace MailBlocks

/-! ## The content of a new block -/

namespace Content

/-- **New content** of the kind with a name. Of an unknown kind there is nothing but the name. -/
def newOf (typeName : String) : Content :=
  match Kind.ofName? typeName with
  | some k => new k
  | none => unknown typeName

/-- New content is read back from its bag. -/
theorem ofBag_newAttributes (fresh : FreshIds) (typeName : String) :
    ofBag fresh typeName (newAttributes typeName) = newOf typeName := by
  unfold ofBag newAttributes newOf
  cases Kind.ofName? typeName with
  | none => rfl
  | some k =>
    have hread : ofKind fresh ∅ k = new k := by cases k <;> rfl
    have hkind : (new k).kind? = some k := by cases k <;> rfl
    dsimp only
    rw [ofKind_toBag hkind, ← hread, settled_ofKind]

end Content

/-! ## Drawing an identity -/

/-- The identity that the clock issues at its `k`-th reading, counted from 0, and the clock then. -/
def IdClock.draw (clock : IdClock) (now : Nat → Int) : Nat → Int × IdClock
  | 0 => clock.next (now 0)
  | k + 1 => (clock.draw now k).2.next (now (k + 1))

theorem IdClock.draw_succ (clock : IdClock) (now : Nat → Int) (k : Nat) :
    clock.draw now (k + 1) = (clock.next (now 0)).2.draw (fun i => now (i + 1)) k := by
  induction k with
  | zero => rfl
  | succ k ih => rw [draw, ih, draw]

namespace Document

variable (d : Document)

/-- Whether the identity that the clock issues at its `k`-th reading is taken. -/
def Taken (clock : IdClock) (now : Nat → Int) (k : Nat) : Prop :=
  d.contains (Number.decimalInt (clock.draw now k).1)

/-- **The identity of a new block** is the first from the clock that is not taken. Each one before
it takes a block out of those above the last identity. -/
theorem freshId_eq_draw (now : Nat → Int) (clock : IdClock) :
    ∃ n ≤ d.above clock.last, (∀ k < n, d.Taken clock now k) ∧ ¬ d.Taken clock now n ∧
      d.freshId now clock = clock.draw now n := by
  fun_induction freshId d now clock with
  | case1 now clock drawn htaken ih =>
    obtain ⟨n, hn, hbefore, hfree, hdraw⟩ := ih
    have hlt : d.above drawn.2.last < d.above clock.last :=
      above_lt (clock.last_lt_next (now 0)) htaken
    refine ⟨n + 1, by omega, ?_, ?_, ?_⟩
    · intro k hk
      cases k with
      | zero => exact htaken
      | succ k =>
        rw [Taken, IdClock.draw_succ]
        exact hbefore k (by omega)
    · rw [Taken, IdClock.draw_succ]
      exact hfree
    · rw [IdClock.draw_succ]
      exact hdraw
  | case2 now clock drawn hfree => exact ⟨0, Nat.zero_le _, by simp, hfree, rfl⟩

theorem above_le_size (n : Int) : d.above n ≤ d.size := List.countP_le_length

theorem pushNew_eq (clock : IdClock) (now : Nat → Int) (typeName : String) :
    ∃ n ≤ d.size, (∀ k < n, d.Taken clock now k) ∧ ¬ d.Taken clock now n ∧
      d.pushNew clock now typeName =
        (Number.decimalInt (clock.draw now n).1,
          d.push ⟨Number.decimalInt (clock.draw now n).1, .newOf typeName⟩,
          (clock.draw now n).2) := by
  obtain ⟨n, hn, hbefore, hfree, hdraw⟩ := d.freshId_eq_draw now clock
  refine ⟨n, hn.trans (d.above_le_size _), hbefore, hfree, ?_⟩
  rw [pushNew, hdraw]
  simp only [Block.ofComponent, Content.ofBag_newAttributes]

/-! ## Distinct identities -/

/-- The identities of the blocks, in order. -/
def ids : List String := d.blocks.map Block.id

theorem contains_iff (id : String) : d.contains id ↔ id ∈ d.ids := by
  simp [contains, ids]

/-- **A change of a document**: a new block from a clock in any state, with any readings, or the
block with an identity taken out. -/
inductive Change where
  | pushNew (clock : IdClock) (now : Nat → Int) (typeName : String)
  | remove (id : String)

/-- The document after a change. Nothing is taken out where no block has the identity. -/
def after (d : Document) : Change → Document
  | .pushNew clock now typeName => (d.pushNew clock now typeName).2.1
  | .remove id => ((d.remove? id).map Prod.snd).getD d

theorem blocks_after_remove (id : String) :
    (d.after (.remove id)).blocks = d.blocks.eraseP (·.id == id) := by
  rw [after, remove?, get?]
  cases hfind : d.blocks.find? (·.id == id) with
  | some b => rfl
  | none => exact (List.eraseP_of_forall_not fun b hb => List.find?_eq_none.1 hfind b hb).symm

/-- Where identities are distinct, taking out the first block with one takes out all. -/
theorem eraseP_eq_filter {bs : List Block} (h : (bs.map Block.id).Nodup) (id : String) :
    bs.eraseP (·.id == id) = bs.filter (·.id ≠ id) := by
  induction bs with
  | nil => rfl
  | cons b bs ih =>
    rw [List.map_cons, List.nodup_cons] at h
    by_cases hb : b.id = id
    · have hothers : ∀ c ∈ bs, decide (c.id ≠ id) = true := fun c hc => by
        refine decide_eq_true fun hid => h.1 ?_
        rw [hb, ← hid]
        exact List.mem_map_of_mem hc
      rw [List.eraseP_cons_of_pos (by simpa using hb), List.filter_cons_of_neg (by simpa using hb),
        List.filter_eq_self.2 hothers]
    · rw [List.eraseP_cons_of_neg (by simpa using hb), List.filter_cons_of_pos (by simpa using hb),
        ih h.2]

variable {d}

/-- A change keeps identities distinct. -/
theorem nodup_ids_after (h : d.ids.Nodup) (c : Change) : (d.after c).ids.Nodup := by
  cases c with
  | pushNew clock now typeName =>
    obtain ⟨n, -, -, hfree, hpush⟩ := d.pushNew_eq clock now typeName
    have hids : (d.after (.pushNew clock now typeName)).ids =
        d.ids ++ [Number.decimalInt (clock.draw now n).1] := by
      rw [after, hpush]
      simp [ids, push]
    rw [Taken, contains_iff] at hfree
    rw [hids, List.nodup_append]
    refine ⟨h, List.nodup_singleton _, fun a ha b hb => ?_⟩
    rw [List.mem_singleton.1 hb]
    exact fun heq => hfree (heq ▸ ha)
  | remove id =>
    rw [ids, blocks_after_remove]
    exact h.sublist (List.eraseP_sublist.map Block.id)

/-- Any changes keep identities distinct. -/
theorem nodup_ids_foldl (h : d.ids.Nodup) (changes : List Change) :
    (changes.foldl after d).ids.Nodup := by
  induction changes generalizing d with
  | nil => exact h
  | cons c changes ih => exact ih (nodup_ids_after h c)

theorem not_contains_after_remove (h : d.ids.Nodup) (id : String) :
    ¬ (d.after (.remove id)).contains id ∧
      (d.after (.remove id)).blocks = d.blocks.filter (·.id ≠ id) := by
  have hblocks : (d.after (.remove id)).blocks = d.blocks.filter (·.id ≠ id) := by
    rw [blocks_after_remove, eraseP_eq_filter h]
  refine ⟨?_, hblocks⟩
  rw [contains_iff, ids, hblocks]
  simp

/-- **New blocks have identities of their own.** After at most as many identities that are taken as
there are blocks, the clock issues one that no block has, and with it new content of the kind is
appended. So identities that are distinct stay so, whatever is appended and taken out, and what is
taken out is gone while all other blocks stay as they are, in their order. -/
theorem pushNew_and_remove (d : Document) :
    (∀ clock now typeName, ∃ n ≤ d.size,
      (∀ k < n, d.contains (Number.decimalInt (clock.draw now k).1)) ∧
      ¬ d.contains (Number.decimalInt (clock.draw now n).1) ∧
      d.pushNew clock now typeName =
        (Number.decimalInt (clock.draw now n).1,
          ⟨d.blocks ++ [⟨Number.decimalInt (clock.draw now n).1, .newOf typeName⟩]⟩,
          (clock.draw now n).2)) ∧
    (d.ids.Nodup → ∀ changes : List Change,
      (changes.foldl after d).ids.Nodup ∧
      ∀ id, ¬ ((changes.foldl after d).after (.remove id)).contains id ∧
        ((changes.foldl after d).after (.remove id)).blocks =
          (changes.foldl after d).blocks.filter (·.id ≠ id)) := by
  refine ⟨fun clock now typeName => d.pushNew_eq clock now typeName, fun h changes => ?_⟩
  have hrun := nodup_ids_foldl h changes
  exact ⟨hrun, not_contains_after_remove hrun⟩

/-- A document whose blocks have the next two identities of a clock that stands still. -/
def aheadOfClock : Document := ⟨[⟨"8", .unknown "note"⟩, ⟨"7", .unknown "note"⟩]⟩

theorem pushNew_and_remove_aheadOfClock :
    aheadOfClock.ids.Nodup ∧
      ∀ id, ¬ (([.pushNew ⟨6⟩ (fun _ => 0) "spacer", .remove "7"].foldl after
          aheadOfClock).after (.remove id)).contains id := by
  have hdistinct : aheadOfClock.ids.Nodup := by decide
  exact ⟨hdistinct, fun id => (((pushNew_and_remove aheadOfClock).2 hdistinct _).2 id).1⟩

end Document

end MailBlocks
