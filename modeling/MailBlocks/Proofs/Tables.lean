import Mathlib.Data.List.DropRight
import MailBlocks.Block.Content
import MailBlocks.Proofs.WrittenNumbers

/-!
# Tables read back

A table of attributes writes a value as a bag and reads a bag over a start value. Both go field by
field and part by part, so what a table makes of a bag is known from its scalars.

* `Slots.read_of`, `Slots.read_within`: a table is read one field and one part at a time.
* `Slots.read_write`: a written value is read back, if no key comes twice.
* `Scalar.Faithful`: scalars whose written values are read back.
* `settle`: what becomes of a word of style that is written and read.
-/

namespace MailBlocks

open Text

variable {α β : Type}

/-! ## Reading field by field -/

theorem Slot.readFrom_of {key : String} {kind : Scalar β} {get : α → β} {set : β → α → α}
    (h : ∀ x, set (get x) x = x) (b : Bag) (x : α) :
    (Slot.of key kind get set).readFrom b x = set (b.read kind key (get x)) x := by
  unfold Slot.readFrom Bag.read
  cases hb : b.get? key with
  | none => simp [Slot.of, hb, h]
  | some text => simp [Slot.of, hb]

theorem Slot.readFrom_within {get : α → β} {set : β → α → α} (h : ∀ x, set (get x) x = x)
    (s : Slot β) (b : Bag) (x : α) :
    (s.within get set).readFrom b x = set (s.readFrom b (get x)) x := by
  unfold Slot.readFrom
  cases hb : b.get? s.key with
  | none => simp [Slot.within, hb, h]
  | some text => simp [Slot.within, hb]

theorem Slot.key_of (key : String) (kind : Scalar β) (get : α → β) (set : β → α → α) :
    (Slot.of key kind get set).key = key := rfl

namespace Slots

theorem read_nil (b : Bag) (x : α) : Slots.read [] b x = x := rfl

theorem read_append (ss ts : Slots α) (b : Bag) (x : α) :
    Slots.read (ss ++ ts) b x = Slots.read ts b (Slots.read ss b x) :=
  List.foldl_append

/-- A table is read one field after the other. -/
theorem read_of {key : String} {kind : Scalar β} {get : α → β} {set : β → α → α}
    (h : ∀ x, set (get x) x = x) (ss : Slots α) (b : Bag) (x : α) :
    Slots.read (.of key kind get set :: ss) b x =
      Slots.read ss b (set (b.read kind key (get x)) x) := by
  rw [Slots.read, List.foldl_cons, Slot.readFrom_of h, Slots.read]

/-- The table of a part reads the part, and nothing else of the whole. -/
theorem read_within {get : α → β} {set : β → α → α} (hget : ∀ x y, get (set y x) = y)
    (hset : ∀ x y z, set z (set y x) = set z x) (hself : ∀ x, set (get x) x = x)
    (ss : Slots β) (b : Bag) (x : α) :
    Slots.read (ss.map (.within get set)) b x = set (Slots.read ss b (get x)) x := by
  induction ss generalizing x with
  | nil => exact (hself x).symm
  | cons s ss ih =>
    calc Slots.read ((s :: ss).map (.within get set)) b x
        = Slots.read (ss.map (.within get set)) b (set (s.readFrom b (get x)) x) := by
          rw [← Slot.readFrom_within hself]
          rfl
      _ = set (Slots.read ss b (s.readFrom b (get x))) x := by rw [ih, hget, hset]

/-! ## Reading what was written -/

/-- **What reading makes of a start value** if the bag has the texts of a value under all keys. -/
def reread (slots : Slots α) (a : α) (start : α) : α :=
  slots.foldl (fun x s => s.load x (s.store a)) start

theorem read_eq_reread {ss : Slots α} {b : Bag} {a : α}
    (h : ∀ s ∈ ss, b.get? s.key = some (s.store a)) (x : α) :
    Slots.read ss b x = reread ss a x := by
  induction ss generalizing x with
  | nil => rfl
  | cons s ss ih =>
    obtain ⟨hs, hrest⟩ := List.forall_mem_cons.1 h
    have hstep : s.readFrom b x = s.load x (s.store a) := by rw [Slot.readFrom, hs]
    rw [Slots.read, List.foldl_cons, hstep]
    exact ih hrest _

/-- **A written value is read back**, if no key comes twice. -/
theorem read_write {ss : Slots α} (h : (ss.map (·.key)).Nodup) (a x : α) :
    Slots.read ss (ss.write a) x = reread ss a x :=
  read_eq_reread (fun _ hs => get?_write (List.pairwise_map.1 h) hs a) x

theorem reread_nil (a x : α) : reread [] a x = x := rfl

theorem reread_append (ss ts : Slots α) (a x : α) :
    reread (ss ++ ts) a x = reread ts a (reread ss a x) :=
  List.foldl_append

theorem reread_of (key : String) (kind : Scalar β) (get : α → β) (set : β → α → α) (ss : Slots α)
    (a x : α) :
    reread (.of key kind get set :: ss) a x =
      reread ss a (set (kind.read (get x) (kind.write (get a))) x) := rfl

theorem reread_within {get : α → β} {set : β → α → α} (hget : ∀ x y, get (set y x) = y)
    (hset : ∀ x y z, set z (set y x) = set z x) (hself : ∀ x, set (get x) x = x)
    (ss : Slots β) (a x : α) :
    reread (ss.map (.within get set)) a x = set (reread ss (get a) (get x)) x := by
  induction ss generalizing x with
  | nil => exact (hself x).symm
  | cons s ss ih =>
    calc reread ((s :: ss).map (.within get set)) a x
        = reread (ss.map (.within get set)) a (set (s.load (get x) (s.store (get a))) x) := rfl
      _ = set (reread ss (get a) (s.load (get x) (s.store (get a)))) x := by rw [ih, hget, hset]

end Slots

/-! ## Scalars read back -/

namespace Scalar

/-- **Written values are read back**, whatever they fall back on. -/
def Faithful (kind : Scalar α) : Prop :=
  ∀ fallback a, kind.read fallback (kind.write a) = a

theorem faithful_ofPartial {read? : String → Option α} {write : α → String}
    (h : ∀ a, read? (write a) = some a) : (ofPartial read? write).Faithful := by
  intro fallback a
  simp [ofPartial, h]

theorem faithful_text : text.Faithful := fun _ _ => rfl

theorem faithful_number : number.Faithful := faithful_ofPartial number?_decimal

theorem faithful_percent : percent.Faithful := faithful_ofPartial number?_percent

theorem faithful_flag : flag.Faithful :=
  faithful_ofPartial fun b => by cases b <;> decide

theorem faithful_align : align.Faithful :=
  faithful_ofPartial fun a => by cases a <;> decide

end Scalar

theorem ImagePlace.faithful_scalar : ImagePlace.scalar.Faithful :=
  Scalar.faithful_ofPartial fun p => by cases p <;> decide

theorem VehicleNumber.faithful_scalar : VehicleNumber.scalar.Faithful :=
  Scalar.faithful_ofPartial fun k => by cases k <;> decide

theorem ButtonWidth.faithful_scalar : ButtonWidth.scalar.Faithful :=
  Scalar.faithful_ofPartial fun w => by cases w <;> decide

theorem AdditionalOffer.faithful_idScalar : AdditionalOffer.idScalar.Faithful :=
  Scalar.faithful_ofPartial OfferId.ofText?_text

/-! ## Words of style -/

/-- **What becomes of a word of style** that is written and read: it is trimmed, and replaced by the
default if it is blank. -/
def settle (fallback word : String) : String :=
  if blank word then fallback else trim word

theorem dropWhile_of_prefix {p : Char → Bool} {s t : List Char} (h : t.dropWhile p = t)
    (hs : s <+: t) : s.dropWhile p = s := by
  cases s with
  | nil => rfl
  | cons c s =>
    obtain ⟨r, rfl⟩ := hs
    refine List.dropWhile_cons_of_neg fun hc => ?_
    rw [List.cons_append, List.dropWhile_cons_of_pos hc] at h
    have hlen := (List.dropWhile_sublist (l := s ++ r) p).length_le
    rw [h, List.length_cons] at hlen
    omega

theorem trimBlank_trimBlank (s : List Char) : trimBlank (trimBlank s) = trimBlank s := by
  have htrim : ∀ t, trimBlank t = (t.dropWhile isBlank).rdropWhile isBlank := fun _ => rfl
  have hprefix := List.rdropWhile_prefix isBlank (l := s.dropWhile isBlank)
  have hfront := dropWhile_of_prefix (List.dropWhile_idempotent isBlank s) hprefix
  calc trimBlank (trimBlank s)
      = (((s.dropWhile isBlank).rdropWhile isBlank).dropWhile isBlank).rdropWhile isBlank := rfl
    _ = trimBlank s := by rw [hfront, List.rdropWhile_idempotent, htrim]

/-- A settled word stays as it is, over the same default. -/
theorem settle_settle {fallback : String} (h : settle fallback fallback = fallback)
    (word : String) : settle fallback (settle fallback word) = settle fallback word := by
  by_cases hb : blank word
  · simp only [settle, hb, if_true]
    exact h
  · have htrim : trim (trim word) = trim word := by
      rw [trim, trim, String.toList_ofList, trimBlank_trimBlank]
    have hblank : ¬ blank (trim word) := by
      rw [blank, trim, String.toList_ofList]
      intro hall
      have hnil := trimBlank_eq_nil_iff.2 hall
      rw [trimBlank_trimBlank] at hnil
      exact hb (trimBlank_eq_nil_iff.1 hnil)
    simp only [settle, hb, hblank, htrim, if_false, Bool.false_eq_true]

/-- What was read over a settled default is settled. -/
theorem settle_read {fallback : String} (h : settle fallback fallback = fallback) (b : Bag)
    (key : String) :
    settle fallback (b.read .token key fallback) = b.read .token key fallback := by
  unfold Bag.read
  cases b.get? key with
  | none => exact h
  | some word => exact settle_settle h word

end MailBlocks
