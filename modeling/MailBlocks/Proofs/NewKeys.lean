import MailBlocks.Proofs.OldKeys
import MailBlocks.Proofs.VersionOrder

/-!
# New keys

What migration makes of a component of an older schema, key by key. No old key of its type is left,
a text that stood under one stands under the new key unless there was another one, and everything
else is as it was. There is nothing left to move afterwards.

* `Bag.get?_foldl_move_old`, `Bag.get?_foldl_move_new`: moves that keep apart, and their keys.
* `Component.Renewed`: a component with its keys renewed.
* `migrateInPlace_renews`: migration renews components of older schemas, and changes no others.
-/

namespace MailBlocks

/-! ## Moves that keep apart -/

/-- The keys of one move are none of another. -/
def Move.Apart (m n : Move) : Prop :=
  (m.old ≠ n.old ∧ m.old ≠ n.new) ∧ m.new ≠ n.old ∧ m.new ≠ n.new

instance (m n : Move) : Decidable (m.Apart n) :=
  inferInstanceAs (Decidable ((_ ∧ _) ∧ _ ∧ _))

namespace Bag

/-- Moves leave all keys but their own. -/
theorem get?_foldl_move_of_not_mem {key : String} {ms : List Move}
    (h : ∀ m ∈ ms, key ≠ m.old ∧ key ≠ m.new) (b : Bag) :
    (ms.foldl move b).get? key = b.get? key := by
  induction ms generalizing b with
  | nil => rfl
  | cons m ms ih =>
    obtain ⟨⟨hold, hnew⟩, hrest⟩ := List.forall_mem_cons.1 h
    rw [List.foldl_cons, ih hrest, get?_move, if_neg hold, if_neg hnew]

/-- Nothing is left under an old key. -/
theorem get?_foldl_move_old {ms : List Move} (h : ms.Pairwise Move.Apart) {m : Move}
    (hm : m ∈ ms) (b : Bag) : (ms.foldl move b).get? m.old = none := by
  induction ms generalizing b with
  | nil => cases hm
  | cons n ms ih =>
    obtain ⟨hapart, hrest⟩ := List.pairwise_cons.1 h
    rcases List.mem_cons.1 hm with rfl | hm
    · rw [List.foldl_cons, get?_foldl_move_of_not_mem fun n hn => (hapart n hn).1, get?_move,
        if_pos rfl]
    · exact ih hrest hm (b.move n)

/-- Under a new key there is the text that stood there, or else what was moved. -/
theorem get?_foldl_move_new {ms : List Move} (h : ms.Pairwise Move.Apart) {m : Move}
    (hm : m ∈ ms) (b : Bag) :
    (ms.foldl move b).get? m.new = (b.get? m.new).or ((b.get? m.old).map m.write) := by
  induction ms generalizing b with
  | nil => cases hm
  | cons n ms ih =>
    obtain ⟨hapart, hrest⟩ := List.pairwise_cons.1 h
    rcases List.mem_cons.1 hm with rfl | hm
    · rw [List.foldl_cons, get?_foldl_move_of_not_mem fun n hn => (hapart n hn).2, get?_move,
        if_neg m.distinct.symm, if_pos rfl]
    · obtain ⟨⟨hoo, hon⟩, hno, hnn⟩ := hapart m hm
      rw [List.foldl_cons, ih hrest hm, get?_move, if_neg hon.symm, if_neg hnn.symm, get?_move,
        if_neg hoo.symm, if_neg hno.symm]

/-- A bag without old keys is left as it is. -/
theorem foldl_move_eq_self {ms : List Move} {b : Bag} (h : ∀ m ∈ ms, b.get? m.old = none) :
    ms.foldl move b = b := by
  induction ms with
  | nil => rfl
  | cons m ms ih =>
    obtain ⟨hold, hrest⟩ := List.forall_mem_cons.1 h
    rw [List.foldl_cons, move, hold]
    exact ih hrest

/-! ## Numbers -/

/-- **The number under an old key** with its kind: the stock number before the other. -/
def oldNumber? (b : Bag) : Option (VehicleNumber × String) :=
  ((b.get? "stockNumber").map fun text => (.stock, text)).or
    ((b.get? "vin").map fun text => (.vin, text))

theorem movedNumber?_of_oldNumber? {b : Bag} {kind : VehicleNumber} {text : String}
    (hfree : b.get? "stockVinValue" = none) (h : b.oldNumber? = some (kind, text)) :
    b.movedNumber? = some kind ∧ b.get? (numberKey kind) = some text := by
  rw [oldNumber?] at h
  rw [movedNumber?, contains, hfree, Option.isSome_none, if_neg Bool.false_ne_true, contains,
    contains]
  cases hstock : b.get? "stockNumber" with
  | some stock =>
    rw [hstock] at h
    obtain ⟨rfl, rfl⟩ := Prod.mk.inj (Option.some.inj h)
    exact ⟨rfl, hstock⟩
  | none =>
    rw [hstock] at h
    cases hvin : b.get? "vin" with
    | some vin =>
      rw [hvin] at h
      obtain ⟨rfl, rfl⟩ := Prod.mk.inj (Option.some.inj h)
      exact ⟨rfl, hvin⟩
    | none =>
      rw [hvin] at h
      cases h

/-- No number is left under an old key. -/
theorem get?_renameNumbers_old (b : Bag) :
    b.renameNumbers.get? "stockNumber" = none ∧ b.renameNumbers.get? "vin" = none := by
  have hstock : (renameNumber b "stockNumber" .stock).get? "stockNumber" = none := by
    rw [get?_renameNumber (by decide) (by decide), if_pos rfl]
  refine ⟨?_, ?_⟩
  · rw [renameNumbers, get?_renameNumber (by decide) (by decide), hstock]
    simp
  · rw [renameNumbers, get?_renameNumber (by decide) (by decide), if_pos rfl]

/-- Numbers concern the common key and the kind alone. -/
theorem get?_renameNumbers_of_not_mem (b : Bag) {key : String}
    (hold : key ∉ ["stockNumber", "vin"]) (hnew : key ∉ ["stockVinValue", "stockVinType"]) :
    b.renameNumbers.get? key = b.get? key := by
  rw [List.mem_pair, not_or] at hold hnew
  rw [b.get?_renameNumbers hold.1 hold.2]
  cases b.movedNumber? with
  | none => rfl
  | some kind => simp only [if_neg hnew.1, if_neg hnew.2]

theorem renameNumber_eq_self {b : Bag} {old : String} (h : b.get? old = none)
    (kind : VehicleNumber) : renameNumber b old kind = b := by
  rw [renameNumber, h]

theorem renameNumbers_eq_self {b : Bag} (hstock : b.get? "stockNumber" = none)
    (hvin : b.get? "vin" = none) : b.renameNumbers = b := by
  rw [renameNumbers, renameNumber_eq_self hstock, renameNumber_eq_self hvin]

end Bag

/-! ## Renewed components -/

/-- **The new keys** of a type of component. -/
def newKeys (type : String) : List String :=
  (if type = "sales_offer" then ["stockVinValue", "stockVinType"] else []) ++
    (moves type).map Move.new

/-- The moves of a type keep apart. -/
theorem pairwise_moves (type : String) : (moves type).Pairwise Move.Apart := by
  unfold moves
  split <;> decide

/-- The moves of a sales offer keep away from its numbers. -/
theorem moves_salesOffer_apart :
    ∀ m ∈ moves "sales_offer", ∀ key ∈ ["stockNumber", "vin"] ++ ["stockVinValue", "stockVinType"],
      key ≠ m.old ∧ key ≠ m.new := by
  decide

namespace Component

/-- **A component with its keys renewed.** -/
structure Renewed (c c' : Component) : Prop where
  id : c'.id = c.id
  type : c'.type = c.type
  old : ∀ key ∈ oldKeys c.type, c'.data.get? key = none
  moved : ∀ m ∈ moves c.type, ∀ text, c.data.get? m.old = some text → c.data.get? m.new = none →
    c'.data.get? m.new = some (m.write text)
  number : c.type = "sales_offer" → c.data.get? "stockVinValue" = none →
    ∀ kind text, c.data.oldNumber? = some (kind, text) →
      c'.data.get? "stockVinValue" = some text ∧ c'.data.get? "stockVinType" = some kind.name
  other : ∀ key, key ∉ oldKeys c.type → key ∉ newKeys c.type →
    c'.data.get? key = c.data.get? key

/-- Where a bag starts from before its moves, it has what it had under their keys. -/
theorem get?_ite_renameNumbers {type key : String} {m : Move} (hm : m ∈ moves type)
    (hkey : key = m.old ∨ key = m.new) (b : Bag) :
    (if type = "sales_offer" then b.renameNumbers else b).get? key = b.get? key := by
  split
  · next hsales =>
    subst hsales
    have hnumber : key ∉ ["stockNumber", "vin"] ++ ["stockVinValue", "stockVinType"] := fun h =>
      hkey.elim (moves_salesOffer_apart m hm key h).1 (moves_salesOffer_apart m hm key h).2
    rw [List.mem_append, not_or] at hnumber
    exact b.get?_renameNumbers_of_not_mem hnumber.1 hnumber.2
  · rfl

theorem renewed_withNewKeys (c : Component) : c.Renewed c.withNewKeys where
  id := rfl
  type := rfl
  old key hkey := by
    rw [withNewKeys, renameFirstKeys_eq_moves]
    rcases List.mem_append.1 hkey with hnumber | hmove
    · split at hnumber
      · next hsales =>
        rw [hsales, if_pos rfl]
        have hnone : c.data.renameNumbers.get? key = none := by
          rcases List.mem_pair.1 hnumber with rfl | rfl
          · exact c.data.get?_renameNumbers_old.1
          · exact c.data.get?_renameNumbers_old.2
        rw [Bag.get?_foldl_move_of_not_mem fun m hm => ?_, hnone]
        exact moves_salesOffer_apart m hm key (List.mem_append_left _ hnumber)
      · cases hnumber
    · obtain ⟨m, hm, rfl⟩ := List.mem_map.1 hmove
      exact Bag.get?_foldl_move_old (pairwise_moves c.type) hm _
  moved m hm text hold hfree := by
    rw [withNewKeys, renameFirstKeys_eq_moves,
      Bag.get?_foldl_move_new (pairwise_moves c.type) hm, get?_ite_renameNumbers hm (.inr rfl),
      get?_ite_renameNumbers hm (.inl rfl), hfree, hold]
    rfl
  number hsales hfree kind text hnumber := by
    obtain ⟨hmoved, htext⟩ := Bag.movedNumber?_of_oldNumber? hfree hnumber
    have hkept : ∀ key ∈ ["stockVinValue", "stockVinType"],
        c.withNewKeys.data.get? key = c.data.renameNumbers.get? key := by
      intro key hkey
      rw [withNewKeys, renameFirstKeys_eq_moves, hsales, if_pos rfl]
      exact Bag.get?_foldl_move_of_not_mem
        (fun m hm => moves_salesOffer_apart m hm key (List.mem_append_right _ hkey)) _
    rw [hkept _ (by simp), hkept _ (by simp), Bag.get?_renameNumbers _ (by decide) (by decide),
      Bag.get?_renameNumbers _ (by decide) (by decide), hmoved]
    exact ⟨htext, rfl⟩
  other key hold hnew := by
    rw [oldKeys, List.mem_append, not_or] at hold
    rw [newKeys, List.mem_append, not_or] at hnew
    rw [withNewKeys, renameFirstKeys_eq_moves, Bag.get?_foldl_move_of_not_mem fun m hm =>
      ⟨fun h => hold.2 (List.mem_map.2 ⟨m, hm, h.symm⟩),
        fun h => hnew.2 (List.mem_map.2 ⟨m, hm, h.symm⟩)⟩]
    split
    · next hsales =>
      rw [if_pos hsales] at hold hnew
      exact c.data.get?_renameNumbers_of_not_mem hold.1 hnew.1
    · rfl

/-- A component without old keys has nothing to renew. -/
theorem withNewKeys_eq_self {c : Component} (h : ∀ key ∈ oldKeys c.type, c.data.get? key = none) :
    c.withNewKeys = c := by
  have hmoves : ∀ m ∈ moves c.type, c.data.get? m.old = none := fun m hm =>
    h m.old (List.mem_append_right _ (List.mem_map.2 ⟨m, hm, rfl⟩))
  have hnumbers : (if c.type = "sales_offer" then c.data.renameNumbers else c.data) = c.data := by
    split
    · next hsales =>
      rw [oldKeys, if_pos hsales] at h
      exact Bag.renameNumbers_eq_self (h _ (by simp)) (h _ (by simp))
    · rfl
  rw [withNewKeys, renameFirstKeys_eq_moves, hnumbers, Bag.foldl_move_eq_self hmoves]

theorem withNewKeys_withNewKeys (c : Component) : c.withNewKeys.withNewKeys = c.withNewKeys :=
  withNewKeys_eq_self c.renewed_withNewKeys.old

end Component

/-! ## Migration -/

theorem run_migrateInPlace_of_older {version : String} {schema : Version}
    (hversion : parseVersion version = .ok schema) (holder : schema.compare currentVersion = .lt)
    (cs : List Component) :
    (migrateInPlace version).run.run cs = (.ok currentVersion, cs.map Component.withNewKeys) := by
  have hlater : currentVersion.compare schema = .gt := Std.OrientedCmp.gt_iff_lt.2 holder
  have hnewer : schema.compare currentVersion ≠ .gt := by
    rw [holder]
    decide
  rw [run_migrateInPlace, hversion]
  simp only [if_neg hnewer, if_pos hlater]

theorem run_migrateInPlace_of_current {version : String}
    (hversion : parseVersion version = .ok currentVersion) (cs : List Component) :
    (migrateInPlace version).run.run cs = (.ok currentVersion, cs) := by
  have hnewer : currentVersion.compare currentVersion ≠ .gt := by decide
  rw [run_migrateInPlace, hversion]
  simp only [if_neg hnewer]

/-- Migration fails if the text gives no version, or a newer one. -/
theorem run_migrateInPlace_of_newer {version : String}
    (h : ∀ schema, parseVersion version = .ok schema → schema.compare currentVersion = .gt)
    (cs : List Component) : ∃ e, (migrateInPlace version).run.run cs = (.error e, cs) := by
  rw [run_migrateInPlace]
  cases hversion : parseVersion version with
  | error e => exact ⟨e, rfl⟩
  | ok schema => exact ⟨_, if_pos (h schema hversion)⟩

/-- What fails has changed nothing. -/
theorem eq_of_run_migrateInPlace_error {version : String} {cs cs' : List Component} {e : LoadError}
    (h : (migrateInPlace version).run.run cs = (.error e, cs')) : cs' = cs := by
  rw [run_migrateInPlace] at h
  cases hversion : parseVersion version with
  | error e =>
    rw [hversion] at h
    exact (Prod.mk.inj h).2.symm
  | ok schema =>
    rw [hversion] at h
    by_cases hnewer : schema.compare currentVersion = .gt
    · simp only [if_pos hnewer] at h
      exact (Prod.mk.inj h).2.symm
    · simp only [if_neg hnewer] at h
      cases (Prod.mk.inj h).1

/-- **Migration renews components of every older schema**, and finds nothing to renew in them
afterwards. It leaves components of the current schema as they are, and those with a newer schema
or none that can be read, for which it fails. -/
theorem migrateInPlace_renews (version : String) (cs : List Component) :
    (∀ schema, parseVersion version = .ok schema → schema.compare currentVersion = .lt →
      ∃ cs', (migrateInPlace version).run.run cs = (.ok currentVersion, cs') ∧
        List.Forall₂ Component.Renewed cs cs' ∧
        (migrateInPlace "1.0.0").run.run cs' = (.ok currentVersion, cs')) ∧
    (parseVersion version = .ok currentVersion →
      (migrateInPlace version).run.run cs = (.ok currentVersion, cs)) ∧
    ((∀ schema, parseVersion version = .ok schema → schema.compare currentVersion = .gt) →
      ∃ e, (migrateInPlace version).run.run cs = (.error e, cs)) ∧
    ∀ e cs', (migrateInPlace version).run.run cs = (.error e, cs') → cs' = cs := by
  have holdest : parseVersion "1.0.0" = .ok (.release 1 0 0) := by rfl
  refine ⟨?_, fun h => run_migrateInPlace_of_current h cs,
    fun h => run_migrateInPlace_of_newer h cs, fun _ _ => eq_of_run_migrateInPlace_error⟩
  intro schema hversion holder
  refine ⟨cs.map Component.withNewKeys, run_migrateInPlace_of_older hversion holder cs, ?_, ?_⟩
  · rw [List.forall₂_map_right_iff, List.forall₂_same]
    exact fun c _ => c.renewed_withNewKeys
  · rw [run_migrateInPlace_of_older holdest (by decide), List.map_map]
    simp only [Function.comp_def, Component.withNewKeys_withNewKeys]

/-- A sales offer with both numbers under old keys, and an image place under both keys. -/
def halfEditedOffer : Component :=
  ⟨"1", "sales_offer", .ofList
    [("imagePosition", "left"), ("layout", "right"), ("stockNumber", "A1"), ("vin", "1HGC")]⟩

theorem migrateInPlace_renews_halfEditedOffer :
    (parseVersion "2.0.0-rc.1" = .ok ⟨2, 0, 0, ["rc", "1"], []⟩ ∧
      Version.compare ⟨2, 0, 0, ["rc", "1"], []⟩ currentVersion = .lt ∧
      ∃ cs', (migrateInPlace "2.0.0-rc.1").run.run [halfEditedOffer] = (.ok currentVersion, cs') ∧
        List.Forall₂ Component.Renewed [halfEditedOffer] cs' ∧
        (migrateInPlace "1.0.0").run.run cs' = (.ok currentVersion, cs')) ∧
    (parseVersion "2.0.0" = .ok currentVersion ∧
      (migrateInPlace "2.0.0").run.run [halfEditedOffer] =
        (.ok currentVersion, [halfEditedOffer])) ∧
    ∃ e, (migrateInPlace "two").run.run [halfEditedOffer] = (.error e, [halfEditedOffer]) := by
  have hpre : parseVersion "2.0.0-rc.1" = .ok ⟨2, 0, 0, ["rc", "1"], []⟩ := by rfl
  have hnone : parseVersion "two" = .error (.invalidVersion "two") := by rfl
  refine ⟨⟨hpre, by decide, (migrateInPlace_renews _ _).1 _ hpre (by decide)⟩,
    ⟨rfl, (migrateInPlace_renews _ _).2.1 rfl⟩, (migrateInPlace_renews _ _).2.2.1 ?_⟩
  intro schema hschema
  rw [hnone] at hschema
  cases hschema

end MailBlocks
