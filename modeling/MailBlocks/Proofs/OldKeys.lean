import Mathlib.Data.List.Forall2
import MailBlocks.Project

/-!
# Old keys

Components of an older schema have some of their texts under old keys. Migration moves these to the
keys of the current schema and leaves the texts that stand there already. The number of a vehicle is
moved together with its kind, which is written whatever kind stood there before.

* `Move`, `moves`: the moves from an old key to a new one, for each type of component.
* `Bag.get?_move`, `Bag.get?_renameNumbers`: what is found under a key after moves.
* `run_migrateInPlace`: all that migration can do.
* `kept_of_migrate`: what was held under other keys is still there.
-/

namespace MailBlocks

/-! ## Moves -/

/-- **A move** of the text under an old key to a new one, where it may be written anew. -/
structure Move where
  old : String
  new : String
  write : String → String
  distinct : old ≠ new

namespace Bag

/-- The bag after a move. A text under the new key stays. -/
def move (b : Bag) (m : Move) : Bag :=
  match b.get? m.old with
  | some text => (b.erase m.old).insertNew m.new (m.write text)
  | none => b

theorem get?_move (b : Bag) (m : Move) (key : String) :
    (b.move m).get? key =
      if key = m.old then none
      else if key = m.new then (b.get? m.new).or ((b.get? m.old).map m.write)
      else b.get? key := by
  unfold move
  split
  · next text hold =>
    rw [hold, Option.map_some, get?_insertNew, get?_erase, get?_erase, if_neg m.distinct]
    by_cases hkey : key = m.old
    · rw [if_pos hkey, if_neg (by rw [hkey]; exact m.distinct.symm), if_pos hkey.symm]
    · rw [if_neg hkey, if_neg (Ne.symm hkey)]
      simp only [eq_comm]
  · next hold =>
    split
    · next hkey => rw [hkey, hold]
    · split
      · next hnew => rw [hnew, hold, Option.map_none, Option.or_none]
      · rfl

/-- Moves leave what is held under all keys but the old ones. -/
theorem get?_foldl_move {key text : String} {ms : List Move} (hold : ∀ m ∈ ms, key ≠ m.old)
    {b : Bag} (hheld : b.get? key = some text) : (ms.foldl move b).get? key = some text := by
  induction ms generalizing b with
  | nil => exact hheld
  | cons m ms ih =>
    refine ih (fun n hn => hold n (List.mem_cons_of_mem m hn)) ?_
    rw [get?_move, if_neg (hold m List.mem_cons_self)]
    split
    · next hnew => rw [← hnew, hheld, Option.some_or]
    · exact hheld

/-- A number is moved with its kind, unless there is a number already. -/
theorem get?_renameNumber {old : String} (hvalue : old ≠ "stockVinValue")
    (htype : old ≠ "stockVinType") (b : Bag) (kind : VehicleNumber) (key : String) :
    (renameNumber b old kind).get? key =
      if key = old then none
      else if b.contains old ∧ ¬ b.contains "stockVinValue" then
        if key = "stockVinType" then some kind.name
        else if key = "stockVinValue" then b.get? old
        else b.get? key
      else b.get? key := by
  have herase : (b.erase old).contains "stockVinValue" = b.contains "stockVinValue" := by
    rw [contains, get?_erase, if_neg hvalue, contains]
  unfold renameNumber
  split
  · next text hold =>
    have hsome : b.contains old = true := by rw [contains, hold, Option.isSome_some]
    simp only [herase, hsome, true_and]
    by_cases hheld : b.contains "stockVinValue"
    · rw [if_pos hheld, if_neg (not_not_intro hheld), get?_erase]
      simp only [eq_comm]
    · rw [if_neg hheld, if_pos hheld, get?_insert, get?_insert, get?_erase, hold]
      by_cases hkey : key = old
      · rw [if_pos hkey, hkey, if_neg htype.symm, if_neg hvalue.symm, if_pos rfl]
      · rw [if_neg hkey, if_neg (Ne.symm hkey)]
        simp only [eq_comm]
  · next hold =>
    have hnone : b.contains old = false := by rw [contains, hold, Option.isSome_none]
    simp only [hnone, Bool.false_eq_true, false_and, if_false]
    split
    · next hkey => rw [hkey, hold]
    · rfl

theorem contains_renameNumber {old : String} (hvalue : old ≠ "stockVinValue")
    (htype : old ≠ "stockVinType") (b : Bag) (kind : VehicleNumber) :
    (renameNumber b old kind).contains "stockVinValue" =
      (b.contains "stockVinValue" || b.contains old) := by
  simp only [contains, get?_renameNumber hvalue htype, if_neg hvalue.symm]
  cases hheld : b.get? "stockVinValue" <;> cases hold : b.get? old <;> simp

/-- The bag with both numbers of a vehicle moved from their old keys. -/
def renameNumbers (b : Bag) : Bag :=
  renameNumber (renameNumber b "stockNumber" .stock) "vin" .vin

/-- The number that is moved to the common key: none if there is one already, and the stock number
before the other. -/
def movedNumber? (b : Bag) : Option VehicleNumber :=
  if b.contains "stockVinValue" then none
  else if b.contains "stockNumber" then some .stock
  else if b.contains "vin" then some .vin
  else none

/-- The old key of a number. -/
def numberKey : VehicleNumber → String
  | .stock => "stockNumber"
  | .vin => "vin"

/-- The numbers change the common key and the kind, and these only if a number is moved. -/
theorem get?_renameNumbers (b : Bag) {key : String} (hstock : key ≠ "stockNumber")
    (hvin : key ≠ "vin") :
    b.renameNumbers.get? key =
      match b.movedNumber? with
      | some kind =>
        if key = "stockVinType" then some kind.name
        else if key = "stockVinValue" then b.get? (numberKey kind)
        else b.get? key
      | none => b.get? key := by
  have hstockKey : "stockNumber" ≠ "stockVinValue" := by decide
  have hfirst := b.get?_renameNumber hstockKey (by decide) .stock
  have hvin' : (renameNumber b "stockNumber" .stock).get? "vin" = b.get? "vin" := by
    rw [hfirst]
    simp
  have hvinHeld : (renameNumber b "stockNumber" .stock).contains "vin" = b.contains "vin" := by
    rw [contains, hvin', contains]
  rw [renameNumbers, get?_renameNumber (by decide) (by decide), if_neg hvin, hvin', hvinHeld,
    contains_renameNumber (by decide) (by decide), hfirst, if_neg hstock, movedNumber?]
  by_cases hheld : b.contains "stockVinValue"
  · simp [hheld]
  · by_cases hs : b.contains "stockNumber"
    · simp [hheld, hs, numberKey]
    · by_cases hv : b.contains "vin" <;> simp [hheld, hs, hv, numberKey]

end Bag

/-! ## The moves of each type -/

/-- The width that the text of a flag stands for. -/
def widthOfFlag (text : String) : String :=
  if flag? text = some true then "full" else "auto"

/-- **The moves** of a type of component, those of numbers aside. -/
def moves (type : String) : List Move :=
  match type with
  | "header" | "text_block" => [⟨"alignment", "textAlign", id, by decide⟩]
  | "button" =>
    [⟨"url", "link", id, by decide⟩, ⟨"bgColor", "backgroundColor", id, by decide⟩,
      ⟨"fullWidth", "widthType", widthOfFlag, by decide⟩]
  | "spacer" => [⟨"transparent", "matchBackground", id, by decide⟩]
  | "service_offer" => [⟨"couponBorder", "couponShowBorder", id, by decide⟩]
  | "sales_offer" => [⟨"imagePosition", "layout", id, by decide⟩]
  | _ => []

/-- **The old keys** of a type of component. -/
def oldKeys (type : String) : List String :=
  (if type = "sales_offer" then ["stockNumber", "vin"] else []) ++ (moves type).map Move.old

theorem rename_eq_move {old new : String} (h : old ≠ new) (b : Bag) :
    b.rename old new = b.move ⟨old, new, id, h⟩ := rfl

theorem renameFullWidth_eq_move (b : Bag) :
    renameFullWidth b = b.move ⟨"fullWidth", "widthType", widthOfFlag, by decide⟩ := by
  rw [renameFullWidth, Bag.move]
  cases b.get? "fullWidth" with
  | none => rfl
  | some text => simp only [widthOfFlag]

/-- A bag is brought up by its moves, after those of numbers. -/
theorem renameFirstKeys_eq_moves (type : String) (b : Bag) :
    renameFirstKeys type b =
      (moves type).foldl Bag.move (if type = "sales_offer" then b.renameNumbers else b) := by
  unfold renameFirstKeys
  split
  case h_3 =>
    rw [moves, if_neg (by decide), renameFullWidth_eq_move, rename_eq_move (by decide),
      rename_eq_move (by decide)]
    rfl
  case h_6 =>
    rw [moves, if_pos rfl]
    rfl
  case h_7 hsales =>
    rw [moves, if_neg hsales]
    · rfl
    all_goals assumption
  all_goals
    rw [moves, if_neg (by decide)]
    rfl

theorem Bag.movedNumber?_of_held {b : Bag} {text : String}
    (h : b.get? "stockVinValue" = some text) : b.movedNumber? = none := by
  rw [movedNumber?, contains, h, Option.isSome_some, if_pos rfl]

/-- What is held under other keys than the old ones stays, the kind of a moved number aside. -/
theorem get?_renameFirstKeys {type key text : String} {b : Bag} (hkey : key ∉ oldKeys type)
    (hheld : b.get? key = some text)
    (hkind : type = "sales_offer" → key = "stockVinType" → b.movedNumber? = none) :
    (renameFirstKeys type b).get? key = some text := by
  rw [oldKeys, List.mem_append, not_or] at hkey
  rw [renameFirstKeys_eq_moves]
  refine Bag.get?_foldl_move (fun m hm h => hkey.2 (List.mem_map.2 ⟨m, hm, h.symm⟩)) ?_
  split
  · next hsales =>
    rw [if_pos hsales, List.mem_pair, not_or] at hkey
    rw [b.get?_renameNumbers hkey.1.1 hkey.1.2]
    split
    · next kind hmoved =>
      have htype : key ≠ "stockVinType" := fun h => by
        rw [hkind hsales h] at hmoved
        cases hmoved
      have hvalue : key ≠ "stockVinValue" := fun h => by
        rw [Bag.movedNumber?_of_held (h ▸ hheld)] at hmoved
        cases hmoved
      rw [if_neg htype, if_neg hvalue]
      exact hheld
    · exact hheld
  · exact hheld

/-- A number is moved with its kind. -/
theorem get?_renameFirstKeys_kind {b : Bag} {kind : VehicleNumber}
    (hmoved : b.movedNumber? = some kind) :
    (renameFirstKeys "sales_offer" b).get? "stockVinType" = some kind.name := by
  have hmoves : ∀ m ∈ moves "sales_offer", "stockVinType" ≠ m.old := by decide
  rw [renameFirstKeys_eq_moves, if_pos rfl]
  refine Bag.get?_foldl_move hmoves ?_
  rw [b.get?_renameNumbers (by decide) (by decide), hmoved]
  rfl

/-! ## Migration -/

namespace Component

/-- The component with the keys of the current schema. -/
def withNewKeys (c : Component) : Component :=
  { c with data := renameFirstKeys c.type c.data }

/-- The number that is moved in a component of a schema, if any. -/
def movedNumber? (schema : Version) (c : Component) : Option VehicleNumber :=
  if currentVersion.compare schema = .gt ∧ c.type = "sales_offer" then c.data.movedNumber? else none

/-- **What migration keeps** of a component `c` of a schema. The kind of a number that is moved is
moved with it, in place of a kind that may be there. -/
structure Kept (schema : Version) (c c' : Component) : Prop where
  id : c'.id = c.id
  type : c'.type = c.type
  held : ∀ key text, c.data.get? key = some text → key ∉ oldKeys c.type →
    (key = "stockVinType" → c.movedNumber? schema = none) → c'.data.get? key = some text
  kind : ∀ kind, c.movedNumber? schema = some kind →
    c'.data.get? "stockVinType" = some kind.name

theorem kept_withNewKeys {schema : Version} (holder : currentVersion.compare schema = .gt)
    (c : Component) : c.Kept schema c.withNewKeys where
  id := rfl
  type := rfl
  held key text hheld hkey hkind := by
    refine get?_renameFirstKeys hkey hheld fun hsales htype => ?_
    have hnone := hkind htype
    rwa [movedNumber?, if_pos ⟨holder, hsales⟩] at hnone
  kind kind hmoved := by
    rw [movedNumber?] at hmoved
    split at hmoved
    · next hsales =>
      rw [withNewKeys, hsales.2]
      exact get?_renameFirstKeys_kind hmoved
    · cases hmoved

theorem kept_refl {schema : Version} (holder : currentVersion.compare schema ≠ .gt)
    (c : Component) : c.Kept schema c where
  id := rfl
  type := rfl
  held _ _ hheld _ _ := hheld
  kind kind hmoved := by
    rw [movedNumber?, if_neg fun h => holder h.1] at hmoved
    cases hmoved

end Component

namespace Migration

theorem liftM_ok_bind {α β : Type} (a : α) (f : α → Migration β) :
    (liftM (Except.ok a : Except LoadError α) : Migration α) >>= f = f a := rfl

/-- The one step there is changes components of an older schema and no others. -/
theorem take_eq (schema : Version) :
    MigrationStep.take schema ⟨"2.0.0", renameFirstKeys⟩ =
      if currentVersion.compare schema = .gt then modify fun cs => cs.map Component.withNewKeys
      else pure () := by
  have htarget : parseVersion "2.0.0" = .ok currentVersion := by rfl
  have hcurrent : currentVersion.compare currentVersion ≠ .gt := by decide
  rw [MigrationStep.take, htarget, liftM_ok_bind]
  by_cases holder : currentVersion.compare schema = .gt
  · rw [if_pos ⟨holder, hcurrent⟩, if_pos holder]
    rfl
  · rw [if_neg fun h => holder h.1, if_neg holder]

end Migration

/-- **All that migration can do** with components where they stand: those of an older schema get the
new keys, and all others stay as they are, also where it fails. -/
theorem run_migrateInPlace (version : String) (cs : List Component) :
    (migrateInPlace version).run.run cs =
      match parseVersion version with
      | .error e => (.error e, cs)
      | .ok schema =>
        if schema.compare currentVersion = .gt then
          (.error (.unsupportedVersion schema.text currentVersion.text), cs)
        else
          (.ok currentVersion,
            if currentVersion.compare schema = .gt then cs.map Component.withNewKeys else cs) := by
  unfold migrateInPlace
  cases parseVersion version with
  | error e => rfl
  | ok schema =>
    rw [Migration.liftM_ok_bind]
    dsimp only
    split
    · rfl
    · rw [migrationSteps, List.forM_cons, List.forM_nil, Migration.take_eq]
      split <;> rfl

/-- Components of no newer schema than the current one are migrated. -/
theorem migrate_of_not_newer {version : String} {schema : Version}
    (hversion : parseVersion version = .ok schema) (hnewer : schema.compare currentVersion ≠ .gt)
    (cs : List Component) :
    migrate version cs = .ok (currentVersion,
      if currentVersion.compare schema = .gt then cs.map Component.withNewKeys else cs) := by
  rw [migrate, run_migrateInPlace, hversion]
  dsimp only
  rw [if_neg hnewer]
  rfl

/-- A migrated copy: components of an older schema have the new keys, those of the current one are
as they were. -/
theorem migrate_cases {version : String} {cs cs' : List Component} {v : Version}
    (h : migrate version cs = .ok (v, cs')) :
    v = currentVersion ∧ ∃ schema, parseVersion version = .ok schema ∧
      schema.compare currentVersion ≠ .gt ∧
        cs' = if currentVersion.compare schema = .gt then cs.map Component.withNewKeys else cs := by
  rw [migrate, run_migrateInPlace] at h
  cases hversion : parseVersion version with
  | error e =>
    rw [hversion] at h
    cases h
  | ok schema =>
    rw [hversion] at h
    by_cases hnewer : schema.compare currentVersion = .gt
    · simp only [if_pos hnewer] at h
      cases h
    · simp only [if_neg hnewer] at h
      obtain ⟨rfl, rfl⟩ := Prod.mk.inj (Except.ok.inj h)
      exact ⟨rfl, schema, rfl, hnewer, rfl⟩

/-- **Texts under other keys stay.** Migration keeps what a component holds under all keys but the
old keys of its type, and under the key of a number's kind unless a number is moved. -/
theorem kept_of_migrate {version : String} {cs cs' : List Component} {v : Version}
    (h : migrate version cs = .ok (v, cs')) :
    ∃ schema, parseVersion version = .ok schema ∧
      List.Forall₂ (Component.Kept schema) cs cs' := by
  obtain ⟨-, schema, hversion, -, rfl⟩ := migrate_cases h
  refine ⟨schema, hversion, ?_⟩
  split
  · next holder =>
    rw [List.forall₂_map_right_iff, List.forall₂_same]
    exact fun c _ => c.kept_withNewKeys holder
  · next holder =>
    rw [List.forall₂_same]
    exact fun c _ => c.kept_refl holder

/-! ## The kind of a moved number -/

/-- A sales offer with a number under its old key, a kind that does not go with it, and a layout. -/
def stockOffer : Component :=
  ⟨"1", "sales_offer",
    .ofList [("layout", "right"), ("stockNumber", "A1"), ("stockVinType", "vin")]⟩

/-- The offer after migration. -/
def movedOffer : Component :=
  ⟨"1", "sales_offer",
    .ofList [("layout", "right"), ("stockVinType", "stock"), ("stockVinValue", "A1")]⟩

theorem migrate_stockOffer : migrate "1.0.0" [stockOffer] = .ok (currentVersion, [movedOffer]) := by
  rfl

/-- **A kind may change**: one that does not go with the moved number is written over, though it
stands under no old key. -/
theorem migrate_changes_kind :
    "stockVinType" ∉ oldKeys stockOffer.type ∧
      stockOffer.data.get? "stockVinType" = some "vin" ∧
      migrate "1.0.0" [stockOffer] = .ok (currentVersion, [movedOffer]) ∧
      movedOffer.data.get? "stockVinType" = some "stock" :=
  ⟨by decide, by decide, migrate_stockOffer, by decide⟩

/-- The layout is kept, since it stands under no old key either and is no kind. -/
theorem kept_of_migrate_stockOffer :
    migrate "1.0.0" [stockOffer] = .ok (currentVersion, [movedOffer]) ∧
      (∃ schema, parseVersion "1.0.0" = .ok schema ∧
        List.Forall₂ (Component.Kept schema) [stockOffer] [movedOffer]) ∧
      stockOffer.data.get? "layout" = some "right" ∧
      movedOffer.data.get? "layout" = some "right" := by
  obtain ⟨schema, hversion, hkept⟩ := kept_of_migrate migrate_stockOffer
  have hlayout : stockOffer.data.get? "layout" = some "right" := by decide
  obtain ⟨hoffer, -⟩ := List.forall₂_cons.1 hkept
  have hheld := hoffer.held "layout" "right" hlayout (by decide) fun hkind =>
    absurd hkind (by decide)
  exact ⟨migrate_stockOffer, ⟨schema, hversion, hkept⟩, hlayout, hheld⟩

end MailBlocks
