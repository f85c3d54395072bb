import MailBlocks.Proofs.OldKeys
import MailBlocks.Proofs.VersionOrder

/-!
# Schemas of equal precedence

What becomes of components depends on the precedence of their schema: one before the current schema
is brought up to it, one behind it is refused. The schemas of the current precedence are told apart,
though: with build metadata a schema is taken for a newer one.

* `compare_current_gt_iff`, `current_compare_gt_iff`: newer and older schemas by their precedence.
* `run_migrateInPlace_of_precedence`: what becomes of components.
* `Migration.Alike`: the same outcome.
* `migrateInPlace_alike_iff`: which schemas of equal precedence have the same outcome.
-/

namespace MailBlocks

namespace Version

/-- A schema is newer than the current one behind it in precedence, and also beside it with build
metadata. -/
theorem compare_current_gt_iff (a : Version) :
    a.compare currentVersion = .gt ↔
      a.precedence currentVersion = .gt ∨ a.precedence currentVersion = .eq ∧ a.build ≠ [] := by
  have hbuild : compareLists a.build currentVersion.build = .gt ↔ a.build ≠ [] := by
    change compareLists a.build [] = .gt ↔ a.build ≠ []
    cases a.build <;> simp [compareLists]
  rw [compare_eq_precedence_then, Ordering.then_eq_gt, hbuild]

/-- A schema is older than the current one exactly before it in precedence. -/
theorem current_compare_gt_iff (a : Version) :
    currentVersion.compare a = .gt ↔ a.precedence currentVersion = .lt := by
  have hbuild : compareLists a.build currentVersion.build ≠ .lt := by
    change compareLists a.build [] ≠ .lt
    cases a.build <;> simp [compareLists]
  rw [← compare_swap, Ordering.swap_eq_gt, compare_eq_precedence_then, Ordering.then_eq_lt]
  exact or_iff_left fun h => hbuild h.2

end Version

/-- **What becomes of components** by the precedence of their schema. -/
theorem run_migrateInPlace_of_precedence {version : String} {a : Version}
    (hversion : parseVersion version = .ok a) (cs : List Component) :
    (migrateInPlace version).run.run cs =
      match a.precedence currentVersion with
      | .lt => (.ok currentVersion, cs.map Component.withNewKeys)
      | .eq =>
        if a.build = [] then (.ok currentVersion, cs)
        else (.error (.unsupportedVersion a.text currentVersion.text), cs)
      | .gt => (.error (.unsupportedVersion a.text currentVersion.text), cs) := by
  rw [run_migrateInPlace, hversion]
  dsimp only
  simp only [Version.compare_current_gt_iff, Version.current_compare_gt_iff]
  cases a.precedence currentVersion with
  | lt => simp
  | eq => by_cases hbuild : a.build = [] <;> simp [hbuild]
  | gt => simp

/-- **The same outcome** of two migrations: both refuse the schema for a newer one and leave the
components as they are, or both succeed with the same components. -/
inductive Migration.Alike :
    Except LoadError Version × List Component → Except LoadError Version × List Component → Prop where
  | refused (found found' supported : String) (cs : List Component) :
    Alike (.error (.unsupportedVersion found supported), cs)
      (.error (.unsupportedVersion found' supported), cs)
  | accepted (v : Version) (cs : List Component) : Alike (.ok v, cs) (.ok v, cs)

/-- **Which schemas of equal precedence have the same outcome**: all but those of the current
precedence of which one has build metadata and the other has none. -/
theorem migrateInPlace_alike_iff {v w : String} {a b : Version} (hv : parseVersion v = .ok a)
    (hw : parseVersion w = .ok b) (hprecedence : a.precedence b = .eq) (cs : List Component) :
    Migration.Alike ((migrateInPlace v).run.run cs) ((migrateInPlace w).run.run cs) ↔
      (a.precedence currentVersion = .eq → (a.build = [] ↔ b.build = [])) := by
  rw [run_migrateInPlace_of_precedence hv, run_migrateInPlace_of_precedence hw,
    ← Version.precedence_congr hprecedence]
  cases a.precedence currentVersion with
  | lt => exact iff_of_true (.accepted _ _) nofun
  | gt => exact iff_of_true (.refused _ _ _ _) nofun
  | eq =>
    dsimp only
    by_cases ha : a.build = [] <;> by_cases hb : b.build = []
    · rw [if_pos ha, if_pos hb]
      exact iff_of_true (.accepted _ _) fun _ => iff_of_true ha hb
    · rw [if_pos ha, if_neg hb]
      exact iff_of_false nofun fun h => hb ((h rfl).1 ha)
    · rw [if_neg ha, if_pos hb]
      exact iff_of_false nofun fun h => ha ((h rfl).2 hb)
    · rw [if_neg ha, if_neg hb]
      exact iff_of_true (.refused _ _ _ _) fun _ => iff_of_false ha hb

/-- A pre-release of the current schema comes before it, with build metadata and without. -/
theorem migrateInPlace_alike_iff_candidates :
    ∃ a b, parseVersion "2.0.0-rc.1+b5" = .ok a ∧ parseVersion " 2.0.0-rc.1" = .ok b ∧
      a.precedence b = .eq ∧ a.build ≠ [] ∧ b.build = [] ∧
      Migration.Alike ((migrateInPlace "2.0.0-rc.1+b5").run.run [stockOffer])
        ((migrateInPlace " 2.0.0-rc.1").run.run [stockOffer]) := by
  have ha : parseVersion "2.0.0-rc.1+b5" = .ok ⟨2, 0, 0, ["rc", "1"], ["b5"]⟩ := by rfl
  have hb : parseVersion " 2.0.0-rc.1" = .ok ⟨2, 0, 0, ["rc", "1"], []⟩ := by rfl
  refine ⟨_, _, ha, hb, by decide, by decide, rfl, ?_⟩
  exact (migrateInPlace_alike_iff ha hb (by decide) [stockOffer]).2 fun h => absurd h (by decide)

/-- Of two schemas of the current precedence the one with build metadata is refused. -/
theorem migrateInPlace_not_alike :
    ¬ ∀ (v w : String) (a b : Version), parseVersion v = .ok a → parseVersion w = .ok b →
      a.precedence b = .eq → ∀ cs,
        Migration.Alike ((migrateInPlace v).run.run cs) ((migrateInPlace w).run.run cs) := by
  intro h
  have ha : parseVersion "2.0.0" = .ok ⟨2, 0, 0, [], []⟩ := by rfl
  have hb : parseVersion "2.0.0+x" = .ok ⟨2, 0, 0, [], ["x"]⟩ := by rfl
  have halike := h _ _ _ _ ha hb (by decide) []
  rw [run_migrateInPlace_of_precedence ha, run_migrateInPlace_of_precedence hb] at halike
  cases halike

end MailBlocks
