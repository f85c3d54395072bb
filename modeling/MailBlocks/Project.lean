import MailBlocks.Digest
import MailBlocks.Document
import MailBlocks.Settings
import MailBlocks.Version

/-!
# Projects

A project is what is stored: a schema version, design settings and components. Projects of an older
schema are brought up to the current one when they are read, and are always written in it; a project
of a newer schema is refused. A bare array of components is a project of the oldest schema.

* `migrateInPlace`, `migrate`: bring components up to the current schema.
* `Project.parse`: reads a stored project.
* `Project.fingerprint`: the digest of its canonical form.
-/

namespace MailBlocks

/-- The current schema. -/
def currentVersion : Version := .release 2 0 0

/-- The schema of projects that name none. -/
def oldestVersion : String := "1.0.0"

/-- **Why a project cannot be loaded.** -/
inductive LoadError where
  | json (error : Json.Error)
  | unreadable (path reason : String)
  | invalidVersion (version : String)
  | unsupportedVersion (found supported : String)
  deriving Repr

namespace LoadError

/-- The wording. -/
def message : LoadError → String
  | json e => "Invalid project JSON: " ++ e.message
  | unreadable path reason => "Failed to read " ++ path ++ ": " ++ reason
  | invalidVersion version => "Invalid schema version: " ++ version
  | unsupportedVersion found supported =>
    "Schema version " ++ found ++ " is newer than supported " ++ supported

end LoadError

/-- Moves the text under an old key to a new one, which keeps a text that it has already. -/
def Bag.rename (b : Bag) (old new : String) : Bag :=
  match b.get? old with
  | some text => (b.erase old).insertNew new text
  | none => b

/-- Turns the flag under `fullWidth` into a width. -/
def renameFullWidth (b : Bag) : Bag :=
  match b.get? "fullWidth" with
  | some text =>
    (b.erase "fullWidth").insertNew "widthType" (if flag? text = some true then "full" else "auto")
  | none => b

/-- Moves the number under a key of its own to the common key for numbers of vehicles, together with
its kind, unless that key is taken. -/
def renameNumber (b : Bag) (old : String) (kind : VehicleNumber) : Bag :=
  match b.get? old with
  | some text =>
    let b := b.erase old
    if b.contains "stockVinValue" then b
    else (b.insert "stockVinValue" text).insert "stockVinType" kind.name
  | none => b

/-- The bag of a component of the first schema, with the keys of the second. -/
def renameFirstKeys (type : String) (b : Bag) : Bag :=
  match type with
  | "header" | "text_block" => b.rename "alignment" "textAlign"
  | "button" => renameFullWidth ((b.rename "url" "link").rename "bgColor" "backgroundColor")
  | "spacer" => b.rename "transparent" "matchBackground"
  | "service_offer" => b.rename "couponBorder" "couponShowBorder"
  | "sales_offer" =>
    (renameNumber (renameNumber b "stockNumber" .stock) "vin" .vin).rename "imagePosition" "layout"
  | _ => b

/-- A step from the schemas before `target` to `target`. -/
structure MigrationStep where
  target : String
  apply : String → Bag → Bag

/-- The steps, oldest first. -/
def migrationSteps : List MigrationStep :=
  [⟨"2.0.0", renameFirstKeys⟩]

/-- A component after a step. -/
def MigrationStep.applyTo (s : MigrationStep) (c : Component) : Component :=
  { c with data := s.apply c.type c.data }

/-- The version that a text gives. -/
def parseVersion (s : String) : Except LoadError Version :=
  match Version.ofText? s with
  | some v => .ok v
  | none => .error (.invalidVersion s)

/-- What changes components where they stand, and may fail on the way. -/
abbrev Migration := ExceptT LoadError (StateM (List Component))

/-- Takes a step with all components if it leads to a later schema than theirs, up to the current
one. -/
def MigrationStep.take (found : Version) (s : MigrationStep) : Migration Unit := do
  let target ← parseVersion s.target
  if target.compare found = .gt ∧ target.compare currentVersion ≠ .gt then
    modify fun cs => cs.map s.applyTo

/-- **Brings components up to the current schema** where they stand, by all steps to a later schema
than theirs. Gives the version that they conform to now. -/
def migrateInPlace (version : String) : Migration Version := do
  let found ← parseVersion version
  if found.compare currentVersion = .gt then
    throw (.unsupportedVersion found.text currentVersion.text)
  forM migrationSteps (·.take found)
  pure currentVersion

/-- The components brought up to the current schema, with the version that they conform to now. -/
def migrate (version : String) (cs : List Component) :
    Except LoadError (Version × List Component) :=
  let (outcome, cs) := (migrateInPlace version).run.run cs
  outcome.map fun v => (v, cs)

/-- **A project.** -/
structure Project where
  schemaVersion : String
  settings : DesignSettings
  components : List Component
  deriving DecidableEq

namespace Project

/-- A project of the current schema. -/
def new (settings : DesignSettings) (components : List Component) : Project :=
  ⟨currentVersion.text, settings, components⟩

/-- The stored fields, each of which may be missing. -/
def record : Json.Record Project where
  name := "Project"
  start := ⟨oldestVersion, .standard, []⟩
  fields :=
    [.of "schemaVersion" false .string fun v p => { p with schemaVersion := v },
     .of "settings" false DesignSettings.record.decoder fun s p => { p with settings := s },
     .of "components" false (.sequence Component.decoder) fun cs p => { p with components := cs }]

/-- The project that a stored value is, as it was stored. -/
def ofValue (v : Json.Value) : Except Json.Error Project :=
  match v with
  | .array items =>
    ((Json.Decoder.sequence Component.decoder).decode (.array items)).map fun cs =>
      ⟨oldestVersion, .standard, cs⟩
  | v => record.decoder.decode v

/-- **Reads a stored project** and brings it up to the current schema. -/
def parse (text : String) : Except LoadError Project := do
  let p ← ((Json.parse text).bind ofValue).mapError .json
  let (version, cs) ← migrate p.schemaVersion p.components
  .ok { p with schemaVersion := version.text, components := cs }

/-- The project as a stored object. -/
def toValue (p : Project) : Json.Value :=
  .object [("schemaVersion", .string p.schemaVersion), ("settings", p.settings.toValue),
    ("components", .array (p.components.map Component.toValue))]

/-- **The stored form.** -/
def text (p : Project) : String := p.toValue.pretty

/-- The canonical form. -/
def canonical (p : Project) : String := p.toValue.canonical

/-- **The fingerprint**: the digest of the canonical form. -/
def fingerprint (p : Project) : String := Digest.ofText p.canonical

/-- The document of the components. -/
def document (fresh : Nat → FreshIds) (p : Project) : Document :=
  .ofComponents fresh p.components

end Project

end MailBlocks
