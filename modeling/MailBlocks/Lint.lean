import MailBlocks.Markup.Url
import MailBlocks.Project

/-!
# Checking projects

Rules look at the stored components and report what the finished email would not show as meant.
Nothing that they report stops an email from being built, except errors in the strict mode.

* `rules`: the rules, in the order of their reports.
* `check`: the report on a project.
-/

namespace MailBlocks.Lint

/-- How serious a violation is. -/
inductive Severity where
  | error
  | warning
  | info
  deriving DecidableEq, Repr

namespace Severity

/-- All degrees. -/
def all : List Severity := [error, warning, info]

/-- The name of a degree. -/
def name : Severity → String
  | error => "error"
  | warning => "warning"
  | info => "info"

/-- The stored form. -/
def decoder : Json.Decoder Severity :=
  .oneOf (all.map fun s => (s.name, s))

end Severity

/-- What is done about violations: errors block, or all are only reported, more or less loudly. -/
inductive Mode where
  | block
  | warn
  | log
  deriving DecidableEq, Repr

namespace Mode

/-- All modes. -/
def all : List Mode := [block, warn, log]

/-- The name of a mode. -/
def name : Mode → String
  | block => "block"
  | warn => "warn"
  | log => "log"

/-- The stored form. -/
def decoder : Json.Decoder Mode :=
  .oneOf (all.map fun m => (m.name, m))

end Mode

/-- **A violation of a rule** by a component. -/
structure Violation where
  rule : String
  severity : Severity
  message : String
  component : Option String
  /-- What the rule objects to. -/
  actual : Option String
  /-- What could be done. -/
  remedies : List String
  deriving DecidableEq, Repr

namespace Violation

/-- A text or null. -/
def optional : Option String → Json.Value
  | some s => .string s
  | none => .null

/-- The violation as an object. -/
def toValue (v : Violation) : Json.Value :=
  .object [("rule", .string v.rule), ("severity", .string v.severity.name),
    ("message", .string v.message), ("component_id", optional v.component),
    ("actual", optional v.actual), ("remediation", .array (v.remedies.map .string))]

end Violation

/-- A rule reports the violations of a list of components, in their order. -/
abbrev Rule := List Component → List Violation

/-- The components whose identity an earlier one has, `seen` being the identities before. -/
def repeated : List String → List Component → List Component
  | _, [] => []
  | seen, c :: cs =>
    if seen.contains c.id then c :: repeated seen cs else repeated (c.id :: seen) cs

/-- No two components have the same identity. -/
def duplicateId : Rule := fun cs =>
  (repeated [] cs).map fun c =>
    ⟨"duplicate_id", .error, "Component id " ++ c.id ++ " is used more than once", some c.id, none,
      ["Recreate the duplicated component so it gets a fresh id"]⟩

/-- Every component is of a known kind. -/
def unknownType : Rule := fun cs =>
  (cs.filter fun c => c.kind?.isNone).map fun c =>
    ⟨"unknown_type", .warning, "Unknown component type renders nothing", some c.id, some c.type, []⟩

/-- Whether a text is a number without a unit. -/
def isPlainNumber (s : String) : Bool :=
  let cs := Text.trimBlank s.toList
  (number? s).isSome && (Text.dropTail "%".toList cs).isNone &&
    (Text.dropTail "px".toList cs).isNone

/-- The width and the thickness of dividers are plain numbers. -/
def numericAttribute : Rule := fun cs =>
  (cs.filter fun c => c.kind? == some .divider).flatMap fun c =>
    ["width", "thickness"].filterMap fun key =>
      match c.data.get? key with
      | some s =>
        if isPlainNumber s then none
        else some ⟨"numeric_attribute", .warning,
          "Divider " ++ key ++ " is not a plain number and is emitted as-is", some c.id, some s,
          ["Use digits only, e.g. \"100\""]⟩
      | none => none

/-- The additional offers of sales offers can be read. -/
def additionalOffers : Rule := fun cs =>
  (cs.filter fun c => c.kind? == some .salesOffer).filterMap fun c =>
    match c.data.get? "additionalOffers" with
    | some stored =>
      match AdditionalOffer.decode (fun _ => default) stored with
      | .error e =>
        some ⟨"additional_offers", .warning,
          "Additional offers could not be decoded and will not render", some c.id, some e.message,
          ["Reset the additional offers list"]⟩
      | .ok _ => none
    | none => none

/-- The attributes that hold addresses. -/
def urlKeys : List String := ["link", "src", "buttonLink", "imageUrl", "imageLink"]

/-- No address is blocked. -/
def blockedUrl : Rule := fun cs =>
  cs.flatMap fun c =>
    urlKeys.filterMap fun key =>
      match c.data.get? key with
      | some s =>
        if Markup.isBlockedUrl s then
          some ⟨"unsafe_url", .warning, key ++ " uses a blocked scheme and is replaced with #",
            some c.id, some s, ["Use an https:// link"]⟩
        else none
      | none => none

/-- No attribute has braces that are left over from a merge field. The stored list of additional
offers is no text of its own. -/
def mergeField : Rule := fun cs =>
  cs.flatMap fun c =>
    c.data.entries.filterMap fun (key, s) =>
      if key != "additionalOffers" && MergeField.unbalanced s then
        some ⟨"merge_field", .info, key ++ " contains an incomplete merge field", some c.id, some s,
          ["Merge fields look like \x7b\x7brecipient.first_name\x7d\x7d"]⟩
      else none

/-- **The rules**, in the order of their reports. -/
def rules : List Rule :=
  [duplicateId, unknownType, numericAttribute, additionalOffers, blockedUrl, mergeField]

/-- **A report** on a project. -/
structure Report where
  valid : Bool
  violations : List Violation
  schemaVersion : String
  componentCount : Nat
  deriving DecidableEq, Repr

namespace Report

/-- Whether there are errors. -/
def hasErrors (r : Report) : Bool :=
  r.violations.any (·.severity == .error)

/-- The number of violations of a degree. -/
def count (r : Report) (s : Severity) : Nat :=
  (r.violations.filter (·.severity == s)).length

/-- The report as an object. -/
def toValue (r : Report) : Json.Value :=
  .object [("valid", .bool r.valid), ("violations", .array (r.violations.map Violation.toValue)),
    ("schema_version", .string r.schemaVersion),
    ("component_count", .number (.int r.componentCount))]

end Report

/-- **Checks a project** by all rules. It is invalid if there are errors and they block. -/
def check (mode : Mode) (p : Project) : Report :=
  let violations := rules.flatMap fun rule => rule p.components
  let hasErrors := violations.any (·.severity == .error)
  ⟨!(mode == .block && hasErrors), violations, p.schemaVersion, p.components.length⟩

end MailBlocks.Lint
