import MailBlocks.Email.Render
import MailBlocks.Lint

/-!
# Compiling projects

A project is checked, rendered and fingerprinted in one go. Only errors in the strict mode keep an
email from being built.

* `compile`: compiles a project that has been loaded.
* `compileText`: loads a stored project and compiles it.
-/

namespace MailBlocks

/-- The version of the rules by which emails are built. -/
def engineVersion : String := "2.0.0"

/-- What a compiled email is marked with: an identity and a time of its own. -/
structure Stamp where
  id : String
  createdAt : String
  deriving DecidableEq, Repr

/-- **A compiled email** with its fingerprints and the report on its project. -/
structure CompiledEmail where
  stamp : Stamp
  engineVersion : String
  schemaVersion : String
  projectHash : String
  htmlHash : String
  report : Lint.Report
  html : String
  deriving DecidableEq, Repr

/-- The email as an object. -/
def CompiledEmail.toValue (e : CompiledEmail) : Json.Value :=
  .object [("id", .string e.stamp.id), ("engine_version", .string e.engineVersion),
    ("schema_version", .string e.schemaVersion), ("created_at", .string e.stamp.createdAt),
    ("project_hash", .string e.projectHash), ("html_hash", .string e.htmlHash),
    ("validation", e.report.toValue), ("html", .string e.html)]

/-- **Why no email is built.** -/
inductive CompileError where
  | load (error : LoadError)
  | invalid (errors : List Lint.Violation)
  deriving Repr

/-- The wording. -/
def CompileError.message : CompileError → String
  | load e => e.message
  | invalid errors =>
    "Validation failed: " ++
      String.intercalate "; " (errors.map fun v => v.rule ++ ": " ++ v.message)

/-- **Compiles a project.** `fresh` supplies the identities of additional offers that have none. -/
def compile (mode : Lint.Mode) (stamp : Stamp) (fresh : Nat → FreshIds) (p : Project) :
    Except CompileError CompiledEmail :=
  let report := Lint.check mode p
  if !report.valid then
    .error (.invalid (report.violations.filter (·.severity == .error)))
  else
    let html := Email.render (p.document fresh) p.settings
    .ok {
      stamp := stamp
      engineVersion := engineVersion
      schemaVersion := p.schemaVersion
      projectHash := p.fingerprint
      htmlHash := Digest.ofText html
      report := report
      html := html }

/-- **Loads a stored project and compiles it.** -/
def compileText (mode : Lint.Mode) (stamp : Stamp) (fresh : Nat → FreshIds) (text : String) :
    Except CompileError CompiledEmail :=
  ((Project.parse text).mapError .load).bind (compile mode stamp fresh)

end MailBlocks
