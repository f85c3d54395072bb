import MailBlocks.Proofs.Fingerprints
import MailBlocks.Proofs.PrintedAnswers

/-!
# Commands that agree

Three commands read a project: one reports on it, one renders it, one compiles it. Each loads the
file for itself and has an exit status of its own, and yet all of them take the same files, show the
same email and stop at the same errors.

* `run_of_parse_error`: every command reports a file that cannot be loaded in the same words.
* `run_validate`, `run_render`, `exists_run_compile`: what each does with a project.
* `exit_validate`, `exit_compile`: where a command stops.
* `commands_agree`: where the commands agree.
-/

namespace MailBlocks

namespace Command

section

variable {read : String → Except String String} {stamp : Stamp} {fresh : Nat → FreshIds}
  {path text : String}

/-! ## Files that cannot be loaded -/

theorem load_of_parse_error (hread : read path = .ok text) {e : LoadError}
    (h : Project.parse text = .error e) : load read path = .error (.failing 1 e.message []) := by
  rw [load, hread]
  dsimp only
  rw [h]
  rfl

/-- **A file that cannot be loaded** is reported in the same words by every command. -/
theorem run_of_parse_error (hread : read path = .ok text) {e : LoadError}
    (h : Project.parse text = .error e) {c : Command} (hc : c.input? = some path) :
    c.run read stamp fresh = .failing 1 e.message [] := by
  have hload := load_of_parse_error hread h
  cases c with
  | help => cases hc
  | defaults type => cases hc
  | validate input strict =>
    obtain rfl := Option.some.inj hc
    rw [run, hload]
    rfl
  | render input output =>
    obtain rfl := Option.some.inj hc
    rw [run, hload]
    rfl
  | compile input strict =>
    obtain rfl := Option.some.inj hc
    rw [run, hload]
    rfl

/-! ## Files that hold a project -/

variable {p : Project}

theorem load_of_parse_ok (hread : read path = .ok text) (h : Project.parse text = .ok p) :
    load read path = .ok p := by
  rw [load, hread]
  dsimp only
  rw [h]
  rfl

theorem run_validate (hload : load read path = .ok p) (strict : Bool) :
    run read stamp fresh (.validate path strict) =
      .printing (if (Lint.check (mode strict) p).valid then 0 else 2)
        ((Lint.check (mode strict) p).toValue.pretty ++ "\n") := by
  rw [run, hload]
  rfl

/-- The email that is rendered does not depend on the identities that are drawn. -/
theorem run_render (hload : load read path = .ok p) (other : Nat → FreshIds)
    (target : Option String) :
    run read stamp fresh (.render path target) =
      match target with
      | some target => ⟨0, "", some (target, Email.render (p.document other) p.settings)⟩
      | none => .printing 0 (Email.render (p.document other) p.settings) := by
  have hrender : Email.render (p.document fresh) p.settings =
      Email.render (p.document other) p.settings :=
    Email.renderComponents_fresh fresh other p.components p.settings
  rw [run, hload, ← hrender]
  cases target <;> rfl

theorem run_compile_of_ok (hload : load read path = .ok p) {strict : Bool} {email : CompiledEmail}
    (h : MailBlocks.compile (mode strict) stamp fresh p = .ok email) :
    run read stamp fresh (.compile path strict) =
      .printing 0 (email.answer.sorted.pretty ++ "\n") := by
  simp only [run, hload, bind, Except.bind, h]
  rfl

theorem run_compile_of_error (hload : load read path = .ok p) {strict : Bool} {e : CompileError}
    (h : MailBlocks.compile (mode strict) stamp fresh p = .error e) :
    run read stamp fresh (.compile path strict) = .failing 2 e.message [] := by
  simp only [run, hload, bind, Except.bind, h]
  rfl

/-- **Outside the strict mode** every project is compiled, and its email is printed. -/
theorem exists_run_compile (hload : load read path = .ok p) (other : Nat → FreshIds) :
    ∃ email, MailBlocks.compile .warn stamp fresh p = .ok email ∧
      email.html = Email.render (p.document other) p.settings ∧
      email.report.componentCount = p.components.length ∧
      run read stamp fresh (.compile path false) =
        ⟨0, email.answer.sorted.pretty ++ "\n", none⟩ := by
  have hvalid : (Lint.check .warn p).valid = true := (Lint.valid_check .warn p).2 nofun
  obtain ⟨email, hemail, hcount⟩ : ∃ email, MailBlocks.compile .warn stamp fresh p = .ok email ∧
      email.report.componentCount = p.components.length :=
    ⟨_, compile_of_valid hvalid, rfl⟩
  exact ⟨email, hemail, (of_compile_eq_ok hemail other).1, hcount, run_compile_of_ok hload hemail⟩

/-! ## Exit statuses -/

theorem mode_eq_block_iff {strict : Bool} : mode strict = .block ↔ strict = true := by
  cases strict <;> decide

/-- **The check stops** at shared identities in the strict mode, and never otherwise. -/
theorem exit_validate (hload : load read path = .ok p) (strict : Bool) :
    (run read stamp fresh (.validate path strict)).exit =
      if strict = true ∧ ¬ (p.components.map (·.id)).Nodup then 2 else 0 := by
  have hvalid := Lint.valid_check (mode strict) p
  rw [mode_eq_block_iff] at hvalid
  rw [run_validate hload]
  change (if (Lint.check (mode strict) p).valid = true then (0 : UInt8) else 2) = _
  by_cases hstop : strict = true ∧ ¬ (p.components.map (·.id)).Nodup
  · rw [if_pos hstop, if_neg fun h => hstop.2 (hvalid.1 h hstop.1)]
  · rw [if_neg hstop, if_pos (hvalid.2 fun hstrict => by
      by_contra hshared
      exact hstop ⟨hstrict, hshared⟩)]

/-- **The compiler stops** where the check does. -/
theorem exit_compile (hload : load read path = .ok p) (strict : Bool) :
    (run read stamp fresh (.compile path strict)).exit =
      if strict = true ∧ ¬ (p.components.map (·.id)).Nodup then 2 else 0 := by
  have hstops : (∃ e, MailBlocks.compile (mode strict) stamp fresh p = .error e) ↔
      strict = true ∧ ¬ (p.components.map (·.id)).Nodup := by
    rw [exists_compile_eq_error_iff, mode_eq_block_iff]
  cases hcompile : MailBlocks.compile (mode strict) stamp fresh p with
  | error e =>
    rw [if_pos (hstops.1 ⟨e, hcompile⟩), run_compile_of_error hload hcompile]
    rfl
  | ok email =>
    have hruns : ¬ (strict = true ∧ ¬ (p.components.map (·.id)).Nodup) := by
      rw [← hstops, hcompile]
      rintro ⟨e, he⟩
      cases he
    rw [if_neg hruns, run_compile_of_ok hload hcompile]
    rfl

theorem exit_render (hload : load read path = .ok p) (target : Option String) :
    (run read stamp fresh (.render path target)).exit = 0 := by
  rw [run_render hload fresh]
  cases target <;> rfl

/-- A file that holds a project is not reported as one that cannot be loaded. -/
theorem exit_ne_one (hload : load read path = .ok p) {c : Command} (hc : c.input? = some path) :
    (c.run read stamp fresh).exit ≠ 1 := by
  cases c with
  | help => cases hc
  | defaults type => cases hc
  | validate input strict =>
    obtain rfl := Option.some.inj hc
    rw [exit_validate hload]
    split <;> decide
  | render input output =>
    obtain rfl := Option.some.inj hc
    rw [exit_render hload]
    decide
  | compile input strict =>
    obtain rfl := Option.some.inj hc
    rw [exit_compile hload]
    split <;> decide

theorem exit_eq_one_iff (hread : read path = .ok text) {c : Command} (hc : c.input? = some path) :
    (c.run read stamp fresh).exit = 1 ↔ ∃ e, Project.parse text = .error e := by
  cases hparse : Project.parse text with
  | error e =>
    rw [run_of_parse_error hread hparse hc]
    exact iff_of_true rfl ⟨e, rfl⟩
  | ok p =>
    refine iff_of_false (exit_ne_one (load_of_parse_ok hread hparse) hc) ?_
    rintro ⟨e, he⟩
    cases he

end

/-- **The commands agree on every file.** Each command that reads it exits with status 1 if and only
if it holds no project; what it prints is then the line of an object with the same message, which is
read back as that object. Of a project, the email that is compiled outside the strict mode is what
is rendered, printed as it is or written to a file, whatever identities and marks are drawn; the
compiler prints an object that holds it under its keys, and which is read back if the number of
components fits 64 bits. The strict check stops with status 2 where the strict compiler does, which
is where two components share an identity. -/
theorem commands_agree (read : String → Except String String) (path text : String)
    (hread : read path = .ok text) :
    (∀ (c : Command) (stamp : Stamp) (fresh : Nat → FreshIds), c.input? = some path →
      ((c.run read stamp fresh).exit = 1 ↔ ∃ e, Project.parse text = .error e) ∧
      ∀ e, Project.parse text = .error e →
        c.run read stamp fresh = ⟨1, (errorObject e.message).compact ++ "\n", none⟩ ∧
        Json.parse (c.run read stamp fresh).stdout = .ok (errorObject e.message)) ∧
    ∀ (p : Project) (stamp stamp' : Stamp) (fresh fresh' : Nat → FreshIds),
      Project.parse text = .ok p →
      (∃ email answer, MailBlocks.compile .warn stamp fresh p = .ok email ∧
        email.html = Email.render (p.document fresh') p.settings ∧
        run read stamp' fresh' (.render path none) = ⟨0, email.html, none⟩ ∧
        (∀ target, run read stamp' fresh' (.render path (some target)) =
          ⟨0, "", some (target, email.html)⟩) ∧
        run read stamp fresh (.compile path false) = ⟨0, answer.pretty ++ "\n", none⟩ ∧
        answer.member? "success" = some (.bool true) ∧
        (answer.member? "email").bind (Json.Value.member? "html") = some (.string email.html) ∧
        (p.components.length ≤ Json.maxNatural →
          Json.parse (run read stamp fresh (.compile path false)).stdout = .ok answer)) ∧
      (run read stamp fresh (.validate path true)).exit =
        (if (p.components.map (·.id)).Nodup then 0 else 2) ∧
      (run read stamp' fresh' (.compile path true)).exit =
        (if (p.components.map (·.id)).Nodup then 0 else 2) ∧
      (run read stamp fresh (.validate path false)).exit = 0 := by
  refine ⟨fun c stamp fresh hc => ?_, fun p stamp stamp' fresh fresh' hparse => ?_⟩
  · refine ⟨exit_eq_one_iff hread hc, fun e he => ?_⟩
    rw [run_of_parse_error hread he hc, Outcome.failing_eq]
    exact ⟨rfl, parse_errorObject e.message⟩
  · have hload := load_of_parse_ok hread hparse
    have hstatus : (if true = true ∧ ¬ (p.components.map (·.id)).Nodup then (2 : UInt8) else 0) =
        if (p.components.map (·.id)).Nodup then 0 else 2 := by
      by_cases hdistinct : (p.components.map (·.id)).Nodup <;> simp [hdistinct]
    refine ⟨?_, ?_, ?_, ?_⟩
    · obtain ⟨email, hemail, hhtml, hcount, hprinted⟩ := exists_run_compile hload fresh'
      obtain ⟨hsuccess, hheld⟩ := email.member?_answer
      refine ⟨email, email.answer.sorted, hemail, hhtml, ?_, fun target => ?_, hprinted, hsuccess,
        hheld, fun hfits => ?_⟩
      · rw [run_render hload fresh', hhtml]
        rfl
      · rw [run_render hload fresh', hhtml]
      · rw [hprinted]
        exact CompiledEmail.parse_answer (hcount ▸ hfits)
    · rw [exit_validate hload, hstatus]
    · rw [exit_compile hload, hstatus]
    · rw [exit_validate hload, if_neg (by simp)]

/-- Every file has the same text. -/
def holding (text : String) : String → Except String String := fun _ => .ok text

/-- A bare list of components, whose identities are a number and its digits. -/
def sameIdText : String :=
  "[\x7b\"id\": 1, \"type\": \"header\"\x7d, \x7b\"id\": \"1\", \"type\": \"spacer\"\x7d]"

/-- The project that it is. -/
def sameIdProject : Project :=
  .new .standard [⟨"1", "header", ∅⟩, ⟨"1", "spacer", ∅⟩]

/-- The email of that project. -/
def sameIdEmail : String :=
  Email.render (sameIdProject.document fun _ _ => default) sameIdProject.settings

/-- A text that ends too early. -/
def unfinishedText : String := "\x7b"

/-- The line that reports it. -/
def unfinishedLine : String :=
  "\x7b\"error\":\"Invalid project JSON: EOF while parsing an object at line 1 column 1\"," ++
    "\"success\":false\x7d\n"

/-- Shared identities stop the strict commands only, and the others show the email. A text that ends
too early is reported by all of them. -/
theorem commands_agree_sameId :
    holding sameIdText "mail.json" = .ok sameIdText ∧
      (run (holding sameIdText) ⟨"1", ""⟩ (fun _ _ => default) (.validate "mail.json" true)).exit =
        2 ∧
      (run (holding sameIdText) ⟨"2", ""⟩ (fun _ _ => default) (.compile "mail.json" true)).exit =
        2 ∧
      (run (holding sameIdText) ⟨"1", ""⟩ (fun _ _ => default) (.validate "mail.json" false)).exit =
        0 ∧
      run (holding sameIdText) ⟨"2", ""⟩ (fun _ _ => default) (.render "mail.json" none) =
        ⟨0, sameIdEmail, none⟩ ∧
      (∃ answer, Json.parse (run (holding sameIdText) ⟨"1", ""⟩ (fun _ _ => default)
          (.compile "mail.json" false)).stdout = .ok answer ∧
        (answer.member? "email").bind (Json.Value.member? "html") = some (.string sameIdEmail)) ∧
      holding unfinishedText "mail.json" = .ok unfinishedText ∧
      run (holding unfinishedText) ⟨"1", ""⟩ (fun _ _ => default) (.compile "mail.json" true) =
        ⟨1, unfinishedLine, none⟩ := by
  have hparse : Project.parse sameIdText = .ok sameIdProject :=
    Json.eq_ok_of_toOption (by decide +kernel)
  have hshared : ¬ (sameIdProject.components.map (·.id)).Nodup := by decide
  obtain ⟨-, hagree⟩ := commands_agree (holding sameIdText) "mail.json" sameIdText rfl
  obtain ⟨⟨email, answer, -, hhtml, hrender, -, -, -, hheld, hread⟩, hvalidate, hcompile,
      hlenient⟩ :=
    hagree sameIdProject ⟨"1", ""⟩ ⟨"2", ""⟩ (fun _ _ => default) (fun _ _ => default) hparse
  rw [if_neg hshared] at hvalidate hcompile
  rw [hhtml] at hrender hheld
  obtain ⟨e, he, hmessage⟩ : ∃ e, Project.parse unfinishedText = .error e ∧
      e.message = "Invalid project JSON: EOF while parsing an object at line 1 column 1" :=
    ⟨_, rfl, by decide +kernel⟩
  obtain ⟨hfails, -⟩ := commands_agree (holding unfinishedText) "mail.json" unfinishedText rfl
  obtain ⟨hline, -⟩ :=
    (hfails (.compile "mail.json" true) ⟨"1", ""⟩ (fun _ _ => default) rfl).2 e he
  have hwritten : (errorObject e.message).compact ++ "\n" = unfinishedLine := by
    rw [hmessage]
    decide
  rw [hwritten] at hline
  exact ⟨rfl, hvalidate, hcompile, hlenient, hrender, ⟨answer, hread (by decide), hheld⟩, rfl,
    hline⟩

end Command

end MailBlocks
