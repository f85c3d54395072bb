import Mathlib.Data.Finset.Card
import MailBlocks.Compile
import MailBlocks.Proofs.OfferIdentities
import MailBlocks.Proofs.Reports

/-!
# The gate in front of an email

In the strict mode a project whose components share an identity is refused, with one entry for each
component whose identity an earlier one has. Nothing else is ever refused, and what is reported or
built does not depend on the mode.

* `Lint.repeats`: the components whose identity an earlier one has, by their places.
* `Lint.repeated_nil`: they are the ones that are found in one pass.
* `Lint.length_repeats`: how many there are.
* `compile_gate`: when a project is refused, what is said then, and what is built otherwise.
-/

namespace MailBlocks

namespace Lint

/-! ## Repeated identities -/

/-- The components in front of which stands one with the same identity, in their order. -/
def repeats (cs : List Component) : List Component :=
  (cs.zipIdx.filter fun x => (cs.take x.2).any (·.id == x.1.id)).map Prod.fst

/-- One pass behind some components, whose identities it has seen. -/
theorem repeated_eq {seen : List String} (before : List Component)
    (h : ∀ id, id ∈ seen ↔ ∃ c ∈ before, c.id = id) (cs : List Component) :
    repeated seen cs =
      ((cs.zipIdx before.length).filter fun x =>
        ((before ++ cs).take x.2).any (·.id == x.1.id)).map Prod.fst := by
  induction cs generalizing seen before with
  | nil => rfl
  | cons c cs ih =>
    have hany : before.any (·.id == c.id) = seen.contains c.id := by
      rw [Bool.eq_iff_iff, List.any_eq_true, List.contains_iff_mem, h]
      simp only [beq_iff_eq]
    have hassoc : before ++ c :: cs = (before ++ [c]) ++ cs := by simp
    -- the component itself joins those in front of the rest
    have hrest : ∀ {seen' : List String}, (∀ id, id ∈ seen' ↔ id = c.id ∨ id ∈ seen) →
        repeated seen' cs =
          ((cs.zipIdx (before.length + 1)).filter fun x =>
            ((before ++ c :: cs).take x.2).any (·.id == x.1.id)).map Prod.fst := by
      intro seen' hseen'
      have hbefore : ∀ id, id ∈ seen' ↔ ∃ d ∈ before ++ [c], d.id = id := by
        intro id
        rw [hseen', h]
        simp only [List.mem_append, List.mem_singleton, or_and_right, exists_or,
          exists_eq_left]
        rw [or_comm, eq_comm (a := id)]
      rw [hassoc, ih (before ++ [c]) hbefore, List.length_append, List.length_singleton]
    rw [List.zipIdx_cons, List.filter_cons, List.take_left, hany, repeated]
    cases hseen : seen.contains c.id with
    | true =>
      have hmem : c.id ∈ seen := List.contains_iff_mem.1 hseen
      rw [if_pos rfl, if_pos rfl, List.map_cons]
      exact congrArg (c :: ·) (hrest fun id =>
        ⟨.inr, fun hid => hid.elim (fun heq => heq ▸ hmem) fun hin => hin⟩)
    | false =>
      rw [if_neg Bool.false_ne_true, if_neg Bool.false_ne_true]
      exact hrest fun id => List.mem_cons

/-- **What one pass finds** are the components that repeat an identity. -/
theorem repeated_nil (cs : List Component) : repeated [] cs = repeats cs :=
  repeated_eq [] (by simp) cs

/-- One pass finds a component or an identity that it has not seen before at every place. -/
theorem length_repeated (seen : List String) (cs : List Component) :
    (repeated seen cs).length + ((cs.map (·.id)).toFinset \ seen.toFinset).card = cs.length := by
  induction cs generalizing seen with
  | nil => simp [repeated]
  | cons c cs ih =>
    rw [repeated, List.map_cons, List.toFinset_cons, List.length_cons]
    split
    case isTrue h =>
      have hmem : c.id ∈ seen.toFinset := by simpa using h
      rw [Finset.insert_sdiff_of_mem _ hmem, List.length_cons, ← ih seen]
      omega
    case isFalse h =>
      have hmem : c.id ∉ seen.toFinset := by simpa using h
      have hcard : (insert c.id ((cs.map (·.id)).toFinset \ seen.toFinset)).card =
          ((cs.map (·.id)).toFinset \ (c.id :: seen).toFinset).card + 1 := by
        rw [List.toFinset_cons, Finset.sdiff_insert, ← Finset.card_insert_of_notMem
          (Finset.notMem_erase _ _)]
        congr 1
        ext id
        by_cases hid : id = c.id <;> simp [hid]
      rw [Finset.insert_sdiff_of_notMem _ hmem, hcard, ← ih (c.id :: seen)]
      omega

/-- **The number of components that repeat an identity** and the number of identities make up the
number of components. -/
theorem length_repeats (cs : List Component) :
    (repeats cs).length + (cs.map (·.id)).toFinset.card = cs.length := by
  have h := length_repeated [] cs
  rwa [repeated_nil, List.toFinset_nil, Finset.sdiff_empty] at h

/-- No component repeats an identity if and only if all identities differ. -/
theorem repeats_eq_nil_iff {cs : List Component} :
    repeats cs = [] ↔ (cs.map (·.id)).Nodup := by
  have hlength := length_repeats cs
  rw [← List.length_eq_zero_iff, ← Multiset.coe_nodup, ← Multiset.toFinset_card_eq_card_iff_nodup]
  simp only [List.toFinset_coe, Multiset.coe_card, List.length_map]
  omega

/-- What the message says of a component that repeats an identity. -/
def repeatEntry (c : Component) : String :=
  "duplicate_id: Component id " ++ c.id ++ " is used more than once"

theorem map_duplicateId (cs : List Component) :
    (duplicateId cs).map (fun v => v.rule ++ ": " ++ v.message) =
      (repeats cs).map repeatEntry := by
  have hentry : ∀ c : Component, "duplicate_id" ++ ": " ++
      ("Component id " ++ c.id ++ " is used more than once") = repeatEntry c := by
    intro c
    unfold repeatEntry
    simp [← String.append_assoc]
  rw [duplicateId, repeated_nil, List.map_map]
  exact List.map_congr_left fun c _ => hentry c

/-- The errors of a report are none if and only if all identities differ. -/
theorem errors_eq_nil_iff (mode : Mode) {p : Project} :
    (check mode p).violations.filter (·.severity == .error) = [] ↔
      (p.components.map (·.id)).Nodup := by
  rw [errors_check, duplicateId, List.map_eq_nil_iff, repeated_nil, repeats_eq_nil_iff]

/-- A report is valid unless errors block. -/
theorem valid_check (mode : Mode) (p : Project) :
    (check mode p).valid = true ↔ (mode = .block → (p.components.map (·.id)).Nodup) := by
  have hany : (check mode p).violations.any (·.severity == .error) = true ↔
      ¬ (p.components.map (·.id)).Nodup := by
    rw [← errors_eq_nil_iff mode, List.any_eq_true, List.filter_eq_nil_iff]
    simp only [not_forall, not_not, exists_prop]
  have hvalid : (check mode p).valid =
      !(mode == .block && (check mode p).violations.any (·.severity == .error)) := rfl
  rw [hvalid, Bool.not_eq_true', Bool.and_eq_false_iff, ← Bool.not_eq_true, ← Bool.not_eq_true,
    hany, beq_iff_eq, not_not, imp_iff_not_or]

end Lint

/-! ## The gate -/

variable {mode : Lint.Mode} {stamp : Stamp} {fresh : Nat → FreshIds} {p : Project}

/-- A project that is refused is refused for its repeated identities. -/
theorem compile_of_invalid (h : (Lint.check mode p).valid = false) :
    compile mode stamp fresh p = .error (.invalid (Lint.duplicateId p.components)) := by
  rw [← Lint.errors_check mode p, compile]
  simp only [h, Bool.not_false, if_true]

/-- All other projects are built. -/
theorem compile_of_valid (h : (Lint.check mode p).valid = true) :
    compile mode stamp fresh p =
      .ok ⟨stamp, engineVersion, p.schemaVersion, p.fingerprint,
        Digest.ofText (Email.render (p.document fresh) p.settings), Lint.check mode p,
        Email.render (p.document fresh) p.settings⟩ := by
  rw [compile]
  simp only [h, Bool.not_true, Bool.false_eq_true, if_false]

/-- What is said of a project that is refused. -/
theorem message_of_compile_eq_error {e : CompileError} (h : compile mode stamp fresh p = .error e) :
    e.message = "Validation failed: " ++
      String.intercalate "; " ((Lint.repeats p.components).map Lint.repeatEntry) := by
  cases hvalid : (Lint.check mode p).valid with
  | true => simp [compile_of_valid hvalid] at h
  | false =>
    rw [compile_of_invalid hvalid, Except.error.injEq] at h
    rw [← h, ← Lint.map_duplicateId]
    rfl

/-- What is built of a project does not depend on the mode or on the identities that are drawn. -/
theorem of_compile_eq_ok {email : CompiledEmail} (h : compile mode stamp fresh p = .ok email)
    (other : Nat → FreshIds) :
    email.html = Email.render (p.document other) p.settings ∧
      email.htmlHash = Digest.ofText email.html ∧ email.projectHash = p.fingerprint ∧
      email.report.violations = Lint.rules.flatMap fun rule => rule p.components := by
  cases hvalid : (Lint.check mode p).valid with
  | true =>
    rw [compile_of_valid hvalid, Except.ok.injEq] at h
    subst h
    have hrender : Email.render (p.document fresh) p.settings =
        Email.render (p.document other) p.settings :=
      Email.renderComponents_fresh fresh other p.components p.settings
    dsimp only
    exact ⟨hrender, rfl, rfl, rfl⟩
  | false => simp [compile_of_invalid hvalid] at h

/-- A project is refused in the strict mode if two components share an identity, and otherwise
never. -/
theorem exists_compile_eq_error_iff :
    (∃ e, compile mode stamp fresh p = .error e) ↔
      mode = .block ∧ ¬ (p.components.map (·.id)).Nodup := by
  have hvalid := Lint.valid_check mode p
  cases hv : (Lint.check mode p).valid with
  | true =>
    rw [compile_of_valid hv]
    simpa using hvalid.1 hv
  | false =>
    rw [compile_of_invalid hv]
    simpa [hv] using hvalid

/-- **The gate is exact.** In the strict mode a project is refused if and only if two components
share an identity, and the message has one entry, in their order, for each component whose identity
an earlier one has. In the other modes none is refused. What is built is the email of the project
with its digests, and the report lists the same violations, in any mode. -/
theorem compile_gate (stamp : Stamp) (fresh other : Nat → FreshIds) (p : Project) :
    ((∃ e, compile .block stamp fresh p = .error e) ↔ ¬ (p.components.map (·.id)).Nodup) ∧
    (∀ e, compile .block stamp fresh p = .error e →
      e.message = "Validation failed: " ++
        String.intercalate "; " ((Lint.repeats p.components).map Lint.repeatEntry)) ∧
    (Lint.repeats p.components).length =
      p.components.length - (p.components.map (·.id)).toFinset.card ∧
    (∀ mode, mode ≠ .block → ∃ email, compile mode stamp fresh p = .ok email) ∧
    (∀ mode email, compile mode stamp fresh p = .ok email →
      email.html = Email.render (p.document other) p.settings ∧
        email.htmlHash = Digest.ofText email.html ∧ email.projectHash = p.fingerprint ∧
        email.report.violations = Lint.rules.flatMap fun rule => rule p.components) := by
  refine ⟨?_, fun e => message_of_compile_eq_error, ?_, ?_, fun mode email h =>
    of_compile_eq_ok h other⟩
  · rw [exists_compile_eq_error_iff, and_iff_right rfl]
  · have hlength := Lint.length_repeats p.components
    omega
  · intro mode hmode
    cases h : compile mode stamp fresh p with
    | ok email => exact ⟨email, rfl⟩
    | error e => exact absurd (exists_compile_eq_error_iff.1 ⟨e, h⟩).1 hmode

/-- A project of four components, of which three share an identity. -/
def sharedIdentities : Project :=
  .new .standard [⟨"a", "header", ∅⟩, ⟨"a", "spacer", ∅⟩, ⟨"b", "button", ∅⟩, ⟨"a", "image", ∅⟩]

/-- It is refused in the strict mode, with an entry for the second component and one for the last,
and built in the others. -/
theorem compile_gate_sharedIdentities :
    (∃ e, compile .block ⟨"1", ""⟩ (fun _ _ => default) sharedIdentities = .error e ∧
      e.message = "Validation failed: duplicate_id: Component id a is used more than once" ++
        "; duplicate_id: Component id a is used more than once") ∧
    ∃ email, compile .log ⟨"1", ""⟩ (fun _ _ => default) sharedIdentities = .ok email ∧
      email.projectHash = sharedIdentities.fingerprint := by
  obtain ⟨hrefused, hmessage, -, hbuilt, hemail⟩ :=
    compile_gate ⟨"1", ""⟩ (fun _ _ => default) (fun _ _ => default) sharedIdentities
  obtain ⟨e, he⟩ := hrefused.2 (by decide)
  obtain ⟨email, hok⟩ := hbuilt .log (by decide)
  refine ⟨⟨e, he, ?_⟩, email, hok, (hemail .log email hok).2.2.1⟩
  rw [hmessage e he]
  decide +kernel

end MailBlocks
