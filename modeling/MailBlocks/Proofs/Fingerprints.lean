import MailBlocks.Proofs.CanonicalText
import MailBlocks.Proofs.CompileGate
import MailBlocks.Proofs.StoredProjects

/-!
# Faithful fingerprints

The canonical form of a project tells all of it: no two projects have the same one. So the
fingerprint, a digest of the canonical form, is the same for all stored texts that a project is
loaded from, and is shared by two projects only where the digest itself collides.

* `Project.canonical_inj`: the canonical form tells projects apart.
* `Project.fingerprint_eq_iff`: which projects share a fingerprint.
* `compileText_eq`: a stored text is compiled as the project that is loaded from it.
* `fingerprint_faithful`: fingerprints of projects and of compiled emails.
-/

namespace MailBlocks

/-- **A collision** of the digest: two texts that share one. -/
def Digest.Collide (s t : String) : Prop :=
  s ≠ t ∧ ofText s = ofText t

namespace Project

variable {p q : Project}

/-- A project can be recovered from its stored object in canonical order. -/
theorem eq_of_sorted_toValue_eq (h : p.toValue.sorted = q.toValue.sorted) : p = q := by
  have hread := p.ofValue_sorted_toValue
  rw [h, q.ofValue_sorted_toValue] at hread
  exact (Except.ok.inj hread).symm

/-- **The canonical form tells projects apart.** -/
theorem canonical_inj : p.canonical = q.canonical ↔ p = q := by
  constructor
  · intro h
    have hsorted := (Json.canonical_eq_iff p.readable_toValue q.readable_toValue).1 h
    exact eq_of_sorted_toValue_eq hsorted
  · rintro rfl
    rfl

/-- Two projects share a fingerprint if they are the same or their canonical forms collide. -/
theorem fingerprint_eq_iff :
    p.fingerprint = q.fingerprint ↔ p = q ∨ Digest.Collide p.canonical q.canonical := by
  constructor
  · intro hdigest
    by_cases hpq : p = q
    · exact .inl hpq
    · exact .inr ⟨fun hcanonical => hpq (canonical_inj.1 hcanonical), hdigest⟩
  · rintro (rfl | ⟨-, hdigest⟩)
    · rfl
    · exact hdigest

end Project

/-! ## Compiled emails -/

variable {mode : Lint.Mode} {stamp : Stamp} {fresh : Nat → FreshIds} {s : String} {p : Project}

/-- A stored text is compiled as the project that is loaded from it. -/
theorem compileText_eq (h : Project.parse s = .ok p) :
    compileText mode stamp fresh s = compile mode stamp fresh p := by
  rw [compileText, h]
  rfl

/-- An email bears the fingerprint of the project that was loaded. -/
theorem projectHash_of_compileText {email : CompiledEmail} (h : Project.parse s = .ok p)
    (hemail : compileText mode stamp fresh s = .ok email) : email.projectHash = p.fingerprint := by
  rw [compileText_eq h] at hemail
  exact (of_compile_eq_ok hemail fresh).2.2.1

/-- Outside the strict mode every project that can be loaded is compiled. -/
theorem exists_compileText_eq_ok (h : Project.parse s = .ok p) (hmode : mode ≠ .block) :
    ∃ email, compileText mode stamp fresh s = .ok email := by
  have hvalid : (Lint.check mode p).valid = true :=
    (Lint.valid_check mode p).2 fun hblock => absurd hblock hmode
  exact ⟨_, (compileText_eq h).trans (compile_of_valid hvalid)⟩

/-- **Fingerprints are faithful.** Two projects have the same canonical form if and only if they are
the same: the same schema version and settings, and the same components in the same order. They
share a fingerprint if and only if they are the same or their canonical forms are a collision of the
digest. The same holds of the fingerprints that the emails of two stored texts bear, however the
texts are written and whatever else the emails are marked with. -/
theorem fingerprint_faithful :
    (∀ p q : Project, p.canonical = q.canonical ↔ p = q) ∧
    (∀ p q : Project,
      p.fingerprint = q.fingerprint ↔ p = q ∨ Digest.Collide p.canonical q.canonical) ∧
    ∀ (s t : String) (p q : Project), Project.parse s = .ok p → Project.parse t = .ok q →
      (∀ mode stamp fresh, mode ≠ .block → ∃ e, compileText mode stamp fresh s = .ok e) ∧
      ∀ mode mode' stamp stamp' fresh fresh' e f,
        compileText mode stamp fresh s = .ok e → compileText mode' stamp' fresh' t = .ok f →
        (e.projectHash = f.projectHash ↔ p = q ∨ Digest.Collide p.canonical q.canonical) := by
  refine ⟨fun p q => Project.canonical_inj, fun p q => Project.fingerprint_eq_iff, ?_⟩
  intro s t p q hs ht
  refine ⟨fun mode stamp fresh hmode => exists_compileText_eq_ok hs hmode, ?_⟩
  intro mode mode' stamp stamp' fresh fresh' e f he hf
  rw [projectHash_of_compileText hs he, projectHash_of_compileText ht hf]
  exact Project.fingerprint_eq_iff

/-- A stored project of which most is left out. -/
def briefText : String :=
  "\x7b\"schemaVersion\": \"2.0.0\", \"components\": [\x7b\"id\": 7, \"type\": \"spacer\"\x7d]\x7d"

/-- The same project at length, with other keys first, an escape, and a text for a number. -/
def longText : String :=
  "\x7b\"settings\":\x7b\"offersLayout\":\"list\",\"buttonStyle\":\"rounded\"\x7d,\n" ++
    "\"components\" : [\x7b\"data\":\x7b\x7d,\"type\":\"sp\\u0061cer\",\"id\":\"7\"\x7d],\n" ++
    "\"schemaVersion\":\"2.0.0\"\x7d"

/-- The project that both are. -/
def spacerProject : Project :=
  .new .standard [⟨"7", "spacer", ∅⟩]

theorem fingerprint_faithful_spellings :
    (Project.parse briefText = .ok spacerProject ∧ Project.parse longText = .ok spacerProject) ∧
      ∃ e f, compileText .log ⟨"1", ""⟩ (fun _ _ => default) briefText = .ok e ∧
        compileText .warn ⟨"2", ""⟩ (fun _ _ => default) longText = .ok f ∧
        e.projectHash = f.projectHash := by
  have hbrief : Project.parse briefText = .ok spacerProject :=
    Json.eq_ok_of_toOption (by decide +kernel)
  have hlong : Project.parse longText = .ok spacerProject :=
    Json.eq_ok_of_toOption (by decide +kernel)
  obtain ⟨hbuilt, hhash⟩ := fingerprint_faithful.2.2 _ _ _ _ hbrief hlong
  obtain ⟨e, he⟩ := hbuilt .log ⟨"1", ""⟩ (fun _ _ => default) (by decide)
  obtain ⟨f, hf⟩ : ∃ f, compileText .warn ⟨"2", ""⟩ (fun _ _ => default) longText = .ok f :=
    exists_compileText_eq_ok hlong (by decide)
  have hsame := (hhash _ _ _ _ _ _ e f he hf).2 (.inl rfl)
  exact ⟨⟨hbrief, hlong⟩, e, f, he, hf, hsame⟩

end MailBlocks
