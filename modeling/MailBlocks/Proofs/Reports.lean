import Mathlib.Data.List.Basic
import MailBlocks.Lint

/-!
# What the rules report

Every rule reports under one name and with one severity, and only repeated identities are errors.
The names tell the rules apart, so that a report can be taken to pieces again.

* `mem_unknownType_iff` and its like: what a rule reports, and when.
* `filter_check`: what is picked out of a report by names and severities.
* `errors_check`: the errors of a report.
* `Violation.IsOf`: the violations of a component.
-/

namespace MailBlocks.Lint

variable {cs : List Component} {v : Violation}

/-! ## The rules one by one -/

theorem mem_duplicateId_iff :
    v ∈ duplicateId cs ↔ ∃ c ∈ repeated [] cs,
      v = ⟨"duplicate_id", .error, "Component id " ++ c.id ++ " is used more than once", some c.id,
        none, ["Recreate the duplicated component so it gets a fresh id"]⟩ := by
  rw [duplicateId, List.mem_map]
  exact exists_congr fun c => and_congr_right fun _ => eq_comm

theorem mem_unknownType_iff :
    v ∈ unknownType cs ↔ ∃ c ∈ cs, c.kind? = none ∧
      v = ⟨"unknown_type", .warning, "Unknown component type renders nothing", some c.id,
        some c.type, []⟩ := by
  simp only [unknownType, List.mem_map, List.mem_filter, Option.isNone_iff_eq_none, and_assoc]
  exact exists_congr fun c => and_congr_right fun _ => and_congr_right fun _ => eq_comm

theorem mem_numericAttribute_iff :
    v ∈ numericAttribute cs ↔ ∃ c ∈ cs, c.kind? = some .divider ∧
      ∃ key ∈ ["width", "thickness"], ∃ s, c.data.get? key = some s ∧ isPlainNumber s = false ∧
        v = ⟨"numeric_attribute", .warning,
          "Divider " ++ key ++ " is not a plain number and is emitted as-is", some c.id, some s,
          ["Use digits only, e.g. \"100\""]⟩ := by
  simp only [numericAttribute, List.mem_flatMap, List.mem_filter, List.mem_filterMap, beq_iff_eq,
    and_assoc]
  refine exists_congr fun c => and_congr_right fun _ => and_congr_right fun _ =>
    exists_congr fun key => and_congr_right fun _ => ?_
  cases c.data.get? key with
  | none => simp
  | some s => cases hs : isPlainNumber s <;> simp [hs, eq_comm (a := v)]

theorem mem_additionalOffers_iff :
    v ∈ additionalOffers cs ↔ ∃ c ∈ cs, c.kind? = some .salesOffer ∧
      ∃ stored e, c.data.get? "additionalOffers" = some stored ∧
        AdditionalOffer.decode (fun _ => default) stored = .error e ∧
        v = ⟨"additional_offers", .warning,
          "Additional offers could not be decoded and will not render", some c.id, some e.message,
          ["Reset the additional offers list"]⟩ := by
  simp only [additionalOffers, List.mem_filterMap, List.mem_filter, beq_iff_eq, and_assoc]
  refine exists_congr fun c => and_congr_right fun _ => and_congr_right fun _ => ?_
  cases c.data.get? "additionalOffers" with
  | none => simp
  | some stored =>
    cases hread : AdditionalOffer.decode (fun _ => default) stored <;>
      simp [hread, eq_comm (a := v)]

theorem mem_blockedUrl_iff :
    v ∈ blockedUrl cs ↔ ∃ c ∈ cs, ∃ key ∈ urlKeys, ∃ s, c.data.get? key = some s ∧
      Markup.isBlockedUrl s = true ∧
      v = ⟨"unsafe_url", .warning, key ++ " uses a blocked scheme and is replaced with #",
        some c.id, some s, ["Use an https:// link"]⟩ := by
  simp only [blockedUrl, List.mem_flatMap, List.mem_filterMap]
  refine exists_congr fun c => and_congr_right fun _ => exists_congr fun key =>
    and_congr_right fun _ => ?_
  cases c.data.get? key with
  | none => simp
  | some s => cases hs : Markup.isBlockedUrl s <;> simp [hs, eq_comm (a := v)]

theorem mem_mergeField_iff :
    v ∈ mergeField cs ↔ ∃ c ∈ cs, ∃ key s, (key, s) ∈ c.data.entries ∧
      key ≠ "additionalOffers" ∧ MergeField.unbalanced s = true ∧
      v = ⟨"merge_field", .info, key ++ " contains an incomplete merge field", some c.id, some s,
        ["Merge fields look like \x7b\x7brecipient.first_name\x7d\x7d"]⟩ := by
  simp only [mergeField, List.mem_flatMap, List.mem_filterMap, Prod.exists]
  refine exists_congr fun c => and_congr_right fun _ => exists_congr fun key =>
    exists_congr fun s => and_congr_right fun _ => ?_
  simp [and_assoc, eq_comm (a := v)]

/-! ## Names and severities -/

/-- All that a rule reports has the given name and severity, and names a component. -/
def ReportsAs (rule : Rule) (name : String) (severity : Severity) : Prop :=
  ∀ cs, ∀ v ∈ rule cs, v.rule = name ∧ v.severity = severity ∧ ∃ c ∈ cs, v.component = some c.id

/-- **The rules with the names and severities** that they report with, in order. -/
def named : List (Rule × String × Severity) :=
  [(duplicateId, "duplicate_id", .error), (unknownType, "unknown_type", .warning),
    (numericAttribute, "numeric_attribute", .warning),
    (additionalOffers, "additional_offers", .warning), (blockedUrl, "unsafe_url", .warning),
    (mergeField, "merge_field", .info)]

theorem unknownType_mem_named : (unknownType, "unknown_type", .warning) ∈ named.tail := by
  simp [named]

theorem additionalOffers_mem_named :
    (additionalOffers, "additional_offers", .warning) ∈ named.tail := by
  simp [named]

theorem blockedUrl_mem_named : (blockedUrl, "unsafe_url", .warning) ∈ named.tail := by
  simp [named]

theorem mergeField_mem_named : (mergeField, "merge_field", .info) ∈ named.tail := by
  simp [named]

theorem mem_of_mem_repeated {seen : List String} {c : Component} (h : c ∈ repeated seen cs) :
    c ∈ cs := by
  induction cs generalizing seen with
  | nil => cases h
  | cons d cs ih =>
    rw [repeated] at h
    split at h
    · rcases List.mem_cons.1 h with rfl | h
      · exact List.mem_cons_self
      · exact List.mem_cons_of_mem d (ih h)
    · exact List.mem_cons_of_mem d (ih h)

theorem reportsAs_of_mem_named {r : Rule × String × Severity} (hr : r ∈ named) :
    ReportsAs r.1 r.2.1 r.2.2 := by
  simp only [named, List.mem_cons, List.not_mem_nil, or_false] at hr
  intro cs v hv
  rcases hr with rfl | rfl | rfl | rfl | rfl | rfl
  · obtain ⟨c, hc, rfl⟩ := mem_duplicateId_iff.1 hv
    exact ⟨rfl, rfl, c, mem_of_mem_repeated hc, rfl⟩
  · obtain ⟨c, hc, -, rfl⟩ := mem_unknownType_iff.1 hv
    exact ⟨rfl, rfl, c, hc, rfl⟩
  · obtain ⟨c, hc, -, key, -, s, -, -, rfl⟩ := mem_numericAttribute_iff.1 hv
    exact ⟨rfl, rfl, c, hc, rfl⟩
  · obtain ⟨c, hc, -, stored, e, -, -, rfl⟩ := mem_additionalOffers_iff.1 hv
    exact ⟨rfl, rfl, c, hc, rfl⟩
  · obtain ⟨c, hc, key, -, s, -, -, rfl⟩ := mem_blockedUrl_iff.1 hv
    exact ⟨rfl, rfl, c, hc, rfl⟩
  · obtain ⟨c, hc, key, s, -, -, -, rfl⟩ := mem_mergeField_iff.1 hv
    exact ⟨rfl, rfl, c, hc, rfl⟩

theorem ReportsAs.filter {rule : Rule} {name : String} {severity : Severity}
    (h : ReportsAs rule name severity) (q : String → Severity → Bool) (cs : List Component) :
    (rule cs).filter (fun v => q v.rule v.severity) =
      if q name severity then rule cs else [] := by
  have hq : ∀ v ∈ rule cs, q v.rule v.severity = q name severity := by
    intro v hv
    obtain ⟨hname, hseverity, -⟩ := h cs v hv
    rw [hname, hseverity]
  rw [List.filter_congr hq]
  cases q name severity <;> simp

/-- **What is picked out of a report** by names and severities is all that some rules report. -/
theorem filter_check (mode : Mode) (p : Project) (q : String → Severity → Bool) :
    (check mode p).violations.filter (fun v => q v.rule v.severity) =
      named.flatMap fun r => if q r.2.1 r.2.2 then r.1 p.components else [] := by
  have hrules : (check mode p).violations = named.flatMap fun r => r.1 p.components := rfl
  rw [hrules, List.filter_flatMap]
  exact List.flatMap_congr fun r hr => (reportsAs_of_mem_named hr).filter q p.components

/-- **The errors of a report** are the repeated identities. -/
theorem errors_check (mode : Mode) (p : Project) :
    (check mode p).violations.filter (·.severity == .error) = duplicateId p.components := by
  rw [filter_check mode p fun _ severity => severity == .error]
  simp [named]

/-- **What a report has under the name of a rule** is what the rule reports. -/
theorem filter_rule_check (mode : Mode) {r : Rule × String × Severity} (hr : r ∈ named)
    (p : Project) :
    (check mode p).violations.filter (·.rule == r.2.1) = r.1 p.components := by
  rw [filter_check mode p fun name _ => name == r.2.1]
  simp only [named, List.mem_cons, List.not_mem_nil, or_false] at hr
  rcases hr with rfl | rfl | rfl | rfl | rfl | rfl <;> simp [named]

theorem mem_check_and_rule (mode : Mode) {r : Rule × String × Severity} (hr : r ∈ named)
    {p : Project} :
    v ∈ (check mode p).violations ∧ v.rule = r.2.1 ↔ v ∈ r.1 p.components := by
  rw [← filter_rule_check mode hr p, List.mem_filter, beq_iff_eq]

/-! ## Violations of a component -/

/-- All rules but the one on repeated identities look at each component by itself. -/
theorem mem_iff_exists_singleton {rule : Rule} (hr : rule ∈ rules.tail) :
    v ∈ rule cs ↔ ∃ c ∈ cs, v ∈ rule [c] := by
  simp only [rules, List.tail_cons, List.mem_cons, List.not_mem_nil, or_false] at hr
  rcases hr with rfl | rfl | rfl | rfl | rfl
  · simp only [mem_unknownType_iff, List.mem_singleton, exists_eq_left]
  · simp only [mem_numericAttribute_iff, List.mem_singleton, exists_eq_left]
  · simp only [mem_additionalOffers_iff, List.mem_singleton, exists_eq_left]
  · simp only [mem_blockedUrl_iff, List.mem_singleton, exists_eq_left]
  · simp only [mem_mergeField_iff, List.mem_singleton, exists_eq_left]

/-- **A violation of a component**: a rule reports it on that component alone. Identities may be
shared, so the one that a violation names does not tell this. -/
def Violation.IsOf (v : Violation) (c : Component) : Prop :=
  ∃ rule ∈ rules.tail, v ∈ rule [c]

/-- A violation names the identity of its component. -/
theorem Violation.IsOf.component {c : Component} (h : v.IsOf c) : v.component = some c.id := by
  obtain ⟨rule, hrule, hv⟩ := h
  obtain ⟨r, hr, rfl⟩ : ∃ r ∈ named, r.1 = rule :=
    List.mem_map.1 (show rule ∈ named.map Prod.fst from List.mem_of_mem_tail hrule)
  obtain ⟨-, -, d, hd, hid⟩ := reportsAs_of_mem_named hr [c] v hv
  rwa [List.mem_singleton.1 hd] at hid

section

variable {r : Rule × String × Severity} {mode : Mode} {p : Project}

/-- **What a report has under the name of a rule** is a violation of a component, on which the rule
reports it. -/
theorem exists_isOf_of_mem_check (hr : r ∈ named.tail) (hv : v ∈ (check mode p).violations)
    (hname : v.rule = r.2.1) : ∃ c ∈ p.components, v.IsOf c ∧ v ∈ r.1 [c] := by
  have hrule : r.1 ∈ rules.tail := List.mem_map_of_mem (f := Prod.fst) hr
  have hmem := (mem_check_and_rule mode (List.mem_of_mem_tail hr)).1 ⟨hv, hname⟩
  obtain ⟨c, hc, hsingle⟩ := (mem_iff_exists_singleton hrule).1 hmem
  exact ⟨c, hc, ⟨r.1, hrule, hsingle⟩, hsingle⟩

/-- A rule under whose name a report has no violation of a component reports nothing on it. -/
theorem not_mem_singleton_of_check (mode : Mode) (hr : r ∈ named.tail) {c : Component}
    (hc : c ∈ p.components)
    (h : ∀ v ∈ (check mode p).violations, v.IsOf c → v.rule ≠ r.2.1) (v : Violation) :
    v ∉ r.1 [c] := by
  intro hv
  have hrule : r.1 ∈ rules.tail := List.mem_map_of_mem (f := Prod.fst) hr
  have hmem := (mem_iff_exists_singleton hrule).2 ⟨c, hc, hv⟩
  obtain ⟨hreport, hname⟩ := (mem_check_and_rule mode (List.mem_of_mem_tail hr)).2 hmem
  exact h v hreport ⟨r.1, hrule, hv⟩ hname

end

end MailBlocks.Lint
