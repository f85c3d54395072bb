import MailBlocks.CommandLine
import MailBlocks.Proofs.CanonicalText

/-!
# Printed answers

What a command prints is an object on lines of its own: an error with its message, or a compiled
email. Whoever reads it gets the object back, the email with its HTML.

* `parse_line`: a line with a written value.
* `errorObject`, `parse_errorObject`: errors.
* `CompiledEmail.answer`, `member?_answer`, `parse_answer`: compiled emails.
-/

namespace MailBlocks

/-! ## Lines -/

namespace Json

/-- **A line with a written value is read** as the value. -/
theorem parse_line {form : List Char} {v : Value} (h : ReadsAs (value maxLevels) form v) :
    parse (String.ofList form ++ "\n") = .ok v := by
  have hskip : skipSpace (String.ofList form ++ "\n").toList = form ++ ['\n'] := by
    rw [String.toList_append, String.toList_ofList]
    exact h.skipSpace_append blanks_nil ['\n']
  have hend : EndsValue ['\n'] := endsValue_cons (.inr (.inr (.inr (by decide)))) []
  exact parse_iff_value.2 ⟨['\n'], h.read _ _ hskip hend, by decide⟩

namespace Value

/-- The value of the member of an object with a key. -/
def member? (key : String) : Value → Option Value
  | .object members => Keyed.get? key members
  | _ => none

/-- In canonical order, an object has the members that count. -/
theorem member?_sorted (key : String) (members : List (String × Value)) :
    (Value.object members).sorted.member? key = (lastMember? key members).map sorted := by
  rw [sorted, member?, get?_ofList, sortedMembers_eq_map, lastMember?_map]

end Value

end Json

/-! ## Errors -/

/-- **An error as an object**, its keys in ascending order. -/
def errorObject (message : String) : Json.Value :=
  .object [("error", .string message), ("success", .bool false)]

theorem sorted_errorObject (message : String) :
    (Json.Value.object [("success", .bool false), ("error", .string message)]).sorted =
      errorObject message := by
  simp only [errorObject, Json.Value.sorted, Json.Value.sortedMembers, Keyed.ofList, Keyed.insert,
    List.foldl_cons, List.foldl_nil, String.reduceLT, String.reduceEq, if_true, if_false]

/-- An outcome that reports an error prints a line with its object. -/
theorem Outcome.failing_eq (exit : UInt8) (message : String) :
    Outcome.failing exit message [] = ⟨exit, (errorObject message).compact ++ "\n", none⟩ := by
  rw [failing, List.append_nil, Json.Value.canonical, sorted_errorObject, printing]

/-- **The line of an error is read back** as its object. -/
theorem parse_errorObject (message : String) :
    Json.parse ((errorObject message).compact ++ "\n") = .ok (errorObject message) := by
  have hreadable : (errorObject message).Readable Json.maxLevels := by
    refine .object ?_
    simp only [List.forall_mem_cons]
    exact ⟨.string message, .bool false, List.forall_mem_nil _⟩
  have hsorted : (errorObject message).sorted = errorObject message := by
    rw [← sorted_errorObject, Json.Value.sorted_sorted]
  have hread := Json.parse_line (Json.readsAs_compact hreadable)
  rwa [hsorted] at hread

/-! ## Compiled emails -/

namespace Lint

theorem Violation.readable_optional (levels : Nat) (s : Option String) :
    (optional s).Readable levels := by
  cases s with
  | none => exact .null
  | some s => exact .string s

theorem Violation.readable_toValue (levels : Nat) (v : Violation) :
    v.toValue.Readable (levels + 2) := by
  refine .object ?_
  simp only [List.forall_mem_cons]
  refine ⟨.string _, .string _, .string _, readable_optional _ _, readable_optional _ _,
    .array ?_, List.forall_mem_nil _⟩
  exact List.forall_mem_map.2 fun s _ => .string s

/-- The number of components has to fit the numbers that are read. -/
theorem Report.readable_toValue (levels : Nat) {r : Report}
    (h : r.componentCount ≤ Json.maxNatural) : r.toValue.Readable (levels + 4) := by
  refine .object ?_
  simp only [List.forall_mem_cons]
  refine ⟨.bool _, .array ?_, .string _, .int (by omega) (by omega), List.forall_mem_nil _⟩
  exact List.forall_mem_map.2 fun v _ => v.readable_toValue levels

end Lint

namespace CompiledEmail

variable {e : CompiledEmail}

/-- What is printed of a compiled email. -/
def answer (e : CompiledEmail) : Json.Value :=
  .object [("success", .bool true), ("email", e.toValue)]

/-- **The answer says that the email was built**, and holds it. -/
theorem member?_answer (e : CompiledEmail) :
    e.answer.sorted.member? "success" = some (.bool true) ∧
      (e.answer.sorted.member? "email").bind (Json.Value.member? "html") =
        some (.string e.html) := by
  have hemail : e.answer.sorted.member? "email" = some e.toValue.sorted :=
    Json.Value.member?_sorted "email" _
  rw [hemail]
  exact ⟨Json.Value.member?_sorted "success" _, Json.Value.member?_sorted "html" _⟩

theorem readable_answer (h : e.report.componentCount ≤ Json.maxNatural) :
    e.answer.Readable Json.maxLevels := by
  have hreport : e.report.toValue.Readable 125 := Lint.Report.readable_toValue 121 h
  have hemail : e.toValue.Readable 126 := by
    refine .object ?_
    simp only [List.forall_mem_cons]
    exact ⟨.string _, .string _, .string _, .string _, .string _, .string _, hreport, .string _,
      List.forall_mem_nil _⟩
  refine .object ?_
  simp only [List.forall_mem_cons]
  exact ⟨.bool true, hemail, List.forall_mem_nil _⟩

/-- **The lines of an answer are read back** as its object. -/
theorem parse_answer (h : e.report.componentCount ≤ Json.maxNatural) :
    Json.parse (e.answer.sorted.pretty ++ "\n") = .ok e.answer.sorted := by
  have hread := Json.parse_line (Json.readsAs_pretty (readable_answer h).sorted 0)
  rwa [Json.Value.sorted_sorted] at hread

end CompiledEmail

end MailBlocks
