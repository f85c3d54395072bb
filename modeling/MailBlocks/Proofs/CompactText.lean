import MailBlocks.Proofs.BracketedText

/-!
# Compact text read back

The compact form of a list of objects of strings is read back as the list of their members. Forms
follow each other without blanks.

* `readsAs_ofStrings`: an object of strings.
* `sequence_compactItems`: a list of objects whose forms are read back.
* `parse_objects`: a stored list of objects of strings is read back.
-/

namespace MailBlocks.Json

variable {α β : Type}

theorem compactItems_cons (write : β → Value) (x : β) (xs : List β) (r : List Char) :
    Value.compactItems ((x :: xs).map write) ++ ']' :: r =
      (write x).compactChars ++ itemsTail (fun y => (write y).compactChars) [] [] xs r := by
  induction xs generalizing x with
  | nil => rfl
  | cons y ys ih =>
    rw [itemsTail_cons, List.nil_append, ← ih, List.map_cons, List.map_cons, Value.compactItems]
    simp

theorem compactMembers_cons (write : β → Value) (m : String × β) (ms : List (String × β))
    (r : List Char) :
    Value.compactMembers ((m :: ms).map fun x => (x.1, write x.2)) ++ '\x7d' :: r =
      memberForm (fun y => (write y).compactChars) [] m ++
        membersTail (fun y => (write y).compactChars) [] [] [] ms r := by
  induction ms generalizing m with
  | nil => rfl
  | cons n ns ih =>
    rw [membersTail_cons, List.nil_append, ← ih, List.map_cons, List.map_cons, Value.compactMembers]
    simp [memberForm]

/-- An object of strings. -/
def ofStrings (entries : List (String × String)) : Value :=
  .object (entries.map fun x => (x.1, .string x.2))

theorem map_of_brace {levels : Nat} {s t : List Char} (h : skipSpace s = '\x7b' :: t) :
    Decoder.map.ofText (levels + 1) s =
      (members (value levels) t).map fun (ms, r) => (.ok (Keyed.ofList ms), r) := by
  simp only [Decoder.map, h]

/-- An object of strings is read as its members, in ascending key order. -/
theorem readsAs_ofStrings (levels : Nat) (entries : List (String × String)) :
    ReadsAs (Decoder.map.ofText (levels + 1)) (ofStrings entries).compactChars
      (.ok (Keyed.ofList (entries.map fun x => (x.1, .string x.2)))) where
  head := ⟨'\x7b', _, rfl, by decide, by decide⟩
  read s r hs _ := by
    cases entries with
    | nil =>
      rw [map_of_brace hs]
      rfl
    | cons e es =>
      have hmembers : members (value levels)
          (Value.compactMembers ((e :: es).map fun x => (x.1, .string x.2)) ++ '\x7d' :: r) =
          .ok ((e :: es).map fun x => (x.1, .string x.2), r) := by
        rw [compactMembers_cons]
        exact members_flatMap (fun x _ => readsAs_string levels x.2) blanks_nil blanks_nil
          blanks_nil r
      have hbrace : skipSpace s = '\x7b' ::
          (Value.compactMembers ((e :: es).map fun x => (x.1, .string x.2)) ++ '\x7d' :: r) := by
        rw [hs]
        simp [ofStrings, Value.compactChars]
      rw [map_of_brace hbrace, hmembers]
      rfl

/-- A written array is read as a sequence, if its items are read. -/
theorem sequence_compactItems {d : Decoder α} {levels : Nat} {write : β → Value} {result : β → α}
    {xs : List β} (h : ∀ x ∈ xs, ReadsAs (d.ofText levels) (write x).compactChars (.ok (result x)))
    (r : List Char) :
    d.sequence.ofText (levels + 1) ((Value.array (xs.map write)).compactChars ++ r) =
      .ok (.ok (xs.map result), r) := by
  have hwritten : (Value.array (xs.map write)).compactChars ++ r =
      '[' :: (Value.compactItems (xs.map write) ++ ']' :: r) := by
    simp [Value.compactChars]
  rw [hwritten]
  cases xs with
  | nil => rfl
  | cons x xs =>
    refine congrArg (Except.map _) (?_ : items _ _ = .ok ((x :: xs).map result, r))
    rw [compactItems_cons]
    -- an element whose content is right is read as its content
    refine items_flatMap (fun y hy => ⟨(h y hy).head, fun s u hs hu => ?_⟩) blanks_nil blanks_nil r
    simp only [bind, Except.bind, (h y hy).read s u hs hu]

/-- **A written list of objects of strings is read** as the lists of their members. -/
theorem parse_objects (objects : List (List (String × String))) :
    Decoder.map.sequence.parse (Value.array (objects.map ofStrings)).compact =
      .ok (objects.map fun entries => Keyed.ofList (entries.map fun x => (x.1, .string x.2))) := by
  have hobjects : ∀ x ∈ objects, ReadsAs (Decoder.map.ofText 126) (ofStrings x).compactChars
      (.ok (Keyed.ofList (x.map fun y => (y.1, .string y.2)))) :=
    fun x _ => readsAs_ofStrings 125 x
  have htext := sequence_compactItems hobjects []
  rw [List.append_nil] at htext
  refine Decoder.parse_eq_ok_iff.2 ⟨[], ?_, rfl⟩
  rw [Value.compact, String.toList_ofList]
  exact htext

end MailBlocks.Json
