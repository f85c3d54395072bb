import Mathlib.Data.List.Induction
import MailBlocks.Proofs.CompactText
import MailBlocks.Proofs.SpelledValues

/-!
# Canonical text

The canonical form of a value is the compact form of the value in canonical order, that is with the
members of every object in ascending key order. A compact text is read back as its value in
canonical order, so that values with the same canonical form are the same up to the order of
members.

* `lastMember?`, `get?_ofList`: the member that counts where a key is repeated.
* `sorted_sorted`: a value in canonical order stays as it is.
* `denotes_compact`: the compact form is a spelling of the value.
* `readsAs_compact`: it is read back.
* `canonical_eq_iff`: values with the same canonical form.
-/

namespace MailBlocks.Json

variable {α β : Type}

/-! ## Repeated keys -/

/-- **The member that counts** under a key: the last one. -/
def lastMember? (key : String) (members : List (String × α)) : Option α :=
  (members.reverse.find? (·.1 == key)).map (·.2)

/-- A look-up finds the last member under the key. -/
theorem get?_ofList (key : String) (members : List (String × α)) :
    Keyed.get? key (Keyed.ofList members) = lastMember? key members := by
  induction members using List.reverseRecOn with
  | nil => rfl
  | append_singleton members m ih =>
    have hlast : Keyed.ofList (members ++ [m]) = Keyed.insert m.1 m.2 (Keyed.ofList members) := by
      rw [Keyed.ofList, List.foldl_append]
      rfl
    rw [hlast, Keyed.get?_insert, ih, lastMember?, lastMember?, List.reverse_append,
      List.reverse_singleton, List.singleton_append, List.find?_cons]
    by_cases hkey : m.1 = key
    · rw [if_pos hkey, beq_iff_eq.2 hkey]
      rfl
    · rw [if_neg hkey, beq_eq_false_iff_ne.2 hkey]

/-- What counts among changed members is the changed member that counts. -/
theorem lastMember?_map (f : α → β) (key : String) (members : List (String × α)) :
    lastMember? key (members.map fun m => (m.1, f m.2)) = (lastMember? key members).map f := by
  rw [lastMember?, lastMember?, ← List.map_reverse, List.find?_map, Option.map_map, Option.map_map]
  rfl

/-- A look-up among what is taken from some members, the keys of which are in order. -/
theorem get?_ofList_filterMap {members : List (String × α)} (h : Keyed.Ascending members)
    (f : α → Option β) (key : String) :
    Keyed.get? key (Keyed.ofList (members.filterMap fun m => (f m.2).map fun b => (m.1, b))) =
      (Keyed.get? key members).bind f := by
  have hascending :
      Keyed.Ascending (members.filterMap fun m => (f m.2).map fun b => (m.1, b)) := by
    refine h.filterMap _ fun a b hab c hc d hd => ?_
    obtain ⟨_, -, rfl⟩ := Option.map_eq_some_iff.1 hc
    obtain ⟨_, -, rfl⟩ := Option.map_eq_some_iff.1 hd
    exact hab
  rw [Keyed.ofList_of_ascending hascending]
  clear hascending
  induction members with
  | nil => rfl
  | cons m members ih =>
    obtain ⟨hm, hmembers⟩ := List.pairwise_cons.1 h
    rw [List.filterMap_cons, Keyed.get?]
    by_cases hkey : m.1 = key
    · subst hkey
      rw [if_pos rfl]
      cases htaken : f m.2 with
      | none =>
        -- no other member has the key
        have hrest := ih hmembers
        rw [Keyed.get?_eq_none_of_lt hm] at hrest
        simpa [htaken] using hrest
      | some b => simp [htaken, Keyed.get?]
    · rw [if_neg hkey, ← ih hmembers]
      cases f m.2 with
      | none => rfl
      | some b => simp [Keyed.get?, hkey]

/-! ## Canonical order -/

namespace Value

mutual

/-- **A value in canonical order stays as it is.** -/
theorem sorted_sorted (v : Value) : v.sorted.sorted = v.sorted := by
  cases v with
  | null | bool | number | string => rfl
  | array items => rw [sorted, sorted, sortedItems_sortedItems]
  | object members =>
    -- neither the values nor the order of the members change again
    have hvalues : ∀ m ∈ Keyed.ofList (sortedMembers members), (m.1, m.2.sorted) = m :=
      fun m hm => sorted_of_mem_sortedMembers members m (Keyed.mem_of_mem_ofList hm)
    have hascending := Keyed.ascending_ofList (sortedMembers members)
    rw [sorted, sorted, sortedMembers_eq_map (Keyed.ofList _), List.map_congr_left hvalues,
      List.map_id', Keyed.ofList_of_ascending hascending]

theorem sortedItems_sortedItems (vs : List Value) :
    sortedItems (sortedItems vs) = sortedItems vs := by
  cases vs with
  | nil => rfl
  | cons v vs => rw [sortedItems, sortedItems, sorted_sorted v, sortedItems_sortedItems vs]

theorem sorted_of_mem_sortedMembers (ms : List (String × Value)) :
    ∀ m ∈ sortedMembers ms, (m.1, m.2.sorted) = m := by
  cases ms with
  | nil => nofun
  | cons n ms =>
    obtain ⟨key, v⟩ := n
    intro m hm
    rcases List.mem_cons.1 hm with rfl | hm
    · rw [sorted_sorted v]
    · exact sorted_of_mem_sortedMembers ms m hm

end

/-- Values are readable in canonical order if they are readable. -/
theorem Readable.sorted {levels : Nat} {v : Value} (h : v.Readable levels) :
    v.sorted.Readable levels := by
  induction h with
  | null => exact .null
  | bool b => exact .bool b
  | int hlow hhigh => exact .int hlow hhigh
  | string x => exact .string x
  | @array l items _ ih =>
    rw [Value.sorted, sortedItems_eq_map]
    refine .array fun v hv => ?_
    obtain ⟨w, hw, rfl⟩ := List.mem_map.1 hv
    exact ih w hw
  | @object l members _ ih =>
    rw [Value.sorted, sortedMembers_eq_map]
    refine .object fun m hm => ?_
    obtain ⟨n, hn, rfl⟩ := List.mem_map.1 (Keyed.mem_of_mem_ofList hm)
    exact ih n hn

end Value

/-! ## Compact text read back -/

variable {levels : Nat}

/-- A written string is a spelling of it. -/
theorem denotesString_stringChars (x : String) : DenotesString (stringChars x) x := by
  obtain ⟨form, hform, hdenotes⟩ := denotesString_of_stringBody (stringBody_written x [])
  rw [List.append_nil] at hform
  have hwritten : stringChars x = form := by rw [← hform, stringChars, List.cons_append]
  rwa [hwritten]

/-- **The compact form is a spelling** of the value. -/
theorem denotes_compact {v : Value} (h : v.Readable levels) : Denotes levels v.compactChars v := by
  induction h with
  | null => exact .null
  | bool b =>
    cases b with
    | true => exact .true
    | false => exact .false
  | int hlow hhigh => exact .number (denotesNumber_int hlow hhigh)
  | string x => exact .string (denotesString_stringChars x)
  | @array l vs _ ih =>
    cases vs with
    | nil => exact .emptyArray blanks_nil
    | cons v vs =>
      have hparts : ∀ q ∈ (v :: vs).map (writtenPart Value.compactChars blanks_nil),
          Denotes l q.form q.meaning := List.forall_mem_map.2 ih
      have hwritten := compactItems_cons (fun v => v) v vs []
      have harray := Denotes.array hparts
      rw [List.map_id', itemsTail_eq_commaTail blanks_nil] at hwritten
      have hmeanings : ((v :: vs).map (writtenPart Value.compactChars blanks_nil)).map (·.meaning) =
          v :: vs := by
        rw [List.map_map]
        exact List.map_id _
      rw [← List.map_cons, hmeanings] at harray
      have hform : (Value.array (v :: vs)).compactChars = '[' ::
          (writtenPart Value.compactChars blanks_nil v).ahead
            (commaTail Padded.ahead (vs.map (writtenPart Value.compactChars blanks_nil)) [']']) := by
        rw [Value.compactChars, List.cons_append]
        exact congrArg _ hwritten
      rw [hform]
      exact harray
  | @object l ms _ ih =>
    cases ms with
    | nil => exact .emptyObject blanks_nil
    | cons m ms =>
      have hkeys : ∀ x ∈ (m :: ms).map (writtenEntry Value.compactChars blanks_nil blanks_nil),
          DenotesString x.key.form x.key.meaning :=
        List.forall_mem_map.2 fun x _ => denotesString_stringChars x.1
      have hvalues : ∀ x ∈ (m :: ms).map (writtenEntry Value.compactChars blanks_nil blanks_nil),
          Denotes l x.value.form x.value.meaning := List.forall_mem_map.2 ih
      have hwritten := compactMembers_cons (fun v => v) m ms []
      have hobject := Denotes.object hkeys hvalues
      rw [List.map_id', membersTail_eq_commaTail blanks_nil blanks_nil] at hwritten
      have hmeanings : ((m :: ms).map (writtenEntry Value.compactChars blanks_nil blanks_nil)).map
          Entry.meaning = m :: ms := by
        rw [List.map_map]
        exact List.map_id _
      rw [← List.map_cons, hmeanings] at hobject
      have hform : (Value.object (m :: ms)).compactChars = '\x7b' ::
          (writtenEntry Value.compactChars blanks_nil blanks_nil m).ahead (commaTail Entry.ahead
            (ms.map (writtenEntry Value.compactChars blanks_nil blanks_nil)) ['\x7d']) := by
        rw [Value.compactChars, List.cons_append, hwritten]
        exact congrArg _ (memberForm_append blanks_nil blanks_nil m _)
      rw [hform]
      exact hobject

/-- **The compact form is read back** as the value in canonical order. -/
theorem readsAs_compact {v : Value} (h : v.Readable levels) :
    ReadsAs (value levels) v.compactChars v.sorted :=
  readsAs_of_denotes (denotes_compact h)

/-- A compact form as a whole text. -/
theorem textOf_compact {v : Value} (h : v.Readable maxLevels) : TextOf v.compact v := by
  refine ⟨writtenPart Value.compactChars blanks_nil v, ?_, rfl, denotes_compact h⟩
  simp [Value.compact, writtenPart, Padded.ahead]

/-- Values with the same compact form are the same in canonical order. -/
theorem sorted_eq_of_compact_eq {v w : Value} (hv : v.Readable levels) (hw : w.Readable levels)
    (h : v.compact = w.compact) : v.sorted = w.sorted := by
  have hchars : v.compactChars = w.compactChars := String.ofList_injective h
  have hread : value levels v.compactChars = .ok (v.sorted, []) := (readsAs_compact hv).read_form
  rw [hchars, (readsAs_compact hw).read_form] at hread
  exact (Prod.mk.inj (Except.ok.inj hread)).1.symm

/-- **Values with the same canonical form** are the same in canonical order. -/
theorem canonical_eq_iff {v w : Value} (hv : v.Readable levels) (hw : w.Readable levels) :
    v.canonical = w.canonical ↔ v.sorted = w.sorted := by
  constructor
  · intro h
    have hsorted := sorted_eq_of_compact_eq hv.sorted hw.sorted h
    rwa [Value.sorted_sorted, Value.sorted_sorted] at hsorted
  · intro h
    rw [Value.canonical, h, Value.canonical]

end MailBlocks.Json
