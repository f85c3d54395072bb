import Mathlib.Data.List.Nodup
import MailBlocks.Proofs.CanonicalText

/-!
# Values up to the order of keys

Two values are the same up to the order of keys if their arrays agree place by place and their
objects key by key, at every depth. The canonical form decides this, and it is the text of a value
that is the same up to the order of keys.

* `Value.Reordered`: equality up to the order of keys.
* `Value.sorted_eq_iff`: canonical order decides it.
* `Value.Whole`, `Value.depth`: what a value must be like to be read back.
* `canonical_decides`: the canonical form decides equality, and it is read back.
-/

namespace MailBlocks.Json

theorem mem_of_lastMember? {α : Type} {key : String} {members : List (String × α)} {v : α}
    (h : lastMember? key members = some v) : (key, v) ∈ members := by
  rw [← get?_ofList] at h
  exact Keyed.mem_of_mem_ofList (Keyed.mem_of_get? h)

/-- Where no key is repeated, each member counts. -/
theorem lastMember?_eq_some_iff {α : Type} {key : String} {members : List (String × α)} {v : α}
    (h : (members.map (·.1)).Nodup) :
    lastMember? key members = some v ↔ (key, v) ∈ members := by
  refine ⟨mem_of_lastMember?, fun hmem => ?_⟩
  have hfound : (members.reverse.find? (·.1 == key)).isSome :=
    List.find?_isSome.2 ⟨(key, v), List.mem_reverse.2 hmem, beq_self_eq_true key⟩
  obtain ⟨m, hm⟩ := Option.isSome_iff_exists.1 hfound
  have hkey : m.1 = key := by simpa using List.find?_some hm
  have hself : m = (key, v) :=
    List.inj_on_of_nodup_map h (List.mem_reverse.1 (List.mem_of_find?_eq_some hm)) hmem hkey
  rw [lastMember?, hm, hself]
  rfl

namespace Value

/-! ## Induction -/

/-- Induction over values, with what is in the brackets given by membership. -/
theorem induct_mem {P : Value → Prop} (null : P .null) (bool : ∀ b, P (.bool b))
    (number : ∀ n, P (.number n)) (string : ∀ x, P (.string x))
    (array : ∀ items, (∀ v ∈ items, P v) → P (.array items))
    (object : ∀ members, (∀ m ∈ members, P m.2) → P (.object members)) (v : Value) : P v := by
  match v with
  | .null => exact null
  | .bool b => exact bool b
  | .number n => exact number n
  | .string x => exact string x
  | .array items =>
    exact array items fun v hv => induct_mem null bool number string array object v
  | .object members =>
    exact object members fun m hm => induct_mem null bool number string array object m.2
termination_by sizeOf v
decreasing_by
  · have hlt := List.sizeOf_lt_of_mem hv
    rw [Value.array.sizeOf_spec]
    omega
  · have hlt := List.sizeOf_lt_of_mem hm
    rw [Value.object.sizeOf_spec]
    rw [Prod.mk.sizeOf_spec m.1 m.2] at hlt
    omega

/-! ## Equality up to the order of keys -/

/-- **Values that are the same up to the order of keys**, at every depth. Of members with the same
key the last one counts. -/
inductive Reordered : Value → Value → Prop where
  | null : Reordered .null .null
  | bool (b : Bool) : Reordered (.bool b) (.bool b)
  | number (n : Number) : Reordered (.number n) (.number n)
  | string (x : String) : Reordered (.string x) (.string x)
  | array {vs ws : List Value} (hlength : vs.length = ws.length)
      (h : ∀ (i : Nat) (v w : Value), vs[i]? = some v → ws[i]? = some w → Reordered v w) :
      Reordered (.array vs) (.array ws)
  | object {ms ns : List (String × Value)}
      (hkeys : ∀ key, (lastMember? key ms).isSome = (lastMember? key ns).isSome)
      (h : ∀ key v w, lastMember? key ms = some v → lastMember? key ns = some w → Reordered v w) :
      Reordered (.object ms) (.object ns)

/-- Two options are the same after a map if they hold something together and what they hold is. -/
theorem map_eq_map_iff {α β : Type} {f : α → β} {a b : Option α} :
    a.map f = b.map f ↔ a.isSome = b.isSome ∧ ∀ v w, a = some v → b = some w → f v = f w := by
  cases a <;> cases b <;> simp

theorem sorted_eq_of_reordered {v w : Value} (h : v.Reordered w) : v.sorted = w.sorted := by
  induction h with
  | null | bool | number | string => rfl
  | @array vs ws hlength _ ih =>
    have hitems : vs.map sorted = ws.map sorted := by
      refine List.ext_getElem? fun i => ?_
      rw [List.getElem?_map, List.getElem?_map, map_eq_map_iff]
      have hplaces : vs[i]?.isSome = ws[i]?.isSome := by grind
      exact ⟨hplaces, ih i⟩
    rw [sorted, sorted, sortedItems_eq_map, sortedItems_eq_map, hitems]
  | @object ms ns hkeys _ ih =>
    have hmembers : Keyed.ofList (sortedMembers ms) = Keyed.ofList (sortedMembers ns) := by
      refine Keyed.eq_of_get?_eq (Keyed.ascending_ofList _) (Keyed.ascending_ofList _) fun key => ?_
      rw [get?_ofList, get?_ofList, sortedMembers_eq_map, sortedMembers_eq_map, lastMember?_map,
        lastMember?_map, map_eq_map_iff]
      exact ⟨hkeys key, ih key⟩
    rw [sorted, sorted, hmembers]

theorem reordered_of_sorted_eq {v w : Value} (h : v.sorted = w.sorted) : v.Reordered w := by
  induction v using induct_mem generalizing w with
  | null =>
    cases w <;> cases h
    exact .null
  | bool b =>
    cases w <;> cases h
    exact .bool b
  | number n =>
    cases w <;> cases h
    exact .number n
  | string x =>
    cases w <;> cases h
    exact .string x
  | array vs ih =>
    cases w with
    | null | bool | number | string | object => cases h
    | array ws =>
      rw [sorted, sorted, sortedItems_eq_map, sortedItems_eq_map] at h
      have hitems := Value.array.inj h
      have hlength : vs.length = ws.length := by simpa using congrArg List.length hitems
      refine .array hlength fun i v w hv hw => ih v (List.mem_of_getElem? hv) ?_
      have hplace := congrArg (·[i]?) hitems
      simpa [List.getElem?_map, hv, hw] using hplace
  | object ms ih =>
    cases w with
    | null | bool | number | string | array => cases h
    | object ns =>
      rw [sorted, sorted] at h
      have hmembers : ∀ key,
          (lastMember? key ms).map sorted = (lastMember? key ns).map sorted := by
        intro key
        have hget := congrArg (Keyed.get? key) (Value.object.inj h)
        rwa [get?_ofList, get?_ofList, sortedMembers_eq_map, sortedMembers_eq_map, lastMember?_map,
          lastMember?_map] at hget
      refine .object (fun key => (map_eq_map_iff.1 (hmembers key)).1) fun key v w hv hw => ?_
      exact ih (key, v) (mem_of_lastMember? hv) ((map_eq_map_iff.1 (hmembers key)).2 v w hv hw)

/-- **Values are the same up to the order of keys** if they are the same in canonical order. -/
theorem sorted_eq_iff {v w : Value} : v.sorted = w.sorted ↔ v.Reordered w :=
  ⟨reordered_of_sorted_eq, sorted_eq_of_reordered⟩

/-- Members in another order make the same object, if no key is repeated. -/
theorem reordered_of_perm {ms ns : List (String × Value)} (hkeys : (ms.map (·.1)).Nodup)
    (h : ms.Perm ns) : (Value.object ms).Reordered (.object ns) := by
  have hother : (ns.map (·.1)).Nodup := (h.map (·.1)).nodup_iff.1 hkeys
  have hlast : ∀ key, lastMember? key ms = lastMember? key ns := by
    intro key
    refine Option.ext fun v => ?_
    rw [lastMember?_eq_some_iff hkeys, lastMember?_eq_some_iff hother, h.mem_iff]
  refine .object (fun key => congrArg Option.isSome (hlast key)) fun key v w hv hw => ?_
  rw [hlast, hw] at hv
  obtain rfl := Option.some.inj hv
  exact sorted_eq_iff.1 rfl

/-! ## Depth -/

/-- **Values without fractions**: every number is whole and of 64 bits, at every depth. -/
inductive Whole : Value → Prop where
  | null : Whole .null
  | bool (b : Bool) : Whole (.bool b)
  | int {n : Int} (hlow : -(maxNegative : Int) ≤ n) (hhigh : n ≤ maxNatural) :
      Whole (.number (.int n))
  | string (x : String) : Whole (.string x)
  | array {items : List Value} (h : ∀ v ∈ items, Whole v) : Whole (.array items)
  | object {members : List (String × Value)} (h : ∀ m ∈ members, Whole m.2) :
      Whole (.object members)

mutual

/-- The largest number of brackets that are open at a time. -/
def depth : Value → Nat
  | .array items => depthItems items + 1
  | .object members => depthMembers members + 1
  | _ => 0

/-- The largest depth of some items. -/
def depthItems : List Value → Nat
  | [] => 0
  | v :: rest => max (depth v) (depthItems rest)

/-- The largest depth of the values of some members. -/
def depthMembers : List (String × Value) → Nat
  | [] => 0
  | (_, v) :: rest => max (depth v) (depthMembers rest)

end

theorem depthItems_le_iff {items : List Value} {levels : Nat} :
    depthItems items ≤ levels ↔ ∀ v ∈ items, v.depth ≤ levels := by
  induction items with
  | nil => simp [depthItems]
  | cons v items ih => rw [depthItems, Nat.max_le, ih, List.forall_mem_cons]

theorem depthMembers_le_iff {members : List (String × Value)} {levels : Nat} :
    depthMembers members ≤ levels ↔ ∀ m ∈ members, m.2.depth ≤ levels := by
  induction members with
  | nil => simp [depthMembers]
  | cons m members ih => rw [depthMembers, Nat.max_le, ih, List.forall_mem_cons]

/-- **A value is read back** by a reader of so many levels if it has no fractions and no greater
depth. -/
theorem Whole.readable {v : Value} (h : v.Whole) {levels : Nat} (hdepth : v.depth ≤ levels) :
    v.Readable levels := by
  induction h generalizing levels with
  | null => exact .null
  | bool b => exact .bool b
  | int hlow hhigh => exact .int hlow hhigh
  | string x => exact .string x
  | array _ ih =>
    rw [depth] at hdepth
    obtain ⟨levels, rfl⟩ := Nat.exists_eq_add_one.2 (Nat.lt_of_lt_of_le (Nat.succ_pos _) hdepth)
    have hitems := depthItems_le_iff.1 (Nat.le_of_succ_le_succ hdepth)
    exact .array fun v hv => ih v hv (hitems v hv)
  | object _ ih =>
    rw [depth] at hdepth
    obtain ⟨levels, rfl⟩ := Nat.exists_eq_add_one.2 (Nat.lt_of_lt_of_le (Nat.succ_pos _) hdepth)
    have hmembers := depthMembers_le_iff.1 (Nat.le_of_succ_le_succ hdepth)
    exact .object fun m hm => ih m hm (hmembers m hm)

end Value

/-- **The canonical form decides equality** up to the order of keys, for values without fractions.
Such a value that is not too deep is read back from its canonical form up to the order of keys, and
what is read has that form again. -/
theorem canonical_decides (v w : Value) (hv : v.Whole) (hw : w.Whole) :
    (v.canonical = w.canonical ↔ v.Reordered w) ∧
    (v.depth ≤ maxLevels →
      ∃ u, parse v.canonical = .ok u ∧ u.Reordered v ∧ u.canonical = v.canonical) := by
  constructor
  · have hreadv := hv.readable (Nat.le_max_left v.depth w.depth)
    have hreadw := hw.readable (Nat.le_max_right v.depth w.depth)
    rw [canonical_eq_iff hreadv hreadw, Value.sorted_eq_iff]
  · intro hdepth
    have hsorted := v.sorted_sorted
    have hparse := (textOf_compact (hv.readable hdepth).sorted).parse
    rw [hsorted] at hparse
    refine ⟨v.sorted, hparse, Value.sorted_eq_iff.1 hsorted, ?_⟩
    rw [Value.canonical, hsorted, Value.canonical]

/-- A value with members at two depths. -/
def nested : Value :=
  .object [("b", .number (.int (-1))), ("a", .array [.string "x", .null])]

/-- The same value with its members in another order. -/
def nestedBack : Value :=
  .object [("a", .array [.string "x", .null]), ("b", .number (.int (-1)))]

theorem canonical_decides_nested :
    nested.Whole ∧ nestedBack.Whole ∧ nested.canonical = nestedBack.canonical ∧
      ∃ u, parse nested.canonical = .ok u ∧ u.Reordered nested ∧
        u.canonical = nested.canonical := by
  have hlist : (Value.array [.string "x", .null]).Whole := by
    refine .array ?_
    simp only [List.forall_mem_cons]
    exact ⟨.string "x", .null, nofun⟩
  have hnumber : (Value.number (.int (-1))).Whole := .int (by decide) (by decide)
  have hnested : nested.Whole := by
    refine .object ?_
    simp only [List.forall_mem_cons]
    exact ⟨hnumber, hlist, nofun⟩
  have hback : nestedBack.Whole := by
    refine .object ?_
    simp only [List.forall_mem_cons]
    exact ⟨hlist, hnumber, nofun⟩
  have hreordered : nested.Reordered nestedBack :=
    Value.reordered_of_perm (by decide) (List.Perm.swap _ _ _)
  obtain ⟨hequal, hread⟩ := canonical_decides nested nestedBack hnested hback
  exact ⟨hnested, hback, hequal.2 hreordered, hread (by decide)⟩

end MailBlocks.Json
