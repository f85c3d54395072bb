/-!
# Lists of pairs in ascending key order

The order of keys is that of their code points. Attribute bags and parsed objects keep their pairs
in this order, so that equal contents mean equal lists.

* `ascending_insert`, `ascending_erase`: the order is kept.
* `get?_insert`, `get?_erase`: what a look-up finds after a change.
* `ofList_of_ascending`: ascending lists are kept as they are.
* `eq_of_get?_eq`: in ascending lists, the look-ups determine the list.
-/

namespace MailBlocks.Keyed

variable {α : Type}

/-- **Ascending lists**: each key is below all later ones. -/
def Ascending (entries : List (String × α)) : Prop :=
  entries.Pairwise fun a b => a.1 < b.1

instance (entries : List (String × α)) : Decidable (Ascending entries) :=
  inferInstanceAs (Decidable (entries.Pairwise fun a b => a.1 < b.1))

/-- The value stored under a key. -/
def get? (key : String) : List (String × α) → Option α
  | [] => none
  | (k, v) :: rest => if k = key then some v else get? key rest

/-- Stores a value under a key, in place of the value that is there. -/
def insert (key : String) (value : α) : List (String × α) → List (String × α)
  | [] => [(key, value)]
  | (k, v) :: rest =>
    if key < k then (key, value) :: (k, v) :: rest
    else if key = k then (key, value) :: rest
    else (k, v) :: insert key value rest

/-- Drops the value stored under a key. -/
def erase (key : String) : List (String × α) → List (String × α)
  | [] => []
  | (k, v) :: rest => if k = key then rest else (k, v) :: erase key rest

/-- The ascending list of some pairs, of which the last counts where a key is repeated. -/
def ofList (pairs : List (String × α)) : List (String × α) :=
  pairs.foldl (fun entries p => insert p.1 p.2 entries) []

theorem lt_of_not_lt_of_ne {a b : String} (h : ¬a < b) (hne : a ≠ b) : b < a := by
  rcases Decidable.em (b < a) with hb | hb
  · exact hb
  · exact absurd (String.le_antisymm hb h) hne

theorem key_mem_insert {key : String} {value : α} {entries : List (String × α)} {p : String × α}
    (h : p ∈ insert key value entries) : p = (key, value) ∨ p ∈ entries := by
  induction entries with
  | nil => simpa [insert] using h
  | cons e rest ih =>
    simp only [insert] at h
    split at h
    · simpa using h
    · split at h
      · rcases List.mem_cons.1 h with h | h
        · exact Or.inl h
        · exact Or.inr (List.mem_cons_of_mem _ h)
      · rcases List.mem_cons.1 h with h | h
        · exact Or.inr (by simp [h])
        · rcases ih h with h | h
          · exact Or.inl h
          · exact Or.inr (List.mem_cons_of_mem _ h)

theorem ascending_insert {key : String} {value : α} {entries : List (String × α)}
    (h : Ascending entries) : Ascending (insert key value entries) := by
  induction entries with
  | nil => simp [insert, Ascending]
  | cons e rest ih =>
    obtain ⟨hall, hrest⟩ := List.pairwise_cons.1 h
    simp only [insert]
    split
    · next hlt =>
      refine List.pairwise_cons.2 ⟨fun p hp => ?_, h⟩
      rcases List.mem_cons.1 hp with rfl | hp
      · exact hlt
      · exact String.lt_trans hlt (hall p hp)
    · split
      · next heq => exact List.pairwise_cons.2 ⟨fun p hp => heq ▸ hall p hp, hrest⟩
      · next hlt hne =>
        refine List.pairwise_cons.2 ⟨fun p hp => ?_, ih hrest⟩
        rcases key_mem_insert hp with rfl | hp
        · exact lt_of_not_lt_of_ne hlt hne
        · exact hall p hp

theorem mem_of_mem_erase {key : String} {entries : List (String × α)} {p : String × α}
    (h : p ∈ erase key entries) : p ∈ entries := by
  induction entries with
  | nil => simp [erase] at h
  | cons e rest ih =>
    simp only [erase] at h
    split at h
    · exact List.mem_cons_of_mem _ h
    · rcases List.mem_cons.1 h with h | h
      · simp [h]
      · exact List.mem_cons_of_mem _ (ih h)

theorem ascending_erase {key : String} {entries : List (String × α)} (h : Ascending entries) :
    Ascending (erase key entries) := by
  induction entries with
  | nil => simpa [erase] using h
  | cons e rest ih =>
    obtain ⟨hall, hrest⟩ := List.pairwise_cons.1 h
    simp only [erase]
    split
    · exact hrest
    · exact List.pairwise_cons.2 ⟨fun p hp => hall p (mem_of_mem_erase hp), ih hrest⟩

theorem ascending_ofList (pairs : List (String × α)) : Ascending (ofList pairs) := by
  suffices h : ∀ entries : List (String × α), Ascending entries →
      Ascending (pairs.foldl (fun entries p => insert p.1 p.2 entries) entries) from
    h [] List.Pairwise.nil
  induction pairs with
  | nil => exact fun _ h => h
  | cons p pairs ih => exact fun entries h => ih _ (ascending_insert h)

/-- The pairs of an ascending list are among those that it was made of. -/
theorem mem_of_mem_ofList {pairs : List (String × α)} {p : String × α} (h : p ∈ ofList pairs) :
    p ∈ pairs := by
  -- over the entries that are already put
  suffices hs : ∀ entries : List (String × α),
      p ∈ pairs.foldl (fun entries p => insert p.1 p.2 entries) entries → p ∈ pairs ∨ p ∈ entries by
    rcases hs [] h with hp | hp
    · exact hp
    · cases hp
  clear h
  induction pairs with
  | nil => exact fun entries hp => .inr hp
  | cons q pairs ih =>
    intro entries hp
    rcases ih _ hp with hp | hp
    · exact .inl (List.mem_cons_of_mem q hp)
    · rcases key_mem_insert hp with rfl | hp
      · exact .inl List.mem_cons_self
      · exact .inr hp

theorem insert_of_forall_lt {key : String} {value : α} {entries : List (String × α)}
    (h : ∀ p ∈ entries, p.1 < key) : insert key value entries = entries ++ [(key, value)] := by
  induction entries with
  | nil => rfl
  | cons e rest ih =>
    obtain ⟨he, hrest⟩ := List.forall_mem_cons.1 h
    have hlt : ¬key < e.1 := fun hk => String.lt_irrefl key (String.lt_trans hk he)
    have hne : key ≠ e.1 := fun hk => String.lt_irrefl key (hk ▸ he)
    simp [insert, hlt, hne, ih hrest]

/-- An ascending list is the list of its pairs. -/
theorem ofList_of_ascending {entries : List (String × α)} (h : Ascending entries) :
    ofList entries = entries := by
  suffices hs : ∀ done : List (String × α), Ascending (done ++ entries) →
      entries.foldl (fun entries p => insert p.1 p.2 entries) done = done ++ entries from hs [] h
  clear h
  induction entries with
  | nil => simp
  | cons e rest ih =>
    intro done hall
    have hlt : ∀ p ∈ done, p.1 < e.1 := fun p hp =>
      (List.pairwise_append.1 hall).2.2 p hp e List.mem_cons_self
    rw [List.foldl_cons, insert_of_forall_lt hlt, ih (done ++ [(e.1, e.2)]) (by simpa using hall)]
    simp

theorem mem_of_get? {key : String} {value : α} {entries : List (String × α)}
    (h : get? key entries = some value) : (key, value) ∈ entries := by
  induction entries with
  | nil => cases h
  | cons e rest ih =>
    rw [get?] at h
    split at h
    · next hkey =>
      rw [← hkey, ← Option.some.inj h]
      exact List.mem_cons_self
    · exact List.mem_cons_of_mem e (ih h)

theorem get?_eq_none_of_lt {key : String} {entries : List (String × α)}
    (h : ∀ p ∈ entries, key < p.1) : get? key entries = none := by
  induction entries with
  | nil => rfl
  | cons e rest ih =>
    have hne : e.1 ≠ key := fun he => String.lt_irrefl key (he ▸ h e (by simp))
    simp [get?, hne, ih fun p hp => h p (List.mem_cons_of_mem _ hp)]

/-- A pass that skips a key does not see what is stored under it. -/
theorem filterMap_insert {β : Type} {key : String} {f : String × α → Option β}
    (h : ∀ value, f (key, value) = none) (value : α) (entries : List (String × α)) :
    (insert key value entries).filterMap f = entries.filterMap f := by
  induction entries with
  | nil => simp [insert, h]
  | cons e rest ih =>
    obtain ⟨k, held⟩ := e
    rw [insert]
    split
    · rw [List.filterMap_cons, h]
    · split
      · next hkey =>
        subst hkey
        rw [List.filterMap_cons, List.filterMap_cons, h, h]
      · rw [List.filterMap_cons, List.filterMap_cons, ih]

/-- A look-up after storing a value finds that value under its key and is unchanged elsewhere. -/
theorem get?_insert {key other : String} {value : α} {entries : List (String × α)} :
    get? other (insert key value entries) =
      if key = other then some value else get? other entries := by
  induction entries with
  | nil => simp [insert, get?]
  | cons e rest ih =>
    simp only [insert]
    split
    · simp [get?]
    · split
      · next heq => by_cases h : e.1 = other <;> simp_all [get?]
      · next hne =>
        by_cases h : e.1 = other
        · have : key ≠ other := fun hk => hne (hk.trans h.symm)
          simp [get?, h, this]
        · simp [get?, h, ih]

/-- A look-up after dropping a key finds nothing under that key and is unchanged elsewhere. -/
theorem get?_erase {key other : String} {entries : List (String × α)} (h : Ascending entries) :
    get? other (erase key entries) = if key = other then none else get? other entries := by
  induction entries with
  | nil => simp [erase, get?]
  | cons e rest ih =>
    obtain ⟨hall, hrest⟩ := List.pairwise_cons.1 h
    simp only [erase]
    split
    · next heq =>
      by_cases ho : key = other
      · have := get?_eq_none_of_lt hall
        simp_all
      · have : e.1 ≠ other := fun he => ho (heq.symm.trans he)
        simp [get?, ho, this]
    · next hne =>
      by_cases he : e.1 = other
      · have : key ≠ other := fun hk => hne (he.trans hk.symm)
        simp [get?, he, this]
      · simp [get?, he, ih hrest]

/-- **Ascending lists with the same look-ups are equal.** -/
theorem eq_of_get?_eq {xs ys : List (String × α)} (hx : Ascending xs) (hy : Ascending ys)
    (h : ∀ key, get? key xs = get? key ys) : xs = ys := by
  induction xs generalizing ys with
  | nil =>
    cases ys with
    | nil => rfl
    | cons e ys => have := h e.1; simp [get?] at this
  | cons d xs ih =>
    obtain ⟨hxall, hxrest⟩ := List.pairwise_cons.1 hx
    cases ys with
    | nil => have := h d.1; simp [get?] at this
    | cons e ys =>
      obtain ⟨hyall, hyrest⟩ := List.pairwise_cons.1 hy
      have hkey : d.1 = e.1 := by
        rcases Decidable.em (d.1 = e.1) with hk | hk
        · exact hk
        exfalso
        rcases Decidable.em (d.1 < e.1) with hlt | hlt
        · have hnone : get? d.1 (e :: ys) = none := get?_eq_none_of_lt fun p hp => by
            rcases List.mem_cons.1 hp with rfl | hp
            · exact hlt
            · exact String.lt_trans hlt (hyall p hp)
          have := h d.1
          rw [hnone] at this
          simp [get?] at this
        · have hgt := lt_of_not_lt_of_ne hlt hk
          have hnone : get? e.1 (d :: xs) = none := get?_eq_none_of_lt fun p hp => by
            rcases List.mem_cons.1 hp with rfl | hp
            · exact hgt
            · exact String.lt_trans hgt (hxall p hp)
          have := h e.1
          rw [hnone] at this
          simp [get?] at this
      have hval : d = e := by
        have := h d.1
        simp only [get?, hkey, if_true] at this
        exact Prod.ext hkey (Option.some.inj this)
      subst hval
      refine congrArg _ (ih hxrest hyrest fun key => ?_)
      by_cases hk : d.1 = key
      · subst hk
        rw [get?_eq_none_of_lt hxall, get?_eq_none_of_lt hyall]
      · have := h key
        simpa [get?, hk] using this

end MailBlocks.Keyed
