import Mathlib.Data.List.Nodup
import MailBlocks.Proofs.PreviewRuns

/-!
# Edits that commute

A text is put under a key of the first component with an identity. Texts for different places, which
are pairs of an identity and a key, do not get in each other's way, also where several components
have one identity: whatever the order and the times, and whatever ticks come between, the same texts
are taken, and the components and the email come out the same.

* `Draft.put_comm`: two texts for different places.
* `Draft.foldl_put_perm`: any number of them, in any order.
* `Session.answers_doing`, `Session.html_flush_doing`: what a run answers and shows at its end.
* `Session.puts_commute`: two runs with the same texts.
-/

namespace MailBlocks

/-- Texts under two different keys can be put in either order. -/
theorem Bag.insert_comm (b : Bag) {key other : String} (h : key ≠ other) (text text' : String) :
    (b.insert key text).insert other text' = (b.insert other text').insert key text := by
  refine ext_get? fun k => ?_
  simp only [get?_insert]
  split
  · next hother => rw [if_neg (hother ▸ h)]
  · rfl

/-! ## Texts and places -/

/-- **A text for a place**: for a key of the first component with an identity. -/
structure Put where
  id : String
  key : String
  text : String
  deriving DecidableEq

namespace Put

/-- The place of a text. -/
def place (x : Put) : String × String := (x.id, x.key)

/-- The edit that puts the text. -/
def edit (x : Put) : Edit := .put x.id x.key x.text

end Put

/-- Where the first component with an identity stands. -/
def firstWith (cs : List Component) (id : String) : Option Nat :=
  cs.findIdx? (·.id == id)

theorem firstWith_eq_map (cs : List Component) (id : String) :
    firstWith cs id = (cs.map Component.id).findIdx? (· == id) := by
  rw [List.findIdx?_map]
  rfl

theorem id_of_firstWith {cs : List Component} {id : String} {i : Nat}
    (h : firstWith cs id = some i) :
    ∃ hi : i < cs.length, cs[i].id = id ∧ ∀ c ∈ cs.take i, c.id ≠ id := by
  obtain ⟨hi, hid, hbefore⟩ := List.findIdx?_eq_some_iff_getElem.1 h
  refine ⟨hi, beq_iff_eq.1 hid, fun c hc => ?_⟩
  obtain ⟨j, hj, rfl⟩ := List.mem_take_iff_getElem.1 hc
  simpa using hbefore j (by omega)

/-- Putting a text leaves all identities as they are. -/
theorem map_id_modify (cs : List Component) (i : Nat) (key text : String) :
    (cs.modify i (·.set key text)).map Component.id = cs.map Component.id := by
  induction cs generalizing i with
  | nil => cases i <;> rfl
  | cons c cs ih =>
    cases i with
    | zero => rfl
    | succ i => rw [List.modify_succ_cons, List.map_cons, ih, List.map_cons]

namespace Draft

/-- The draft with a text put in its place. -/
def put (d : Draft) (x : Put) : Draft := d.edited x.edit

variable {d : Draft} {x y : Put}

theorem put_of_none (h : firstWith d.components x.id = none) : d.put x = d := by
  have hedit : d.edit? x.edit = none := by
    rw [Put.edit, edit?]
    exact congrArg (Option.map _) h
  rw [put, edited, hedit, Option.getD_none]

theorem put_of_some {i : Nat} (h : firstWith d.components x.id = some i) :
    d.put x = { d with components := d.components.modify i (·.set x.key x.text) } := by
  have hedit : d.edit? x.edit =
      some { d with components := d.components.modify i (·.set x.key x.text) } := by
    rw [Put.edit, edit?]
    exact congrArg (Option.map _) h
  rw [put, edited, hedit, Option.getD_some]

theorem edit?_isSome (d : Draft) (x : Put) :
    (d.edit? x.edit).isSome = (firstWith d.components x.id).isSome := by
  rw [Put.edit, edit?, Option.isSome_map]
  rfl

theorem ids_put (d : Draft) (x : Put) :
    (d.put x).components.map Component.id = d.components.map Component.id := by
  cases h : firstWith d.components x.id with
  | none => rw [put_of_none h]
  | some i => rw [put_of_some h, map_id_modify]

/-- Where a text goes does not depend on the texts before it. -/
theorem firstWith_put (d : Draft) (x : Put) (id : String) :
    firstWith (d.put x).components id = firstWith d.components id := by
  rw [firstWith_eq_map, ids_put, ← firstWith_eq_map]

/-- **Two texts for different places** can be put in either order. -/
theorem put_comm (d : Draft) (h : x.place ≠ y.place) : (d.put x).put y = (d.put y).put x := by
  have hy := d.firstWith_put x y.id
  have hx := d.firstWith_put y x.id
  cases hi : firstWith d.components x.id with
  | none => rw [put_of_none hi, put_of_none (hx.trans hi)]
  | some i =>
    cases hj : firstWith d.components y.id with
    | none => rw [put_of_none hj, put_of_none (hy.trans hj)]
    | some j =>
      rw [put_of_some (hy.trans hj), put_of_some (hx.trans hi), put_of_some hi, put_of_some hj]
      refine congrArg (fun cs => (⟨cs, d.settings⟩ : Draft)) ?_
      by_cases hij : i = j
      · subst hij
        -- one component gets both texts, under keys that differ
        have hid : x.id = y.id := by
          obtain ⟨_, hxid, -⟩ := id_of_firstWith hi
          obtain ⟨_, hyid, -⟩ := id_of_firstWith hj
          exact hxid.symm.trans hyid
        have hkey : x.key ≠ y.key := fun hkey => h (Prod.ext hid hkey)
        rw [List.modify_modify_eq, List.modify_modify_eq]
        congr 1
        funext c
        simp only [Function.comp_apply, Component.set, c.data.insert_comm hkey]
      · exact List.modify_modify_ne _ _ _ hij

/-- **Texts for different places** can be put in any order. -/
theorem foldl_put_perm {xs ys : List Put} (h : xs.Perm ys) (hplaces : (xs.map Put.place).Nodup)
    (d : Draft) : xs.foldl put d = ys.foldl put d := by
  refine h.foldl_eq' (fun x hx y hy d => ?_) d
  by_cases hxy : x = y
  · rw [hxy]
  · exact d.put_comm fun hplace => hxy (List.inj_on_of_nodup_map hplaces hx hy hplace)

end Draft

/-! ## Runs of texts and ticks -/

/-- **What is done while texts are put**: one of them is, or the clock ticks. -/
inductive Deed where
  | put (x : Put) (now : Int)
  | tick (now : Int)

namespace Deed

/-- The action of a preview. -/
def action : Deed → Action
  | put x now => .edit x.edit now
  | tick now => .tick now

/-- The text that is put. -/
def put? : Deed → Option Put
  | put x _ => some x
  | tick _ => none

/-- The texts that are put, in their order. -/
def puts (deeds : List Deed) : List Put := deeds.filterMap put?

theorem puts_concat (deeds : List Deed) (e : Deed) :
    puts (deeds ++ [e]) = puts deeds ++ e.put?.toList := by
  rw [puts, List.filterMap_append]
  cases h : e.put? <;> simp [puts, h]

theorem filterMap_edit? (deeds : List Deed) :
    (deeds.map action).filterMap Action.edit? = (puts deeds).map Put.edit := by
  rw [puts, List.filterMap_map, List.map_filterMap]
  congr 1
  funext e
  cases e <;> rfl

end Deed

/-- A text that was to be put, and whether it was. -/
def Event.answer? : Event → Option (Put × Bool)
  | ⟨.edit (.put id key text) _, done⟩ => some (⟨id, key, text⟩, done)
  | _ => none

namespace Preview

/-- Whether some component has an identity. -/
def holds (p : Preview) (id : String) : Bool :=
  (firstWith p.components id).isSome

/-- A text is put if and only if it has a place. -/
theorem edit_put_fst (p : Preview) (x : Put) (now : Int) :
    (p.edit now x.edit).1 = p.holds x.id := by
  have hplace := p.draft.edit?_isSome x
  have hstep := p.step_edit (fun _ _ => default) x.edit now
  generalize p.edit now x.edit = outcome at hstep
  cases hstep with
  | edited _ h => rw [← Option.isSome_some, ← h, hplace, holds, draft]
  | refused _ h => rw [← Option.isSome_none, ← h, hplace, holds, draft]

end Preview

namespace Session

/-- The session after some deeds with a preview in any state. -/
def doing (p : Preview) (supply : Nat → Nat → FreshIds) (deeds : List Deed) : Session :=
  run supply ⟨p, []⟩ (deeds.map Deed.action)

/-- The answers to the texts of a session, in their order. -/
def answers (s : Session) : List (Put × Bool) := s.history.filterMap Event.answer?

variable (p : Preview) (supply : Nat → Nat → FreshIds) (deeds : List Deed)

theorem doing_concat (e : Deed) :
    doing p supply (deeds ++ [e]) =
      (doing p supply deeds).act (supply (doing p supply deeds).preview.renders) e.action := by
  rw [doing, List.map_append, List.map_singleton, run_concat]
  rfl

/-- The draft of a run comes from its texts alone. -/
theorem draft_doing :
    (doing p supply deeds).preview.draft = (Deed.puts deeds).foldl Draft.put p.draft := by
  rw [doing, draft_run, Deed.filterMap_edit?, List.foldl_map]
  rfl

/-- Texts have the same places all along a run. -/
theorem holds_doing (id : String) : (doing p supply deeds).preview.holds id = p.holds id := by
  have hplaces : ∀ (xs : List Put) (d : Draft),
      firstWith (xs.foldl Draft.put d).components id = firstWith d.components id := by
    intro xs
    induction xs with
    | nil => exact fun _ => rfl
    | cons x xs ih => exact fun d => (ih _).trans (d.firstWith_put x id)
  have hdraft := hplaces (Deed.puts deeds) p.draft
  rw [← draft_doing p supply deeds] at hdraft
  exact congrArg Option.isSome hdraft

theorem answers_act (s : Session) (fresh : Nat → FreshIds) (e : Deed) :
    (s.act fresh e.action).answers =
      s.answers ++ e.put?.toList.map fun x => (x, s.preview.holds x.id) := by
  cases e with
  | put x now =>
    have hanswer := s.preview.edit_put_fst x now
    rw [answers, act, List.filterMap_append, Deed.put?, Option.toList_some, List.map_singleton,
      ← hanswer]
    rfl
  | tick now =>
    rw [answers, act, List.filterMap_append]
    rfl

/-- **Each text of a run is put if and only if some component of the preview had its identity at the
beginning.** -/
theorem answers_doing :
    (doing p supply deeds).answers = (Deed.puts deeds).map fun x => (x, p.holds x.id) := by
  induction deeds using List.reverseRecOn with
  | nil => rfl
  | append_singleton deeds e ih =>
    rw [doing_concat, answers_act, ih, Deed.puts_concat, List.map_append]
    simp only [holds_doing]

/-- **How a preview goes on from `p`**, once something is to be shown and before: without a deadline
the draft is shown, and nothing at all has changed before. -/
structure GoesOn (p : Preview) (shows : Prop) (q : Preview) : Prop where
  html_eq : shows → q.debouncer.deadline = none → ∀ fresh, q.html = q.draft.html fresh
  eq_self : ¬ shows → q = p

/-- Whether a run has something to show: what was pending at its beginning, or a text put. -/
def HasToShow (p : Preview) (deeds : List Deed) : Prop :=
  p.isPending ∨ ∃ x ∈ Deed.puts deeds, p.holds x.id

variable {p deeds}

theorem goesOn_start : GoesOn p (HasToShow p []) p where
  html_eq h hdeadline := by
    rcases h with h | ⟨x, hx, -⟩
    · rw [Preview.isPending, Debouncer.isPending, hdeadline] at h
      cases h
    · cases hx
  eq_self _ := rfl

/-- A preview with a deadline has something to show. -/
theorem GoesOn.hasToShow {q : Preview} (h : GoesOn p (HasToShow p deeds) q) {deadline : Int}
    (hdeadline : q.debouncer.deadline = some deadline) : HasToShow p deeds := by
  by_contra hshows
  refine hshows (.inl ?_)
  rw [← h.eq_self hshows, Preview.isPending, Debouncer.isPending, hdeadline, Option.isSome_some]

theorem hasToShow_concat {e : Deed} :
    HasToShow p (deeds ++ [e]) ↔ HasToShow p deeds ∨ ∃ x, e.put? = some x ∧ p.holds x.id := by
  rw [HasToShow, HasToShow, Deed.puts_concat, or_assoc]
  refine or_congr_right ?_
  simp only [List.mem_append, Option.mem_toList, or_and_right, exists_or]

/-- **One more deed**: the preview goes on. -/
theorem GoesOn.act {s : Session} (h : GoesOn p (HasToShow p deeds) s.preview)
    (hplaces : ∀ id, s.preview.holds id = p.holds id) (fresh : Nat → FreshIds) (e : Deed) :
    GoesOn p (HasToShow p (deeds ++ [e])) (s.act fresh e.action).preview := by
  have hstep := s.preview.step_act fresh e.action
  rw [hasToShow_concat]
  unfold Session.act
  cases e with
  | put x now =>
    have hanswer := s.preview.edit_put_fst x now
    change Preview.Step fresh s.preview (.edit x.edit now) (s.preview.edit now x.edit) at hstep
    change GoesOn p _ (s.preview.edit now x.edit).2
    generalize s.preview.edit now x.edit = outcome at hstep hanswer
    rw [hplaces] at hanswer
    cases hstep with
    | edited _ hd =>
      refine ⟨fun _ hdeadline => ?_, fun hshows => absurd (.inr ⟨x, rfl, hanswer.symm⟩) hshows⟩
      cases hdeadline
    | refused _ hd =>
      have hshows : (HasToShow p deeds ∨ ∃ y, (Deed.put x now).put? = some y ∧ p.holds y.id) ↔
          HasToShow p deeds := by
        refine or_iff_left ?_
        rintro ⟨_, ⟨⟩, hholds⟩
        rw [← hanswer] at hholds
        cases hholds
      rwa [hshows]
  | tick now =>
    have hshows : (HasToShow p deeds ∨ ∃ y, (Deed.tick now).put? = some y ∧ p.holds y.id) ↔
        HasToShow p deeds := or_iff_left (by rintro ⟨_, ⟨⟩, -⟩)
    rw [hshows]
    change Preview.Step fresh s.preview (.tick now) (s.preview.tick fresh now) at hstep
    change GoesOn p _ (s.preview.tick fresh now).2
    generalize s.preview.tick fresh now = outcome at hstep
    cases hstep with
    | due hd hnow =>
      refine ⟨fun _ _ other => ?_, fun hnothing => absurd (h.hasToShow hd) hnothing⟩
      exact (s.preview.html_shown fresh).trans (s.preview.draft.html_fresh fresh other)
    | early hd => exact h

variable (p deeds)

theorem goesOn_doing : GoesOn p (HasToShow p deeds) (doing p supply deeds).preview := by
  induction deeds using List.reverseRecOn with
  | nil => exact goesOn_start
  | append_singleton deeds e ih =>
    rw [doing_concat]
    exact ih.act (holds_doing p supply deeds) _ e

/-- **What a last flush shows** is the draft, if there is anything to show, and else what has been
shown all along. -/
theorem html_flush_doing (fresh other : Nat → FreshIds) :
    (HasToShow p deeds → ((doing p supply deeds).preview.flush fresh).2.html =
      (doing p supply deeds).preview.draft.html other) ∧
    (¬ HasToShow p deeds → ((doing p supply deeds).preview.flush fresh).2.html = p.html) := by
  have hgoes := goesOn_doing p supply deeds
  generalize (doing p supply deeds).preview = q at hgoes
  have hstep := q.step_act fresh .flush
  change Preview.Step fresh q .flush (q.flush fresh) at hstep
  generalize q.flush fresh = outcome at hstep
  cases hstep with
  | pending hd =>
    exact ⟨fun _ => (q.html_shown fresh).trans (q.draft.html_fresh fresh other),
      fun hnothing => absurd (hgoes.hasToShow hd) hnothing⟩
  | idle hd =>
    exact ⟨fun hshows => hgoes.html_eq hshows hd other,
      fun hnothing => congrArg Preview.html (hgoes.eq_self hnothing)⟩

end Session

/-! ## What one text changes -/

namespace Preview

/-- The components with a text put: one of them has it, the first with the identity. -/
theorem exists_of_update {p : Preview} {id key text : String} {now : Int}
    (h : (p.update id key text now).1 = true) :
    ∃ before c after, p.components = before ++ c :: after ∧ c.id = id ∧
      (∀ b ∈ before, b.id ≠ id) ∧
      (p.update id key text now).2.components = before ++ c.set key text :: after := by
  cases hi : firstWith p.components id with
  | none =>
    rw [update, ← firstWith, hi] at h
    cases h
  | some i =>
    obtain ⟨hlt, hid, hbefore⟩ := id_of_firstWith hi
    refine ⟨p.components.take i, p.components[i], p.components.drop (i + 1), ?_, hid, hbefore, ?_⟩
    · rw [← List.drop_eq_getElem_cons hlt, List.take_append_drop]
    · rw [update, ← firstWith, hi]
      exact List.modify_eq_take_cons_drop hlt

end Preview

/-! ## Two runs with the same texts -/

/-- **Texts for different places commute.** From any state of a preview, two runs that put the same
texts, for places of which no two are the same, in any order, at any times and with any ticks in
between, give the same answer to each text and the same components, and show the same email after a
last flush, whatever identities their renderings draw. Each text that is put is stored under its key
in the first component with its identity, and all else stays as it is: the other texts of that
component, its identity and type, the other components and their order. -/
theorem Session.puts_commute (p : Preview) :
    (∀ (supply other : Nat → Nat → FreshIds) (deeds others : List Deed),
      (Deed.puts deeds).Perm (Deed.puts others) → ((Deed.puts deeds).map Put.place).Nodup →
      (doing p supply deeds).answers.Perm (doing p other others).answers ∧
      (doing p supply deeds).preview.components = (doing p other others).preview.components ∧
      ∀ fresh fresh', ((doing p supply deeds).preview.flush fresh).2.html =
        ((doing p other others).preview.flush fresh').2.html) ∧
    ∀ id key text now, (p.update id key text now).1 = true →
      ∃ before c changed after, p.components = before ++ c :: after ∧ c.id = id ∧
        (∀ b ∈ before, b.id ≠ id) ∧
        (p.update id key text now).2.components = before ++ changed :: after ∧
        changed.id = c.id ∧ changed.type = c.type ∧ changed.data.get? key = some text ∧
        ∀ k ≠ key, changed.data.get? k = c.data.get? k := by
  refine ⟨fun supply other deeds others hperm hplaces => ?_, fun id key text now hdone => ?_⟩
  · have hdraft : (doing p supply deeds).preview.draft = (doing p other others).preview.draft := by
      rw [draft_doing, draft_doing, Draft.foldl_put_perm hperm hplaces]
    have hshows : HasToShow p deeds ↔ HasToShow p others :=
      or_congr_right (exists_congr fun x => and_congr_left' hperm.mem_iff)
    refine ⟨?_, congrArg Draft.components hdraft, fun fresh fresh' => ?_⟩
    · rw [answers_doing, answers_doing]
      exact hperm.map _
    · obtain ⟨hshown, hnothing⟩ := html_flush_doing p supply deeds fresh fresh
      obtain ⟨hshown', hnothing'⟩ := html_flush_doing p other others fresh' fresh
      by_cases h : HasToShow p deeds
      · rw [hshown h, hshown' (hshows.1 h), hdraft]
      · rw [hnothing h, hnothing' fun h' => h (hshows.2 h')]
  · obtain ⟨before, c, after, hsplit, hid, hbefore, hchanged⟩ := Preview.exists_of_update hdone
    exact ⟨before, c, c.set key text, after, hsplit, hid, hbefore, hchanged, rfl, rfl,
      c.data.get?_insert_self key text, fun k hk => c.data.get?_insert_of_ne text hk.symm⟩

/-- A preview of two components with one identity. -/
def twinPreview : Preview :=
  .new (fun _ => default) .standard [⟨"1", "header", ∅⟩, ⟨"1", "button", ∅⟩] .standard

/-- Two texts for the first of them, and one for no component. -/
def headingFirst : List Deed :=
  [.put ⟨"1", "text", "Hi"⟩ 0, .tick 300, .put ⟨"2", "text", "Ho"⟩ 310,
    .put ⟨"1", "color", "red"⟩ 320]

/-- The same texts in another order, at other times and without a tick. -/
def headingLast : List Deed :=
  [.put ⟨"1", "color", "red"⟩ 50, .put ⟨"1", "text", "Hi"⟩ 40, .put ⟨"2", "text", "Ho"⟩ 60]

theorem Session.puts_commute_twins :
    (Deed.puts headingFirst).Perm (Deed.puts headingLast) ∧
    ((Deed.puts headingFirst).map Put.place).Nodup ∧
    ((doing twinPreview (fun _ _ => default) headingFirst).preview.flush fun _ => default).2.html =
      ((doing twinPreview (fun _ _ => default) headingLast).preview.flush fun _ => default).2.html ∧
    (twinPreview.update "1" "text" "Hi" 0).1 = true ∧
    ∃ changed : Component, (twinPreview.update "1" "text" "Hi" 0).2.components =
      [changed, ⟨"1", "button", ∅⟩] ∧ changed.data.get? "text" = some "Hi" := by
  have hperm : (Deed.puts headingFirst).Perm (Deed.puts headingLast) := by decide
  have hplaces : ((Deed.puts headingFirst).map Put.place).Nodup := by decide
  have hdone : (twinPreview.update "1" "text" "Hi" 0).1 = true := rfl
  obtain ⟨hrun, hput⟩ := puts_commute twinPreview
  obtain ⟨-, -, hhtml⟩ := hrun (fun _ _ => default) (fun _ _ => default) _ _ hperm hplaces
  obtain ⟨before, c, changed, after, hsplit, -, hbefore, hchanged, -, -, htext, -⟩ :=
    hput "1" "text" "Hi" 0 hdone
  refine ⟨hperm, hplaces, hhtml _ _, hdone, changed, ?_, htext⟩
  -- nothing stands before the first component with the identity
  cases before with
  | nil =>
    obtain ⟨-, rfl⟩ := List.cons.inj hsplit
    exact hchanged
  | cons b before =>
    obtain ⟨rfl, -⟩ := List.cons.inj hsplit
    exact absurd rfl (hbefore _ List.mem_cons_self)

end MailBlocks
