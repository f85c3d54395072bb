import Mathlib.Data.List.Induction
import MailBlocks.Preview
import MailBlocks.Proofs.OfferIdentities

/-!
# Runs of a preview

A session is a preview with the history of what was done with it: edits, ticks and flushes in any
order, at times that may also go back. The preview keeps no more of its history than one deadline;
the statements here are about the whole history.

* `Preview.Step`: all that an action can do.
* `Awaits`: a history whose last edit is not shown yet.
* `Session.Sound`: what every action preserves.
* `html_run`: a preview without a deadline shows what is under edit.
* `debounced_run`: when ticks and flushes render, and how often.
-/

namespace MailBlocks

/-! ## Edits and drafts -/

/-- **What is under edit.** -/
structure Draft where
  components : List Component
  settings : DesignSettings
  deriving DecidableEq

/-- **An edit.** -/
inductive Edit where
  | components (components : List Component)
  | put (id key text : String)
  | settings (settings : DesignSettings)

namespace Draft

/-- The email of a draft. -/
def html (fresh : Nat → FreshIds) (d : Draft) : String :=
  Email.renderComponents fresh d.components d.settings

theorem html_fresh (fresh other : Nat → FreshIds) (d : Draft) : d.html fresh = d.html other :=
  Email.renderComponents_fresh fresh other d.components d.settings

/-- The draft after an edit. A text can be put where some component has the
identity, into the first of them. -/
def edit? (d : Draft) : Edit → Option Draft
  | .components cs => some { d with components := cs }
  | .put id key text =>
    (d.components.findIdx? (·.id == id)).map fun i =>
      { d with components := d.components.modify i (·.set key text) }
  | .settings s => some { d with settings := s }

/-- The draft after an edit that changes nothing where it cannot be made. -/
def edited (d : Draft) (e : Edit) : Draft :=
  (d.edit? e).getD d

theorem edit?_put_eq_none {d : Draft} {id : String} (h : ∀ c ∈ d.components, c.id ≠ id)
    (key text : String) : d.edit? (.put id key text) = none := by
  have hnone : d.components.findIdx? (·.id == id) = none :=
    List.findIdx?_eq_none_iff.2 fun c hc => beq_eq_false_iff_ne.2 (h c hc)
  rw [edit?, hnone, Option.map_none]

end Draft

/-! ## Steps -/

/-- **An action**, at a time where that matters. -/
inductive Action where
  | edit (edit : Edit) (now : Int)
  | tick (now : Int)
  | flush

/-- The edit of an action. -/
def Action.edit? : Action → Option Edit
  | .edit e _ => some e
  | _ => none

namespace Preview

/-- What is under edit in a preview. -/
def draft (p : Preview) : Draft := ⟨p.components, p.settings⟩

/-- Makes an edit, and tells whether it could be made. -/
def edit (p : Preview) (now : Int) : Edit → Bool × Preview
  | .components cs => (true, p.setComponents cs now)
  | .put id key text => p.update id key text now
  | .settings s => (true, p.setSettings s now)

/-- Does an action, and tells whether the edit was made or the email rendered. -/
def act (fresh : Nat → FreshIds) (p : Preview) : Action → Bool × Preview
  | .edit e now => p.edit now e
  | .tick now => p.tick fresh now
  | .flush => p.flush fresh

/-- The preview with a draft under edit since a time. -/
def adopt (p : Preview) (d : Draft) (now : Int) : Preview :=
  { p with
    components := d.components
    settings := d.settings
    debouncer := p.debouncer.schedule now }

/-- The preview with its draft shown. -/
def shown (fresh : Nat → FreshIds) (p : Preview) : Preview :=
  rerender fresh { p with debouncer := p.debouncer.cancel }

theorem html_draft (fresh : Nat → FreshIds) (p : Preview) :
    p.draft.html fresh = Email.renderComponents fresh p.components p.settings := by
  dsimp only [draft, Draft.html]

theorem html_shown (fresh : Nat → FreshIds) (p : Preview) :
    (p.shown fresh).html = p.draft.html fresh := by
  dsimp only [shown, rerender, draft, Draft.html]

theorem html_new (fresh : Nat → FreshIds) (config : PreviewConfig) (d : Draft) :
    (Preview.new fresh config d.components d.settings).html = d.html fresh := by
  dsimp only [Preview.new, Draft.html]

/-- **All that an action can do**, its answer and the preview after it. -/
inductive Step (fresh : Nat → FreshIds) (p : Preview) : Action → Bool × Preview → Prop where
  | edited {e : Edit} {d : Draft} (now : Int) (h : p.draft.edit? e = some d) :
      Step fresh p (.edit e now) (true, p.adopt d now)
  | refused {e : Edit} (now : Int) (h : p.draft.edit? e = none) :
      Step fresh p (.edit e now) (false, p)
  | due {deadline now : Int} (h : p.debouncer.deadline = some deadline) (hnow : deadline ≤ now) :
      Step fresh p (.tick now) (true, p.shown fresh)
  | early {now : Int} (h : ∀ deadline, p.debouncer.deadline = some deadline → now < deadline) :
      Step fresh p (.tick now) (false, p)
  | pending {deadline : Int} (h : p.debouncer.deadline = some deadline) :
      Step fresh p .flush (true, p.shown fresh)
  | idle (h : p.debouncer.deadline = none) : Step fresh p .flush (false, p)

theorem step_edit (fresh : Nat → FreshIds) (p : Preview) (e : Edit) (now : Int) :
    Step fresh p (.edit e now) (p.edit now e) := by
  cases e with
  | components cs => exact .edited now (d := ⟨cs, p.settings⟩) rfl
  | settings s => exact .edited now (d := ⟨p.components, s⟩) rfl
  | put id key text =>
    cases hi : p.components.findIdx? (·.id == id) with
    | some i =>
      have hedit : p.draft.edit? (.put id key text) =
          some ⟨p.components.modify i (·.set key text), p.settings⟩ := by
        rw [Draft.edit?, draft, hi, Option.map_some]
      rw [edit, update, hi]
      exact .edited now hedit
    | none =>
      have hedit : p.draft.edit? (.put id key text) = none := by
        rw [Draft.edit?, draft, hi, Option.map_none]
      rw [edit, update, hi]
      exact .refused now hedit

theorem step_act (fresh : Nat → FreshIds) (p : Preview) (a : Action) :
    Step fresh p a (p.act fresh a) := by
  cases a with
  | edit e now => exact step_edit fresh p e now
  | tick now =>
    cases hd : p.debouncer.deadline with
    | none =>
      have hpoll : p.debouncer.poll now = (false, p.debouncer) := by rw [Debouncer.poll, hd]
      rw [act, tick, hpoll]
      exact .early (by simp [hd])
    | some deadline =>
      by_cases hnow : deadline ≤ now
      · have hpoll : p.debouncer.poll now = (true, p.debouncer.cancel) := by
          simp only [Debouncer.poll, hd, if_pos hnow]
        rw [act, tick, hpoll]
        exact .due hd hnow
      · have hpoll : p.debouncer.poll now = (false, p.debouncer) := by
          simp only [Debouncer.poll, hd, if_neg hnow]
        rw [act, tick, hpoll]
        refine .early fun d h => ?_
        obtain rfl := Option.some.inj (hd.symm.trans h)
        exact Int.not_le.1 hnow
  | flush =>
    cases hd : p.debouncer.deadline with
    | none =>
      rw [act, flush, if_neg (by simp [isPending, Debouncer.isPending, hd])]
      exact .idle hd
    | some deadline =>
      rw [act, flush, if_pos (by simp [isPending, Debouncer.isPending, hd])]
      exact .pending hd

end Preview

/-! ## Histories -/

/-- **What has happened**: an action with its answer. -/
structure Event where
  action : Action
  done : Bool

namespace Event

/-- The time of an edit that was made. -/
def edited? : Event → Option Int
  | ⟨.edit _ now, true⟩ => some now
  | _ => none

/-- Whether the email was rendered. -/
def rendered : Event → Bool
  | ⟨.tick _, done⟩ => done
  | ⟨.flush, done⟩ => done
  | ⟨.edit _ _, _⟩ => false

end Event

/-- **A history whose last edit is not shown yet**: since that edit, at the given time, there was
neither another one nor a rendering. -/
def Awaits (history : List Event) (time : Int) : Prop :=
  ∃ before e after, history = before ++ e :: after ∧ e.edited? = some time ∧
    ∀ x ∈ after, x.edited? = none ∧ x.rendered = false

/-- Where an element stands in a list with one more element at its end. -/
theorem concat_eq_append_cons {α : Type} {l before after : List α} {x y : α}
    (h : l ++ [y] = before ++ x :: after) :
    (before = l ∧ x = y ∧ after = []) ∨
      ∃ rest, after = rest ++ [y] ∧ l = before ++ x :: rest := by
  rcases List.eq_nil_or_concat after with rfl | ⟨rest, z, rfl⟩
  · obtain ⟨hl, hx⟩ := List.append_inj' h rfl
    exact .inl ⟨hl.symm, (List.singleton_inj.1 hx).symm, rfl⟩
  · have hsplit : l ++ [y] = (before ++ x :: rest) ++ [z] := by simpa using h
    obtain ⟨hl, hz⟩ := List.append_inj' hsplit rfl
    obtain rfl := List.singleton_inj.1 hz
    exact .inr ⟨rest, by simp, hl⟩

theorem not_awaits_nil (time : Int) : ¬ Awaits [] time := by
  rintro ⟨before, e, after, h, -⟩
  cases before <;> cases h

/-- The last event decides, unless it did nothing. -/
theorem awaits_concat {history : List Event} {x : Event} {time : Int} :
    Awaits (history ++ [x]) time ↔
      x.edited? = some time ∨ x.edited? = none ∧ x.rendered = false ∧ Awaits history time := by
  constructor
  · rintro ⟨before, e, after, h, he, hafter⟩
    rcases concat_eq_append_cons h with ⟨-, rfl, -⟩ | ⟨rest, rfl, hhistory⟩
    · exact .inl he
    · obtain ⟨hedited, hrendered⟩ := hafter x (by simp)
      exact .inr ⟨hedited, hrendered, before, e, rest, hhistory, he,
        fun z hz => hafter z (by simp [hz])⟩
  · rintro (hx | ⟨hedited, hrendered, before, e, after, rfl, he, hafter⟩)
    · exact ⟨history, x, [], rfl, hx, by simp⟩
    · refine ⟨before, e, after ++ [x], by simp, he, fun z hz => ?_⟩
      rcases List.mem_append.1 hz with hz | hz
      · exact hafter z hz
      · obtain rfl := List.mem_singleton.1 hz
        exact ⟨hedited, hrendered⟩

/-! ## Sessions -/

/-- **A session**: a preview and what has happened to it. -/
structure Session where
  preview : Preview
  history : List Event

namespace Session

/-- A session with a new preview. -/
def start (fresh : Nat → FreshIds) (config : PreviewConfig) (d : Draft) : Session :=
  ⟨.new fresh config d.components d.settings, []⟩

theorem draft_start (fresh : Nat → FreshIds) (config : PreviewConfig) (d : Draft) :
    (start fresh config d).preview.draft = d := by
  dsimp only [start, Preview.new, Preview.draft]

/-- The session after an action. -/
def act (fresh : Nat → FreshIds) (s : Session) (a : Action) : Session :=
  let (done, p) := s.preview.act fresh a
  ⟨p, s.history ++ [⟨a, done⟩]⟩

/-- **The session after some actions.** Each rendering has a supply of identities of its own. -/
def run (supply : Nat → Nat → FreshIds) (s : Session) (actions : List Action) : Session :=
  actions.foldl (fun s a => s.act (supply s.preview.renders) a) s

theorem run_concat (supply : Nat → Nat → FreshIds) (s : Session) (actions : List Action)
    (a : Action) :
    s.run supply (actions ++ [a]) =
      (s.run supply actions).act (supply (s.run supply actions).preview.renders) a :=
  List.foldl_concat ..

/-- **What holds of a session** whose quiet window has the given length: the deadline stands one
window behind an edit that is not shown yet; without a deadline the draft is shown; renderings are
counted from one; each of them shows an edit, and if it came by a tick, at least a window later. -/
structure Sound (window : Nat) (s : Session) : Prop where
  window_eq : s.preview.debouncer.window = window
  deadline_iff : ∀ time : Int, s.preview.debouncer.deadline = some (time + window) ↔
    Awaits s.history time
  html_eq : s.preview.debouncer.deadline = none →
    ∀ fresh, s.preview.html = s.preview.draft.html fresh
  renders_eq : s.preview.renders = 1 + s.history.countP Event.rendered
  awaits_of_rendered : ∀ before x after, s.history = before ++ x :: after → x.rendered →
    ∃ time, Awaits before time ∧ ∀ now, x.action = .tick now → time + window ≤ now

variable {window : Nat} {s : Session}

theorem sound_start (fresh : Nat → FreshIds) (config : PreviewConfig) (d : Draft) :
    (start fresh config d).Sound config.debounce where
  window_eq := rfl
  deadline_iff time := ⟨nofun, fun h => absurd h (not_awaits_nil time)⟩
  html_eq _ other := (Preview.html_new fresh config d).trans (d.html_fresh fresh other)
  renders_eq := rfl
  awaits_of_rendered before x after h := by
    cases before <;> cases h

theorem Sound.awaits_of_deadline (h : s.Sound window) {deadline : Int}
    (hd : s.preview.debouncer.deadline = some deadline) :
    Awaits s.history (deadline - window) :=
  (h.deadline_iff _).1 (by rw [hd, Int.sub_add_cancel])

/-- Renderings in a history that goes on are those before and perhaps the last event. -/
theorem awaits_of_rendered_concat (h : s.Sound window) {y : Event}
    (hy : y.rendered → ∃ time, Awaits s.history time ∧
      ∀ now, y.action = .tick now → time + window ≤ now)
    {before after : List Event} {x : Event} (hsplit : s.history ++ [y] = before ++ x :: after)
    (hx : x.rendered) :
    ∃ time, Awaits before time ∧ ∀ now, x.action = .tick now → time + window ≤ now := by
  rcases concat_eq_append_cons hsplit with ⟨rfl, rfl, -⟩ | ⟨rest, -, hhistory⟩
  · exact hy hx
  · exact h.awaits_of_rendered before x rest hhistory hx

/-- An event that did nothing leaves a sound session sound. -/
theorem Sound.skip (h : s.Sound window) {x : Event} (hedited : x.edited? = none)
    (hrendered : x.rendered = false) : Sound window ⟨s.preview, s.history ++ [x]⟩ where
  window_eq := h.window_eq
  deadline_iff time := by
    rw [awaits_concat, hedited, hrendered]
    simpa using h.deadline_iff time
  html_eq := h.html_eq
  renders_eq := by
    have hcount := h.renders_eq
    simpa [List.countP_append, hrendered] using hcount
  awaits_of_rendered _ _ _ :=
    awaits_of_rendered_concat h fun hx => by rw [hrendered] at hx; cases hx

/-- A rendering of an edit that is not shown yet leaves a sound session sound. -/
theorem Sound.render (h : s.Sound window) (fresh : Nat → FreshIds) {x : Event} {deadline : Int}
    (hd : s.preview.debouncer.deadline = some deadline) (hedited : x.edited? = none)
    (hrendered : x.rendered) (hnow : ∀ now, x.action = .tick now → deadline ≤ now) :
    Sound window ⟨s.preview.shown fresh, s.history ++ [x]⟩ where
  window_eq := h.window_eq
  deadline_iff time := by
    rw [awaits_concat, hedited, hrendered]
    constructor
    · nofun
    · rintro (h | ⟨-, h, -⟩) <;> cases h
  html_eq _ other :=
    (s.preview.html_shown fresh).trans (s.preview.draft.html_fresh fresh other)
  renders_eq := by
    have hcount := h.renders_eq
    simp only [Preview.shown, Preview.rerender, hcount, List.countP_append, List.countP_singleton,
      hrendered, if_true, Nat.add_assoc]
  awaits_of_rendered _ _ _ := awaits_of_rendered_concat h fun _ =>
    ⟨deadline - window, h.awaits_of_deadline hd, fun now hx => by
      rw [Int.sub_add_cancel]
      exact hnow now hx⟩

/-- An edit leaves a sound session sound. -/
theorem Sound.adopt (h : s.Sound window) (e : Edit) (d : Draft) (now : Int) :
    Sound window ⟨s.preview.adopt d now, s.history ++ [⟨.edit e now, true⟩]⟩ where
  window_eq := h.window_eq
  deadline_iff time := by
    have hdeadline : (s.preview.adopt d now).debouncer.deadline = some (now + window) := by
      rw [← h.window_eq]
      rfl
    have hedited : Event.edited? ⟨.edit e now, true⟩ = some now := rfl
    rw [awaits_concat, hdeadline, hedited]
    simp only [Option.some.injEq, reduceCtorEq, false_and, or_false]
    omega
  html_eq hnone := by cases hnone
  renders_eq := by
    have hcount := h.renders_eq
    simpa [Preview.adopt, List.countP_append, Event.rendered] using hcount
  awaits_of_rendered _ _ _ := awaits_of_rendered_concat h fun hx => by cases hx

/-- **Every action leaves a sound session sound.** -/
theorem Sound.act (h : s.Sound window) (fresh : Nat → FreshIds) (a : Action) :
    (s.act fresh a).Sound window := by
  have hstep := s.preview.step_act fresh a
  unfold Session.act
  generalize s.preview.act fresh a = outcome at hstep
  cases hstep with
  | edited now hd => exact h.adopt _ _ now
  | refused now hd => exact h.skip rfl rfl
  | due hd hnow =>
    refine h.render fresh hd rfl rfl fun now hx => ?_
    obtain rfl := Action.tick.inj hx
    exact hnow
  | early hd => exact h.skip rfl rfl
  | pending hd => exact h.render fresh hd rfl rfl nofun
  | idle hd => exact h.skip rfl rfl

/-- **Every session that begins with a new preview is sound.** -/
theorem sound_run (supply : Nat → Nat → FreshIds) (config : PreviewConfig) (d : Draft)
    (actions : List Action) :
    ((start (supply 0) config d).run supply actions).Sound config.debounce := by
  induction actions using List.reverseRecOn with
  | nil => exact sound_start (supply 0) config d
  | append_singleton actions a ih =>
    rw [run_concat]
    exact ih.act _ a

/-! ## Drafts of sessions -/

theorem draft_act (fresh : Nat → FreshIds) (s : Session) (a : Action) :
    (s.act fresh a).preview.draft = (a.edit?.toList).foldl Draft.edited s.preview.draft := by
  have hstep := s.preview.step_act fresh a
  unfold Session.act
  generalize s.preview.act fresh a = outcome at hstep
  cases hstep with
  | edited now hd =>
    rw [Action.edit?, Option.toList_some, List.foldl_cons, List.foldl_nil, Draft.edited, hd]
    rfl
  | refused now hd => simp [Action.edit?, Draft.edited, hd]
  | due | early | pending | idle => rfl

/-- **The draft of a session** comes from its edits alone. -/
theorem draft_run (supply : Nat → Nat → FreshIds) (s : Session) (actions : List Action) :
    (s.run supply actions).preview.draft =
      (actions.filterMap Action.edit?).foldl Draft.edited s.preview.draft := by
  induction actions using List.reverseRecOn with
  | nil => rfl
  | append_singleton actions a ih =>
    rw [run_concat, draft_act, ih, List.filterMap_append, List.foldl_append]
    cases h : a.edit? <;> simp [h]

theorem history_run (supply : Nat → Nat → FreshIds) (s : Session) (actions : List Action) :
    (s.run supply actions).history.map Event.action = s.history.map Event.action ++ actions := by
  induction actions using List.reverseRecOn with
  | nil => exact (List.append_nil _).symm
  | append_singleton actions a ih =>
    rw [run_concat, act, List.map_append, ih, List.append_assoc]
    rfl

/-! ## Answers -/

/-- A flush shows the draft of a sound session. -/
theorem Sound.html_flush (h : s.Sound window) (fresh other : Nat → FreshIds) :
    (s.preview.flush fresh).2.html = s.preview.draft.html other := by
  have hstep := s.preview.step_act fresh .flush
  change Preview.Step fresh s.preview .flush (s.preview.flush fresh) at hstep
  generalize s.preview.flush fresh = outcome at hstep
  cases hstep with
  | pending hd =>
    exact (s.preview.html_shown fresh).trans (s.preview.draft.html_fresh fresh other)
  | idle hd => exact h.html_eq hd other

/-- A tick renders a window or more after an edit that is not shown yet. -/
theorem Sound.tick_iff (h : s.Sound window) (fresh : Nat → FreshIds) (now : Int) :
    (s.preview.tick fresh now).1 = true ↔
      ∃ time, Awaits s.history time ∧ time + window ≤ now := by
  have hstep := s.preview.step_act fresh (.tick now)
  change Preview.Step fresh s.preview (.tick now) (s.preview.tick fresh now) at hstep
  generalize s.preview.tick fresh now = outcome at hstep
  cases hstep with
  | due hd hnow =>
    exact iff_of_true rfl ⟨_, h.awaits_of_deadline hd, by omega⟩
  | early hd =>
    refine iff_of_false Bool.false_ne_true ?_
    rintro ⟨time, hawaits, hnow⟩
    have hlt := hd _ ((h.deadline_iff time).2 hawaits)
    omega

/-- A flush renders after an edit that is not shown yet. -/
theorem Sound.flush_iff (h : s.Sound window) (fresh : Nat → FreshIds) :
    (s.preview.flush fresh).1 = true ↔ ∃ time, Awaits s.history time := by
  have hstep := s.preview.step_act fresh .flush
  change Preview.Step fresh s.preview .flush (s.preview.flush fresh) at hstep
  generalize s.preview.flush fresh = outcome at hstep
  cases hstep with
  | pending hd => exact iff_of_true rfl ⟨_, h.awaits_of_deadline hd⟩
  | idle hd =>
    refine iff_of_false Bool.false_ne_true ?_
    rintro ⟨time, hawaits⟩
    rw [(h.deadline_iff time).2 hawaits] at hd
    cases hd

end Session

/-- Without a component that has the identity, putting a text changes nothing. -/
theorem Preview.update_eq_self {p : Preview} {id : String} (h : ∀ c ∈ p.components, c.id ≠ id)
    (key text : String) (now : Int) : p.update id key text now = (false, p) := by
  have hnone := Draft.edit?_put_eq_none (d := p.draft) h key text
  have hstep := p.step_edit (fun _ _ => default) (.put id key text) now
  change Preview.Step _ p _ (p.update id key text now) at hstep
  generalize p.update id key text now = outcome at hstep
  cases hstep with
  | edited _ hd =>
    rw [hnone] at hd
    cases hd
  | refused => rfl

theorem Preview.deadline_eq_none {p : Preview} (h : p.isPending = false) :
    p.debouncer.deadline = none :=
  Option.not_isSome_iff_eq_none.1 (Bool.eq_false_iff.1 h)

/-- **A preview that is not pending shows what is under edit**, after any edits, ticks and flushes
at any times, whatever identities its renderings drew. What a last flush shows does not depend on
the ticks and flushes before it and on the times of the edits. -/
theorem Session.html_run (config : PreviewConfig) (d : Draft) (supply : Nat → Nat → FreshIds) :
    (∀ (actions : List Action) (fresh : Nat → FreshIds),
      let p := ((start (supply 0) config d).run supply actions).preview
      p.isPending = false → p.html = Email.renderComponents fresh p.components p.settings) ∧
    ∀ (other : Nat → Nat → FreshIds) (actions others : List Action)
      (fresh fresh' : Nat → FreshIds),
      actions.filterMap Action.edit? = others.filterMap Action.edit? →
      (((start (supply 0) config d).run supply actions).preview.flush fresh).2.html =
        (((start (other 0) config d).run other others).preview.flush fresh').2.html := by
  constructor
  · intro actions fresh p hpending
    have hsound := sound_run supply config d actions
    rw [← Preview.html_draft]
    exact hsound.html_eq (Preview.deadline_eq_none hpending) fresh
  · intro other actions others fresh fresh' hedits
    have hdraft : ((start (supply 0) config d).run supply actions).preview.draft =
        ((start (other 0) config d).run other others).preview.draft := by
      rw [draft_run, draft_run, hedits, draft_start, draft_start]
    have hflush := (sound_run supply config d actions).html_flush fresh fresh
    have hother := (sound_run other config d others).html_flush fresh' fresh
    rw [hflush, hother, hdraft]

/-- A session with a preview of one heading. -/
def headingSession (actions : List Action) : Session :=
  (Session.start (fun _ _ => default) .standard ⟨[⟨"1", "header", ∅⟩], .standard⟩).run
    (fun _ _ _ => default) actions

/-- The edit is shown by the second tick; an edit of a missing component does not delay it. -/
def patientActions : List Action :=
  [.edit (.put "1" "text" "Hi") 0, .tick 100, .edit (.put "2" "text" "Ho") 250, .tick 300]

/-- The same edits with a flush between them, on a clock that goes back. -/
def hastyActions : List Action :=
  [.edit (.put "1" "text" "Hi") 50, .flush, .edit (.put "2" "text" "Ho") (-20)]

theorem Session.html_run_heading :
    (headingSession patientActions).preview.isPending = false ∧
    (headingSession patientActions).preview.html =
      Email.renderComponents (fun _ _ => default)
        (headingSession patientActions).preview.components
        (headingSession patientActions).preview.settings ∧
    patientActions.filterMap Action.edit? = hastyActions.filterMap Action.edit? ∧
    ((headingSession patientActions).preview.flush fun _ _ => default).2.html =
      ((headingSession hastyActions).preview.flush fun _ _ => default).2.html := by
  have hrun := html_run .standard ⟨[⟨"1", "header", ∅⟩], .standard⟩ fun _ _ _ => default
  have hpending : (headingSession patientActions).preview.isPending = false := by decide
  have hedits : patientActions.filterMap Action.edit? = hastyActions.filterMap Action.edit? := rfl
  exact ⟨hpending, hrun.1 patientActions _ hpending, hedits, hrun.2 _ _ _ _ _ hedits⟩

/-- **Edits are rendered once they pause.** After any actions at any times, a tick renders just if
some edit is not shown yet and a whole window has passed since the last one, a flush just if some
edit is not shown yet, and an edit that cannot be made changes nothing. All renderings but the first
are ticks and flushes that tell of it, and each shows an edit made since the rendering before; one by
a tick comes a whole window after the last edit. -/
theorem Session.debounced_run (config : PreviewConfig) (d : Draft)
    (supply : Nat → Nat → FreshIds) (actions : List Action) :
    let s := (start (supply 0) config d).run supply actions
    s.history.map Event.action = actions ∧
    (∀ fresh now, (s.preview.tick fresh now).1 = true ↔
      ∃ time, Awaits s.history time ∧ time + config.debounce ≤ now) ∧
    (∀ fresh, (s.preview.flush fresh).1 = true ↔ ∃ time, Awaits s.history time) ∧
    (∀ id key text now, (∀ c ∈ s.preview.components, c.id ≠ id) →
      s.preview.update id key text now = (false, s.preview)) ∧
    s.preview.renders = 1 + s.history.countP Event.rendered ∧
    ∀ before x after, s.history = before ++ x :: after → x.rendered →
      ∃ time, Awaits before time ∧ ∀ now, x.action = .tick now → time + config.debounce ≤ now := by
  intro s
  have hsound : s.Sound config.debounce := sound_run supply config d actions
  refine ⟨history_run supply _ actions, hsound.tick_iff, hsound.flush_iff, ?_, hsound.renders_eq,
    hsound.awaits_of_rendered⟩
  intro id key text now hid
  exact Preview.update_eq_self hid key text now

/-- A quarter of a second after the edit nothing is rendered, a window after it the edit is. -/
theorem Session.debounced_run_heading :
    Awaits (headingSession (patientActions.take 3)).history 0 ∧
    ((headingSession (patientActions.take 3)).preview.tick (fun _ _ => default) 250).1 = false ∧
    ((headingSession (patientActions.take 3)).preview.tick (fun _ _ => default) 300).1 = true ∧
    (∀ c ∈ (headingSession patientActions).preview.components, c.id ≠ "2") ∧
    (headingSession patientActions).preview.update "2" "text" "Ho" 700 =
      (false, (headingSession patientActions).preview) := by
  have hrun := debounced_run .standard ⟨[⟨"1", "header", ∅⟩], .standard⟩ fun _ _ _ => default
  obtain ⟨-, htick, -⟩ := hrun (patientActions.take 3)
  obtain ⟨-, -, -, hupdate, -⟩ := hrun patientActions
  have hawaits : Awaits (headingSession (patientActions.take 3)).history 0 :=
    ⟨[], ⟨.edit (.put "1" "text" "Hi") 0, true⟩, [⟨.tick 100, false⟩,
      ⟨.edit (.put "2" "text" "Ho") 250, false⟩], rfl, rfl, by simp [Event.edited?, Event.rendered]⟩
  have hid : ∀ c ∈ (headingSession patientActions).preview.components, c.id ≠ "2" := by decide
  exact ⟨hawaits, by decide, (htick _ 300).2 ⟨0, hawaits, by decide⟩, hid,
    hupdate "2" "text" "Ho" 700 hid⟩

end MailBlocks
