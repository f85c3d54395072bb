import MailBlocks.Email.Render

/-!
# Live previews

While a project is edited, its email is shown and brought up to date once the edits pause: every
edit sets a deadline one quiet window later, in place of the deadline before it. Time is a number of
milliseconds and comes from the caller.

* `Debouncer`: the deadline.
* `Preview`: the components and settings under edit with the email shown.
-/

namespace MailBlocks

/-- The configuration of a preview: the length of the quiet window in milliseconds. -/
structure PreviewConfig where
  debounce : Nat
  deriving DecidableEq, Repr

namespace PreviewConfig

/-- The configuration of a preview that has none. -/
def standard : PreviewConfig := ⟨300⟩

/-- The stored field, which may be missing. -/
def record : Json.Record PreviewConfig where
  name := "PreviewConfig"
  start := standard
  fields := [.of "debounceMs" false .natural fun n c => { c with debounce := n }]

end PreviewConfig

/-- **A deadline that edits push back.** -/
structure Debouncer where
  window : Nat
  deadline : Option Int
  deriving DecidableEq, Repr

namespace Debouncer

/-- No deadline is set. -/
def new (window : Nat) : Debouncer := ⟨window, none⟩

/-- Sets the deadline one window after `now`. -/
def schedule (d : Debouncer) (now : Int) : Debouncer :=
  { d with deadline := some (now + d.window) }

/-- Drops the deadline. -/
def cancel (d : Debouncer) : Debouncer :=
  { d with deadline := none }

/-- Whether a deadline is set. -/
def isPending (d : Debouncer) : Bool :=
  d.deadline.isSome

/-- Whether the deadline has come; if so it is dropped. -/
def poll (d : Debouncer) (now : Int) : Bool × Debouncer :=
  match d.deadline with
  | some deadline => if deadline ≤ now then (true, d.cancel) else (false, d)
  | none => (false, d)

end Debouncer

/-- **A preview**: what is under edit, the email shown, and how often it was rendered. The renders are
counted without a bound, as no run is long enough to fill a word of 64 bits. -/
structure Preview where
  debouncer : Debouncer
  components : List Component
  settings : DesignSettings
  html : String
  renders : Nat
  deriving DecidableEq

namespace Preview

variable (fresh : Nat → FreshIds)

/-- A new preview, rendered once. -/
def new (config : PreviewConfig) (components : List Component) (settings : DesignSettings) :
    Preview :=
  ⟨.new config.debounce, components, settings, Email.renderComponents fresh components settings, 1⟩

/-- Whether edits are not shown yet. -/
def isPending (p : Preview) : Bool :=
  p.debouncer.isPending

/-- Replaces the components. -/
def setComponents (p : Preview) (components : List Component) (now : Int) : Preview :=
  { p with components := components, debouncer := p.debouncer.schedule now }

/-- Replaces the settings. -/
def setSettings (p : Preview) (settings : DesignSettings) (now : Int) : Preview :=
  { p with settings := settings, debouncer := p.debouncer.schedule now }

/-- Puts a text under a key of the component with the identity, the first of them. Whether there is
such a component is given back; without one nothing changes. -/
def update (p : Preview) (id key text : String) (now : Int) : Bool × Preview :=
  match p.components.findIdx? (·.id == id) with
  | some i =>
    (true, { p with
      components := p.components.modify i (·.set key text)
      debouncer := p.debouncer.schedule now })
  | none => (false, p)

/-- Renders what is under edit. -/
def rerender (p : Preview) : Preview :=
  { p with
    html := Email.renderComponents fresh p.components p.settings
    renders := p.renders + 1 }

/-- Renders if the deadline has come, and tells whether it did. -/
def tick (p : Preview) (now : Int) : Bool × Preview :=
  match p.debouncer.poll now with
  | (true, d) => (true, rerender fresh { p with debouncer := d })
  | (false, d) => (false, { p with debouncer := d })

/-- Renders at once if edits are not shown yet, and tells whether it did. -/
def flush (p : Preview) : Bool × Preview :=
  if p.isPending then (true, rerender fresh { p with debouncer := p.debouncer.cancel })
  else (false, p)

end Preview

end MailBlocks
