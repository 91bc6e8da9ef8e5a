import CompanionFactory.Proofs.Round.Sweep

/-!
# A whole compilation

A compilation is a generator together with a host that keeps files in memory.  It begins with
nothing known, nothing written and nothing waiting.  From there types are inserted or replaced,
names are refused, and rounds are processed, in any order and as often as it likes.
-/

namespace CompanionFactory

structure Compilation where
  generator : Generator
  host : MemoryHost

inductive CompilationEvent
  /-- A type is inserted with the types nested in it, replacing what was known by their names. -/
  | insert (e : Element)
  /-- From now on no file of this name is created. -/
  | refuse (name : String)
  | round (r : Round)

namespace Compilation

def start (s : Settings) : Compilation where
  generator := { settings := s }
  host := { store := {}, reporter := {} }

def step (c : Compilation) : CompilationEvent → Compilation
  | .insert e => { c with host := { c.host with types := c.host.types.insertFamily e } }
  | .refuse name => { c with host := { c.host with store := c.host.store.refuse name } }
  | .round r =>
      let report := c.generator.process r c.host
      { generator := report.generator, host := report.host }

def run (c : Compilation) (events : List CompilationEvent) : Compilation :=
  events.foldl step c

/-- What every event preserves holds after any number of them. -/
theorem run_invariant {P : Compilation → Prop} (hstep : ∀ c event, P c → P (c.step event))
    {c : Compilation} (hc : P c) (events : List CompilationEvent) : P (c.run events) := by
  induction events generalizing c with
  | nil => exact hc
  | cons event events ih => exact ih (hstep c event hc)

theorem settings_step (c : Compilation) (event : CompilationEvent) :
    (c.step event).generator.settings = c.generator.settings := by
  cases event <;> rfl

theorem settings_run (c : Compilation) (events : List CompilationEvent) :
    (c.run events).generator.settings = c.generator.settings := by
  refine run_invariant (P := fun d => d.generator.settings = c.generator.settings) ?_ rfl events
  intro d event hd
  rw [settings_step, hd]

end Compilation

end CompanionFactory
