import CompanionFactory.Factory.Source
import CompanionFactory.Round.Discovery

/-!
# Attempts

One attempt looks a pending target up, reads it, and writes its factory.  It ends with a
verdict.  A target that was emitted, failed or was rejected is done with.  One that was deferred
or skipped stays pending and is looked up afresh in the next round.

A failed or rejected target is reported exactly once, and no other is.
-/

namespace CompanionFactory

/-- How an attempt ended. -/
inductive Verdict
  /-- The factory was written. -/
  | emitted
  /-- The factory could not be written, which was reported. -/
  | failed
  /-- The target is wrong, which was reported. -/
  | rejected
  /-- A parameter type is not resolved yet. -/
  | deferred
  /-- The target is not known, or does not ask for a factory any more. -/
  | skipped
  deriving DecidableEq, Repr

namespace Verdict

def all : List Verdict :=
  [emitted, failed, rejected, deferred, skipped]

/-- The verdict as it is shown. -/
def label : Verdict → String
  | emitted => "emitted"
  | failed => "failed"
  | rejected => "rejected"
  | deferred => "deferred"
  | skipped => "skipped"

/-- Whether the target leaves the queue. -/
def isFinal : Verdict → Bool
  | emitted | failed | rejected => true
  | deferred | skipped => false

theorem mem_all (verdict : Verdict) : verdict ∈ all := by
  cases verdict <;> decide

end Verdict

/-- What is reported when the file of a factory cannot be written. -/
def FileFault.diagnostic (fault : FileFault) : Diagnostic :=
  ⟨.error, "Unable to write factory file: " ++ fault.message, none⟩

/-- What is reported when a target is wrong. -/
def TargetFault.diagnostic (e : Element) : TargetFault → Diagnostic
  | .notOutermost => e.misplacedDiagnostic
  | fault => .errorAt e.display fault.message

/-- An attempt: its verdict, the host behind it and what was logged. -/
structure Attempt (φ ρ : Type) where
  verdict : Verdict
  host : Host φ ρ
  log : Log := []

variable {φ ρ : Type} [SourceStore φ] [Reporter ρ]

/-- Write a class into a sink and close it. -/
def FactoryClass.session (c : FactoryClass) (sink : Sink) : Sink × Except FileFault Unit :=
  match ({ sink := sink } : SourceWriter).writeAll c.steps with
  | (w, .ok ()) => (w.sink, w.close)
  | (w, .error fault) => (w.sink, .error fault)

namespace Host

/-- End an attempt with a report. -/
def dismiss (host : Host φ ρ) (verdict : Verdict) (d : Diagnostic) : Attempt φ ρ :=
  let reported := host.report [d]
  { verdict := verdict, host := reported.1, log := reported.2 }

/-- Write the factory of a target, generated from the element `e`. -/
def emit (s : Settings) (host : Host φ ρ) (e : Element) (t : Target) : Attempt φ ρ :=
  let filed := SourceStore.create host.store t.qualifiedFactoryName [e.display]
    (FactoryClass.ofTarget s t).session
  let host := { host with store := filed.store }
  match filed.answer with
  | .error fault | .ok (.error fault) =>
      let dismissed := host.dismiss .failed fault.diagnostic
      { dismissed with log := filed.log ++ dismissed.log }
  | .ok (.ok ()) =>
      { verdict := .emitted
        host := host
        log := filed.log ++ Log.debug ("Wrote " ++ t.qualifiedFactoryName) }

/-- Read an element that asks for a factory, and write the factory. -/
def attemptElement (s : Settings) (host : Host φ ρ) (name : String) (e : Element) :
    Attempt φ ρ :=
  let attempt : Attempt φ ρ :=
    match Target.ofElement s e with
    | .ok t => host.emit s e t
    | .error fault =>
        if fault.isDeferrable then
          { verdict := .deferred
            host := host
            log := Log.debug ("Deferring " ++ name ++ ": " ++ fault.message) }
        else host.dismiss .rejected (fault.diagnostic e)
  { attempt with log := Target.log s e ++ attempt.log }

/-- Attempt the pending target `name`. -/
def attempt (s : Settings) (host : Host φ ρ) (name : String) : Attempt φ ρ :=
  match host.types.get? name with
  | none =>
      { verdict := .skipped
        host := host
        log := Log.warn ("Factory target " ++ name ++ " is not known to the host") }
  | some e =>
      if e.carries s.factoryMarker then host.attemptElement s name e
      else { verdict := .skipped, host := host }

end Host

end CompanionFactory
