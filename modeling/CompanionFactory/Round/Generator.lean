import CompanionFactory.Round.Attempt
import CompanionFactory.Round.Queue

/-!
# The generator

Between rounds the generator keeps nothing but the names of its pending targets.  In a round it
reports what is misplaced, queues the targets it discovers behind those still pending, and
attempts every pending target once, in order.  Targets with a final verdict leave the queue, all
others keep their place.
-/

namespace CompanionFactory

/-- The generator between two rounds. -/
structure Generator where
  settings : Settings := {}
  pending : Queue := ∅

/-- Where a round stands while the queue is swept: the host, the verdicts so far and the log. -/
structure Progress (φ ρ : Type) where
  host : Host φ ρ
  verdicts : List (String × Verdict) := []
  log : Log := []

/-- A round that is over. -/
structure RoundReport (φ ρ : Type) where
  generator : Generator
  host : Host φ ρ
  /-- Every attempt of the round with its verdict, in order. -/
  verdicts : List (String × Verdict)
  log : Log
  /-- Whether other generators are kept from the markers.  They never are. -/
  claimed : Bool

variable {φ ρ : Type} [SourceStore φ] [Reporter ρ]

namespace Progress

/-- Attempt one pending target; it stays pending unless the verdict is final. -/
def visit (s : Settings) (p : Progress φ ρ) (name : String) : Progress φ ρ × Bool :=
  let attempt := p.host.attempt s name
  ({ host := attempt.host
     verdicts := p.verdicts ++ [(name, attempt.verdict)]
     log := p.log ++ attempt.log ++
      Log.debug ("Factory target " ++ name ++ ": " ++ attempt.verdict.label) },
    !attempt.verdict.isFinal)

end Progress

namespace Generator

/-- What is logged when the last round leaves targets behind. -/
def leftoverLog (r : Round) (pending : Queue) : Log :=
  if r.isLast && !pending.isEmpty then
    Log.warn ("Processing is over with " ++ toString pending.size ++
      " unresolved factory target(s)")
  else []

/-- Process one round. -/
def process (g : Generator) (r : Round) (host : Host φ ρ) : RoundReport φ ρ :=
  let reported := host.report (r.misplaced g.settings)
  let enqueued := g.pending.enqueue (r.targetNames g.settings).toList
  let swept := enqueued.queue.sweep (Progress.visit g.settings) { host := reported.1 }
  { generator := { g with pending := swept.2 }
    host := swept.1.host
    verdicts := swept.1.verdicts
    log := reported.2 ++ enqueued.log ++ swept.1.log ++ leftoverLog r swept.2
    claimed := false }

end Generator

end CompanionFactory
