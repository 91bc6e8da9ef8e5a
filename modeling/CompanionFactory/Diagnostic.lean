import CompanionFactory.Log

/-!
# Diagnostics

A diagnostic tells the user of the host about a problem, on its own or attached to an element. A
reporter takes diagnostics: the recorder keeps them all, in order, and the log reporter turns
each into one log record and keeps nothing.
-/

namespace CompanionFactory

/-- How severe a diagnostic is. -/
inductive Severity
  | error
  | warning
  | mandatoryWarning
  | note
  | other
  deriving DecidableEq, Repr

namespace Severity

def all : List Severity :=
  [error, warning, mandatoryWarning, note, other]

/-- The severity as it is shown. -/
def label : Severity → String
  | error => "ERROR"
  | warning => "WARNING"
  | mandatoryWarning => "MANDATORY_WARNING"
  | note => "NOTE"
  | other => "OTHER"

/-- The level at which a diagnostic is logged. -/
def logLevel : Severity → LogLevel
  | error => .error
  | warning | mandatoryWarning => .warn
  | note | other => .info

theorem mem_all (severity : Severity) : severity ∈ all := by
  cases severity <;> decide

end Severity

/-- A message, and the display name of the element it is attached to. -/
structure Diagnostic where
  severity : Severity
  message : String
  subject : Option String
  deriving DecidableEq, Repr

namespace Diagnostic

/-- An error attached to the element shown as `subject`. -/
def errorAt (subject message : String) : Diagnostic :=
  ⟨.error, message, some subject⟩

/-- The diagnostic on one line of the log. -/
def record (d : Diagnostic) : LogRecord :=
  match d.subject with
  | some subject => ⟨d.severity.logLevel, subject ++ ": " ++ d.message⟩
  | none => ⟨d.severity.logLevel, d.message⟩

end Diagnostic

/-- Something that takes diagnostics; `ρ` is its state. -/
class Reporter (ρ : Type) where
  report : ρ → Diagnostic → ρ × Log

/-- Keeps every diagnostic in the order it was reported. -/
structure Recorder where
  diagnostics : List Diagnostic := []
  deriving DecidableEq, Repr

namespace Recorder

def errors (r : Recorder) : List Diagnostic :=
  r.diagnostics.filter fun d => d.severity = .error

end Recorder

instance : Reporter Recorder where
  report r d := (⟨r.diagnostics ++ [d]⟩, [])

/-- Turns every diagnostic into a log record. -/
structure LogReporter where
  deriving DecidableEq, Repr

instance : Reporter LogReporter where
  report r d := (r, [d.record])

end CompanionFactory
