/-!
# Log records

What a run says about itself while it works, in order.  A log is a plain list, so the log of two
steps is the log of the first followed by the log of the second.
-/

namespace CompanionFactory

/-- How much a record matters; the first level matters most. -/
inductive LogLevel
  | error
  | warn
  | info
  | debug
  | trace
  deriving DecidableEq, Repr

namespace LogLevel

/-- The level as it is shown. -/
def label : LogLevel → String
  | error => "ERROR"
  | warn => "WARN"
  | info => "INFO"
  | debug => "DEBUG"
  | trace => "TRACE"

/-- How far down the level lies. -/
def depth : LogLevel → Nat
  | error => 0
  | warn => 1
  | info => 2
  | debug => 3
  | trace => 4

end LogLevel

structure LogRecord where
  level : LogLevel
  text : String
  deriving DecidableEq, Repr

abbrev Log := List LogRecord

namespace Log

def debug (text : String) : Log :=
  [⟨.debug, text⟩]

def warn (text : String) : Log :=
  [⟨.warn, text⟩]

def trace (text : String) : Log :=
  [⟨.trace, text⟩]

/-- The records that matter at least as much as `level`. -/
def downTo (log : Log) (level : LogLevel) : Log :=
  log.filter fun record => record.level.depth ≤ level.depth

end Log

end CompanionFactory
