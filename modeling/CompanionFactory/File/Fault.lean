/-!
# What can go wrong with a file

The causes for which a file is not created, not written in full or not closed, each with its
text.
-/

namespace CompanionFactory

inductive FileFault
  /-- The store refuses to create this file. -/
  | refused (name : String)
  /-- The store has kept a file of this name already. -/
  | alreadyKept (name : String)
  /-- Something is at this path already, or a file stands on the way to it. -/
  | pathTaken
  /-- A path, or one component of it, is longer than the system allows. -/
  | nameTooLong
  /-- A path holds the character zero. -/
  | zeroInPath
  /-- The sink has no room left and says so. -/
  | full
  /-- The sink has no room left and takes nothing more. -/
  | stalled
  /-- The sink could not be flushed. -/
  | notFlushed
  deriving DecidableEq, Repr

namespace FileFault

def message : FileFault → String
  | refused name => "cannot create " ++ name
  | alreadyKept name => "Attempt to recreate a file for type " ++ name
  | pathTaken => "File exists (os error 17)"
  | nameTooLong => "File name too long (os error 36)"
  | zeroInPath => "file name contained an unexpected NUL byte"
  | full => "sink full"
  | stalled => "failed to write whole buffer"
  | notFlushed => "flush failed"

end FileFault

end CompanionFactory
