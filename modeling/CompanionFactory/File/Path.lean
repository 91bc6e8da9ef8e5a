import CompanionFactory.Text.Dotted

/-!
# Paths

The path below a root at which the source of a type is kept.  Every part of the qualified name
but the last is a directory, and the last is the file, with `.java` behind it.  The parts are
joined on one by one: a part that begins with a slash replaces everything before it, and an
empty part leaves a slash at the end of the path.
-/

namespace CompanionFactory.Path

/-- Join a part onto a path. -/
def push (path part : String) : String :=
  if Text.startsWith part "/" then part
  else if path = "" ∨ path.toList.getLast? = some '/' then path ++ part
  else path ++ "/" ++ part

/-- The path of the source of the type `name` below `root`. -/
def ofName (root name : String) : String :=
  let segments := Text.segments name
  push (segments.dropLast.foldl push root) (segments.getLastD "" ++ ".java")

/-- The path without its last component and the slashes before that. -/
def parent (path : String) : String :=
  let rest := (path.toList.reverse.dropWhile (· ≠ '/')).dropWhile (· = '/')
  if rest = [] ∧ Text.startsWith path "/" then "/" else String.ofList rest.reverse

/-- The components of a path.  Repeated slashes count once, and a single dot leads nowhere. -/
def components (path : List Char) : List String :=
  ((path.splitOn '/').map String.ofList).filter fun c => c ≠ "" ∧ c ≠ "."

end CompanionFactory.Path
