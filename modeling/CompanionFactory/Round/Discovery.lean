import CompanionFactory.Round.Host
import CompanionFactory.Target.Analysis

/-!
# Discovering targets

A round shows which elements ask for a factory.  One that is declared directly in a package is a
target and is remembered by its qualified name only.  Every other is reported, at the element it
is declared in, and forgotten.
-/

namespace CompanionFactory

namespace Element

/-- The element to which a misplaced declaration is reported: the one it is declared in, or
itself. -/
def misplacedAt (e : Element) : Element :=
  e.enclosing.getD e

/-- The report of a class that is not declared directly in a package. -/
def misplacedDiagnostic (e : Element) : Diagnostic :=
  .errorAt e.misplacedAt.display TargetFault.notOutermost.message

/-- The name under which the host knows an element declared directly in a package. -/
def targetName? (e : Element) : Option String :=
  e.enclosingPackage?.map fun package => Text.qualify package.qualifiedName e.simpleName

end Element

namespace Round

/-- The elements that ask for a factory. -/
def marked (r : Round) (s : Settings) : List Element :=
  r.carriers s.factoryMarker

/-- The names of the targets, in the order in which the round first shows them. -/
def targetNames (r : Round) (s : Settings) : OrderedSet String :=
  .ofList ((r.marked s).filterMap Element.targetName?)

/-- The reports of the elements that are no targets, in order. -/
def misplaced (r : Round) (s : Settings) : List Diagnostic :=
  ((r.marked s).filter fun e => e.enclosingPackage?.isNone).map Element.misplacedDiagnostic

end Round

end CompanionFactory
