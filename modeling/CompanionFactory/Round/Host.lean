import CompanionFactory.Diagnostic
import CompanionFactory.File.Bounded
import CompanionFactory.File.Directory
import CompanionFactory.File.Memory
import CompanionFactory.Round.TypeTable

/-!
# Hosts and rounds

A host knows types, keeps files and takes diagnostics.  It calls the generator in rounds; a
round answers which elements carry an annotation and tells whether it is the last one.
-/

namespace CompanionFactory

/-- What the generator works with, for a whole compilation: `φ` keeps files and `ρ` takes
diagnostics. -/
structure Host (φ ρ : Type) where
  types : TypeTable := {}
  store : φ
  reporter : ρ

namespace Host

variable {φ ρ : Type}

/-- Report diagnostics, one after the other. -/
def report [Reporter ρ] (host : Host φ ρ) : List Diagnostic → Host φ ρ × Log
  | [] => (host, [])
  | d :: ds =>
      let reported := Reporter.report host.reporter d
      let rest := report { host with reporter := reported.1 } ds
      (rest.1, reported.2 ++ rest.2)

end Host

/-- One call of the generator, as the host sees it. -/
structure Round where
  /-- The elements carrying an annotation of the given type. -/
  carriers : String → List Element
  /-- Whether no round follows. -/
  isLast : Bool := false

namespace Round

/-- A round over the given root elements and the types nested in them. -/
def ofRoots (roots : List Element) : Round where
  carriers type := (roots.flatMap Element.outerFirst).filter (·.carries type)

/-- The last round, in which nothing is new. -/
def last : Round where
  carriers _ := []
  isLast := true

/-- A round that answers every question with the same elements. -/
def constant (elements : List Element) (isLast : Bool) : Round where
  carriers _ := elements
  isLast := isLast

end Round

end CompanionFactory
