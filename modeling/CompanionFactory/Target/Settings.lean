import CompanionFactory.Text.Dotted

/-!
# Settings

What the embedder of the generator chooses once for all targets: the namespace of the two
markers, the type that providers have, the tags written on factories, and the name that
generated classes are tagged with.
-/

namespace CompanionFactory

/-- The choices that hold for every target. -/
structure Settings where
  /-- Where the markers live.  Annotations from there are never carried into a factory. -/
  markerNamespace : String := "factoria.annotations"
  /-- The generic type that a parameter is wrapped in. -/
  providerType : String := "javax.inject.Provider"
  /-- Written before the class of a singleton factory. -/
  singletonTag : String := "@javax.inject.Singleton"
  /-- Written before the constructor of an injectable factory. -/
  injectTag : String := "@javax.inject.Inject"
  /-- Who the generated class says it was generated by. -/
  generator : String := "factoria.processor.FactoryProcessor"
  deriving DecidableEq, Repr

namespace Settings

/-- The annotation that asks for a factory. -/
def factoryMarker (s : Settings) : String :=
  s.markerNamespace ++ ".Factory"

/-- The annotation that keeps a parameter out of the factory's constructor. -/
def unboundMarker (s : Settings) : String :=
  s.markerNamespace ++ ".Unbound"

def markers (s : Settings) : List String :=
  [s.factoryMarker, s.unboundMarker]

/-- Whether an annotation type counts as one of the generator's own.  The namespace is compared as
text: it need not end at a dot. -/
def isOwn (s : Settings) (type : String) : Bool :=
  Text.startsWith type s.markerNamespace

end Settings

end CompanionFactory
