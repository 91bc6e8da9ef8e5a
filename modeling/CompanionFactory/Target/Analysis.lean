import CompanionFactory.Log
import CompanionFactory.OrderedSet
import CompanionFactory.Target.Options
import CompanionFactory.Target.Parameter

/-!
# Targets

A target is a class that asks for a factory, reduced to what the factory needs.  Its parameters
fall into two groups.  The bound ones are given to the factory once: every parameter at a place
without the unbound marker, over all constructors.  All others are given per call.

A class is accepted when it is a class, is declared directly in a package, has readable options
and parameter types that are all resolved.  The first of these four that fails decides the
fault.
-/

namespace CompanionFactory

/-- A class that gets a factory. -/
structure Target where
  /-- The qualified name of the package; empty for the unnamed one. -/
  package : String
  /-- The simple name of the class. -/
  name : String
  options : TargetOptions
  /-- What the factory is given once, in the order of first occurrence. -/
  bound : OrderedSet Parameter
  constructors : List Constructor
  deriving DecidableEq, Repr

/-- The parameters of all constructors of a class, constructor by constructor. -/
def Element.constructorParameters (e : Element) : List Element :=
  e.constructors.flatMap (·.parameters)

/-- The first constructor parameter without a resolved type. -/
def Element.firstUnresolved? (e : Element) : Option Element :=
  e.constructorParameters.find? fun parameter => !parameter.isResolved

namespace Target

/-- The package and the options of a class, before its constructors are looked at. -/
def header (s : Settings) (e : Element) : Except TargetFault (Element × TargetOptions) :=
  if e.kind ≠ .classType then .error .notClass
  else
    match e.enclosingPackage?, e.annotation? s.factoryMarker with
    | none, _ => .error .notOutermost
    | some package, none => .ok (package, {})
    | some package, some use => (fun options => (package, options)) <$> TargetOptions.ofUse use

/-- The parameters at places without the unbound marker, with repetitions. -/
def boundPlaces (s : Settings) (e : Element) : List Parameter :=
  (e.constructorParameters.filter fun parameter => !parameter.carries s.unboundMarker).map
    (Parameter.ofElement s)

/-- Read a class that asks for a factory. -/
def ofElement (s : Settings) (e : Element) : Except TargetFault Target :=
  match header s e, e.firstUnresolved? with
  | .error fault, _ => .error fault
  | .ok _, some parameter => .error (.unresolvedType parameter.simpleName)
  | .ok (package, options), none =>
      .ok {
        package := package.qualifiedName
        name := e.simpleName
        options := options
        bound := OrderedSet.ofList (boundPlaces s e)
        constructors := e.constructors.map (Constructor.ofElement s) }

/-- What reading a class logs: every parameter found before the first unresolved one. -/
def log (s : Settings) (e : Element) : Log :=
  match header s e with
  | .error _ => []
  | .ok _ =>
      (e.constructorParameters.takeWhile (·.isResolved)).flatMap fun parameter =>
        Log.trace (e.display ++ ": found parameter " ++
          (Parameter.ofElement s parameter).describe)

/-! ## Asking targets -/

/-- The simple name of the factory. -/
def factoryName (t : Target) : String :=
  t.options.factoryName t.name

/-- The qualified name of the factory, under which its source is kept. -/
def qualifiedFactoryName (t : Target) : String :=
  Text.qualify t.package t.factoryName

/-- The name of every method of the factory. -/
def methodName (t : Target) : String :=
  "get" ++ t.name

/-- Whether the parameter is given to the factory once. -/
def isBound (t : Target) (p : Parameter) : Bool :=
  decide (p ∈ t.bound)

/-- The parameters of a constructor that are given per call, in order. -/
def perCall (t : Target) (c : Constructor) : List Parameter :=
  c.parameters.filter fun p => !t.isBound p

/-- Whether the factory holds the parameter behind a provider.  A parameter that is a provider
already, or that carries annotations, never is. -/
def isProvided (s : Settings) (options : TargetOptions) (p : Parameter) : Bool :=
  options.providers && !Text.startsWith p.type s.providerType && p.annotations = ""

end Target

end CompanionFactory
