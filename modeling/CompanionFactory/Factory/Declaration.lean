import CompanionFactory.Target.Analysis

/-!
# The factory class

The class generated for a target, as data: its fields, what its constructor is given, and one
method for every constructor of the target.  A bound parameter becomes a field and is given to
the factory's constructor; it is wrapped in a provider when it is held behind one.  All other
parameters are given to the method, with the type they have in the target.  The method passes on
one argument per parameter of the target's constructor, in order.
-/

namespace CompanionFactory

/-- A field of the factory. -/
structure HeldField where
  type : String
  name : String
  deriving DecidableEq, Repr

/-- A parameter that the factory declares, in its constructor or in a method. -/
structure GivenParameter where
  annotations : String
  type : String
  name : String
  deriving DecidableEq, Repr

/-- What a method passes on to the constructor of the target. -/
inductive Argument
  /-- The value of a name. -/
  | plain (name : String)
  /-- What the provider of this name provides. -/
  | provided (name : String)
  deriving DecidableEq, Repr

/-- The method for one constructor of the target. -/
structure FactoryMethod where
  parameters : List GivenParameter
  thrown : List String
  arguments : List Argument
  deriving DecidableEq, Repr

/-- The class generated for a target. -/
structure FactoryClass where
  package : String
  name : String
  modifiers : List Modifier
  generator : String
  /-- The tag before the class, if it has one. -/
  classTag : Option String
  /-- The tag before the constructor, if it has one. -/
  constructorTag : Option String
  fields : List HeldField
  given : List GivenParameter
  /-- The class that the methods create. -/
  product : String
  methodName : String
  methodModifiers : List Modifier
  methods : List FactoryMethod
  deriving DecidableEq, Repr

/-- The type a bound parameter is held with. -/
def Target.heldType (s : Settings) (t : Target) (p : Parameter) : String :=
  if Target.isProvided s t.options p then s.providerType ++ "<" ++ p.type ++ ">" else p.type

/-- The argument that hands a parameter on. -/
def Target.argument (s : Settings) (t : Target) (p : Parameter) : Argument :=
  if t.isBound p && Target.isProvided s t.options p then .provided p.name else .plain p.name

/-- The method for a constructor of the target. -/
def FactoryMethod.ofConstructor (s : Settings) (t : Target) (c : Constructor) : FactoryMethod where
  parameters := (t.perCall c).map fun p => ⟨p.annotations, p.type, p.name⟩
  thrown := c.thrown
  arguments := c.parameters.map (t.argument s)

/-- The factory of a target. -/
def FactoryClass.ofTarget (s : Settings) (t : Target) : FactoryClass where
  package := t.package
  name := t.factoryName
  modifiers := t.options.modifiers
  generator := s.generator
  classTag := if t.options.singleton then some s.singletonTag else none
  constructorTag := if t.options.inject then some s.injectTag else none
  fields := t.bound.toList.map fun p => ⟨t.heldType s p, p.name⟩
  given := t.bound.toList.map fun p => ⟨p.annotations, t.heldType s p, p.name⟩
  product := t.name
  methodName := t.methodName
  methodModifiers := t.options.methodModifiers
  methods := t.constructors.map (FactoryMethod.ofConstructor s t)

end CompanionFactory
