/-!
# What can be wrong with a target

The causes for which no factory is generated for a class, each with its text.  Only one of them
can go away by itself: a parameter type that another generator may still produce.
-/

namespace CompanionFactory

/-- What an option accepts. -/
inductive OptionShape
  | text
  | flag
  | modifiers
  deriving DecidableEq, Repr

def OptionShape.description : OptionShape → String
  | text => "a string"
  | flag => "a boolean"
  | modifiers => "an array of modifiers"

/-- Why a class gets no factory. -/
inductive TargetFault
  /-- The element is no class. -/
  | notClass
  /-- The class is not declared directly in a package. -/
  | notOutermost
  /-- The type of the named parameter is not known yet. -/
  | unresolvedType (parameter : String)
  /-- No option has this name. -/
  | unknownOption (key : String)
  /-- The option was given a value it does not accept. -/
  | malformedOption (key : String) (expected : OptionShape)
  /-- No modifier is written like this. -/
  | unknownModifier (word : String)
  deriving DecidableEq, Repr

namespace TargetFault

def message : TargetFault → String
  | notClass => "Factory annotation can only be applied to classes"
  | notOutermost => "Factory annotation must be applied to outer-classes"
  | unresolvedType parameter =>
      "Parameter `" ++ parameter ++ "` has a type that is not resolvable yet"
  | unknownOption key => "Unknown Factory option: " ++ key
  | malformedOption key expected =>
      "Factory option `" ++ key ++ "` expects " ++ expected.description
  | unknownModifier word => "Unknown modifier: " ++ word

/-- Whether the target may become right without being changed. -/
def isDeferrable : TargetFault → Bool
  | unresolvedType _ => true
  | _ => false

end TargetFault

end CompanionFactory
