import CompanionFactory.Annotations.Source
import CompanionFactory.Element.Basic
import CompanionFactory.Target.Settings

/-!
# Parameters and constructors of a target

What a factory needs to know about the parameters it passes on: type, name and the annotations
that are carried into its own declarations, all as source text.  Two parameters are the same
exactly when the three texts are.
-/

namespace CompanionFactory

/-- A constructor parameter as source text. -/
structure Parameter where
  type : String
  name : String
  /-- The carried annotations with a blank between them. -/
  annotations : String
  deriving DecidableEq, Repr

/-- A constructor by its parameters and the types it throws. -/
structure Constructor where
  parameters : List Parameter
  thrown : List String
  deriving DecidableEq, Repr

/-- The annotations of an element that are carried into a factory: all but the generator's own. -/
def Element.carriedAnnotations (s : Settings) (e : Element) : String :=
  " ".intercalate ((e.annotations.filter fun use => !s.isOwn use.type).map (·.source))

/-- Whether the element has a type that the host could resolve. -/
def Element.isResolved (e : Element) : Bool :=
  e.type.any fun type => type.kind != .unresolved

namespace Parameter

/-- The parameter that an element declares; one without a type has the empty type text. -/
def ofElement (s : Settings) (e : Element) : Parameter where
  type := (e.type.map (·.source)).getD ""
  name := e.simpleName
  annotations := e.carriedAnnotations s

/-- One character of an ASCII text inside double quotes, as the log shows it. -/
def showChar (c : Char) : List Char :=
  if c = '"' then ['\\', '"']
  else if c = '\\' then ['\\', '\\']
  else if c = '\n' then ['\\', 'n']
  else if c = '\r' then ['\\', 'r']
  else if c = '\t' then ['\\', 't']
  else if c = '\x00' then ['\\', '0']
  else if c.toNat < 32 ∨ c.toNat = 127 then
    ['\\', 'u', '\x7b'] ++ Nat.toDigits 16 c.toNat ++ ['\x7d']
  else [c]

/-- An ASCII text inside double quotes, as the log shows it. -/
def showText (text : String) : String :=
  String.ofList ('"' :: (text.toList.flatMap showChar ++ ['"']))

/-- The parameter as the log shows it. -/
def describe (p : Parameter) : String :=
  "Parameter \x7b ty: " ++ showText p.type ++ ", name: " ++ showText p.name ++
    ", annotations: " ++ showText p.annotations ++ " \x7d"

end Parameter

/-- The constructor that an element declares. -/
def Constructor.ofElement (s : Settings) (e : Element) : Constructor where
  parameters := e.parameters.map (Parameter.ofElement s)
  thrown := e.thrown.map (·.source)

end CompanionFactory
