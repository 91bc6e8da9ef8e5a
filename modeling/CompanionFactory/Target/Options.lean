import CompanionFactory.Annotations.Basic
import CompanionFactory.Element.Kind
import CompanionFactory.OrderedSet
import CompanionFactory.Target.Fault

/-!
# Options of a target

The values given to the marker on a class decide how its factory looks.  Every value is read on
its own into one setting; the settings then take effect in order, so the last one of a kind
wins.  The first value that cannot be read decides the fault.

Modifiers are given as one constant or as an array of constants, by name, without regard to the
case of ASCII letters; a repeated modifier counts once, at its first place.
-/

namespace CompanionFactory

/-- How the factory of one target looks. -/
structure TargetOptions where
  /-- The name of the factory; empty for the name of the target followed by `Factory`. -/
  name : String := ""
  modifiers : List Modifier := [.publicAccess]
  methodModifiers : List Modifier := [.publicAccess]
  singleton : Bool := false
  inject : Bool := false
  providers : Bool := false
  deriving DecidableEq, Repr

/-- One option with the value it is set to. -/
inductive OptionSetting
  | name (text : String)
  | modifiers (modifiers : List Modifier)
  | methodModifiers (modifiers : List Modifier)
  | singleton (flag : Bool)
  | inject (flag : Bool)
  | providers (flag : Bool)
  deriving DecidableEq, Repr

namespace OptionSetting

def readText (key : String) : AnnotationValue → Except TargetFault String
  | .text value => .ok value
  | _ => .error (.malformedOption key .text)

def readFlag (key : String) : AnnotationValue → Except TargetFault Bool
  | .flag value => .ok value
  | _ => .error (.malformedOption key .flag)

def readModifier (key : String) : AnnotationValue → Except TargetFault Modifier
  | .enumConstant _ constant =>
      match Modifier.ofText? constant with
      | some modifier => .ok modifier
      | none => .error (.unknownModifier constant)
  | _ => .error (.malformedOption key .modifiers)

/-- The values given to an option that takes several: the items of an array, or the one value. -/
def items : AnnotationValue → List AnnotationValue
  | .array values => values
  | value => [value]

def readModifiers (key : String) (value : AnnotationValue) :
    Except TargetFault (List Modifier) := do
  let found ← (items value).mapM (readModifier key)
  return (OrderedSet.ofList found).toList

/-- Read one value given to the marker. -/
def ofEntry (entry : AnnotationEntry) : Except TargetFault OptionSetting :=
  match entry.key with
  | "name" => .name <$> readText entry.key entry.value
  | "modifiers" => .modifiers <$> readModifiers entry.key entry.value
  | "methodModifiers" => .methodModifiers <$> readModifiers entry.key entry.value
  | "singleton" => .singleton <$> readFlag entry.key entry.value
  | "inject" => .inject <$> readFlag entry.key entry.value
  | "providers" => .providers <$> readFlag entry.key entry.value
  | unknown => .error (.unknownOption unknown)

end OptionSetting

namespace TargetOptions

/-- Let one setting take effect. -/
def set (options : TargetOptions) : OptionSetting → TargetOptions
  | .name text => { options with name := text }
  | .modifiers modifiers => { options with modifiers := modifiers }
  | .methodModifiers modifiers => { options with methodModifiers := modifiers }
  | .singleton flag => { options with singleton := flag }
  | .inject flag => { options with inject := flag }
  | .providers flag => { options with providers := flag }

/-- Read the options from the marker, starting from the defaults. -/
def ofUse (use : AnnotationUse) : Except TargetFault TargetOptions := do
  let settings ← use.entries.mapM OptionSetting.ofEntry
  return settings.foldl set {}

/-- The simple name of the factory for the class `target`. -/
def factoryName (options : TargetOptions) (target : String) : String :=
  if options.name = "" then target ++ "Factory" else options.name

end TargetOptions

end CompanionFactory
