/-!
# Kinds and modifiers

The closed vocabularies of a declaration: what kind of element it is, what kind of type a
parameter has and which modifiers stand before it.  Kinds are shown in capitals, modifiers in
lower case.  A modifier is read back without regard to the case of ASCII letters, and of no
others.
-/

namespace CompanionFactory

/-- What a program element declares. -/
inductive ElementKind
  | package
  | classType
  | interfaceType
  | enumType
  | annotationType
  | constructor
  | method
  | field
  | parameter
  deriving DecidableEq, Repr

namespace ElementKind

def all : List ElementKind :=
  [package, classType, interfaceType, enumType, annotationType, constructor, method, field,
    parameter]

/-- The kind as it is shown. -/
def label : ElementKind → String
  | package => "PACKAGE"
  | classType => "CLASS"
  | interfaceType => "INTERFACE"
  | enumType => "ENUM"
  | annotationType => "ANNOTATION_TYPE"
  | constructor => "CONSTRUCTOR"
  | method => "METHOD"
  | field => "FIELD"
  | parameter => "PARAMETER"

/-- Whether the element declares a type. -/
def isType : ElementKind → Bool
  | classType | interfaceType | enumType | annotationType => true
  | _ => false

theorem mem_all (kind : ElementKind) : kind ∈ all := by
  cases kind <;> decide

end ElementKind

/-- What kind of type a parameter or field has. -/
inductive TypeKind
  | boolean
  | byte
  | short
  | int
  | long
  | char
  | float
  | double
  | void
  | array
  | declared
  | typeVariable
  | wildcard
  /-- A type that the host cannot resolve yet. -/
  | unresolved
  deriving DecidableEq, Repr

namespace TypeKind

def all : List TypeKind :=
  [boolean, byte, short, int, long, char, float, double, void, array, declared, typeVariable,
    wildcard, unresolved]

/-- The kind as it is shown. -/
def label : TypeKind → String
  | boolean => "BOOLEAN"
  | byte => "BYTE"
  | short => "SHORT"
  | int => "INT"
  | long => "LONG"
  | char => "CHAR"
  | float => "FLOAT"
  | double => "DOUBLE"
  | void => "VOID"
  | array => "ARRAY"
  | declared => "DECLARED"
  | typeVariable => "TYPE_VAR"
  | wildcard => "WILDCARD"
  | unresolved => "ERROR"

theorem mem_all (kind : TypeKind) : kind ∈ all := by
  cases kind <;> decide

end TypeKind

/-- A type by its kind and its source form. -/
structure TypeRef where
  kind : TypeKind
  source : String
  deriving DecidableEq, Repr

/-- A word that stands before a declaration. -/
inductive Modifier
  | publicAccess
  | protectedAccess
  | privateAccess
  | abstract
  | static
  | final
  | transient
  | volatile
  | synchronized
  | native
  | strictfp
  deriving DecidableEq, Repr

namespace Modifier

def all : List Modifier :=
  [publicAccess, protectedAccess, privateAccess, abstract, static, final, transient, volatile,
    synchronized, native, strictfp]

/-- The modifier as it is written. -/
def word : Modifier → String
  | publicAccess => "public"
  | protectedAccess => "protected"
  | privateAccess => "private"
  | abstract => "abstract"
  | static => "static"
  | final => "final"
  | transient => "transient"
  | volatile => "volatile"
  | synchronized => "synchronized"
  | native => "native"
  | strictfp => "strictfp"

/-- Read a modifier; ASCII letters count the same in either case. -/
def ofText? (text : String) : Option Modifier :=
  all.find? fun modifier => modifier.word.toList = text.toList.map Char.toLower

/-- What is said of a text that is no modifier. -/
def unreadableMessage : String := "Matching variant not found"

/-- The modifiers as they stand before a declaration, a blank behind each. -/
def words (modifiers : List Modifier) : String :=
  String.join (modifiers.map fun modifier => modifier.word ++ " ")

theorem mem_all (modifier : Modifier) : modifier ∈ all := by
  cases modifier <;> decide

end Modifier

end CompanionFactory
