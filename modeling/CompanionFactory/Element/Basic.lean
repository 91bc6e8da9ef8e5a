import CompanionFactory.Annotations.Basic
import CompanionFactory.Element.Kind
import CompanionFactory.Text.Dotted

/-!
# Program elements

A snapshot of one declaration: a package, a type, a constructor, a method, a field or a
parameter, with everything declared inside it.  The link to the enclosing element leads to a
copy without members and parameters; that copy keeps its own annotations, thrown types and
enclosing link.

Names of types follow from where they are declared.  A type below an element whose qualified
name is empty has its simple name for a qualified name.
-/

namespace CompanionFactory

/-- A declaration and what is declared inside it. -/
structure Element where
  kind : ElementKind
  simpleName : String
  /-- The full name of a package or a type; empty for every other kind. -/
  qualifiedName : String
  enclosing : Option Element
  annotations : List AnnotationUse
  /-- The declared type of a parameter or a field. -/
  type : Option TypeRef
  thrown : List TypeRef
  parameters : List Element
  members : List Element

namespace Element

/-- An element with names only. -/
def named (kind : ElementKind) (simpleName qualifiedName : String) : Element where
  kind := kind
  simpleName := simpleName
  qualifiedName := qualifiedName
  enclosing := none
  annotations := []
  type := none
  thrown := []
  parameters := []
  members := []

/-- The copy that an enclosing link leads to. -/
def shallow (e : Element) : Element :=
  { e with parameters := [], members := [] }

/-! ## Building elements -/

/-- A package; the unnamed package has the empty name. -/
def package (name : String) : Element :=
  named .package (Text.lastSegment name) name

/-- A type of the given kind declared directly in `outer`. -/
def declaredIn (outer : Element) (kind : ElementKind) (simpleName : String) : Element :=
  { named kind simpleName (Text.qualify outer.qualifiedName simpleName) with
    enclosing := some outer.shallow }

/-- A class declared directly in the package with the given name. -/
def classIn (packageName simpleName : String) : Element :=
  (package packageName).declaredIn .classType simpleName

def constructor : Element :=
  named .constructor "<init>" ""

def method (name : String) : Element :=
  named .method name ""

def parameter (name : String) (type : TypeRef) : Element :=
  { named .parameter name "" with type := some type }

def withAnnotation (e : Element) (use : AnnotationUse) : Element :=
  { e with annotations := e.annotations ++ [use] }

def withParameter (e parameter : Element) : Element :=
  { e with parameters := e.parameters ++ [parameter] }

def withThrown (e : Element) (type : TypeRef) : Element :=
  { e with thrown := e.thrown ++ [type] }

def withMember (e member : Element) : Element :=
  { e with members := e.members ++ [member] }

/-! ## Asking elements -/

/-- The name an element is shown by: in full for packages and types, simple for the rest. -/
def display (e : Element) : String :=
  if e.kind = .package ∨ e.kind.isType then e.qualifiedName else e.simpleName

/-- The enclosing element, when it is a package. -/
def enclosingPackage? (e : Element) : Option Element :=
  e.enclosing.filter fun outer => outer.kind = .package

/-- The first annotation of the given type. -/
def annotation? (e : Element) (type : String) : Option AnnotationUse :=
  e.annotations.find? fun use => use.type == type

/-- Whether the element carries an annotation of the given type. -/
def carries (e : Element) (type : String) : Bool :=
  (e.annotation? type).isSome

/-- The constructors declared directly inside the element, in order. -/
def constructors (e : Element) : List Element :=
  e.members.filter fun member => member.kind = .constructor

/-! ## Types nested in types -/

mutual

/-- The element and the types nested in it through types, every type before what it nests. -/
def outerFirst : Element → List Element
  | e@⟨_, _, _, _, _, _, _, _, members⟩ => e :: nestedOuterFirst members

def nestedOuterFirst : List Element → List Element
  | [] => []
  | member :: rest =>
      if member.kind.isType then outerFirst member ++ nestedOuterFirst rest
      else nestedOuterFirst rest

end

mutual

/-- The element and the types nested in it through types, every type behind what it nests. -/
def innerFirst : Element → List Element
  | e@⟨_, _, _, _, _, _, _, _, members⟩ => nestedInnerFirst members ++ [e]

def nestedInnerFirst : List Element → List Element
  | [] => []
  | member :: rest =>
      if member.kind.isType then innerFirst member ++ nestedInnerFirst rest
      else nestedInnerFirst rest

end

theorem outerFirst_eq (e : Element) : e.outerFirst = e :: nestedOuterFirst e.members := by
  cases e
  rfl

/-! ## Equality -/

mutual

/-- Equality part by part; doubles in annotations are compared as numbers. -/
def same : Element → Element → Bool
  | ⟨kind, simple, full, outer, uses, type, thrown, parameters, members⟩,
    ⟨kind', simple', full', outer', uses', type', thrown', parameters', members'⟩ =>
      kind == kind' && simple == simple' && full == full' && sameOuter outer outer' &&
        AnnotationUse.sameAll uses uses' && type == type' && thrown == thrown' &&
        sameAll parameters parameters' && sameAll members members'

def sameOuter : Option Element → Option Element → Bool
  | none, none => true
  | some e, some f => same e f
  | _, _ => false

def sameAll : List Element → List Element → Bool
  | [], [] => true
  | e :: es, f :: fs => same e f && sameAll es fs
  | _, _ => false

end

end Element

end CompanionFactory
