import CompanionFactory.Number.Binary64

/-!
# Annotations

An annotation in use: its type and the values given to its elements, in the order they were
given.  A key may occur more than once; looking it up finds its first value.  Values nest,
through annotations and through arrays.

Two annotations are equal when they are equal part by part, doubles being compared as numbers.
An annotation that holds a not-a-number is therefore not equal to itself.
-/

namespace CompanionFactory

mutual

/-- The value of one annotation element. -/
inductive AnnotationValue
  | text (value : String)
  | flag (value : Bool)
  | int (value : Int32)
  | long (value : Int64)
  | char (value : Char)
  | double (value : Binary64)
  /-- A constant of an enum type. -/
  | enumConstant (type constant : String)
  /-- A type named by its class literal. -/
  | classLiteral (type : String)
  | nested (use : AnnotationUse)
  | array (values : List AnnotationValue)

/-- A value with the name of the annotation element it is given to. -/
structure AnnotationEntry where
  key : String
  value : AnnotationValue

/-- One annotation as it stands on an element. -/
structure AnnotationUse where
  type : String
  entries : List AnnotationEntry

end

namespace AnnotationUse

/-- The first value given under `key`. -/
def value? (use : AnnotationUse) (key : String) : Option AnnotationValue :=
  (use.entries.find? (·.key == key)).map (·.value)

end AnnotationUse

mutual

def AnnotationValue.same : AnnotationValue → AnnotationValue → Bool
  | .text s, .text t => s == t
  | .flag a, .flag b => a == b
  | .int m, .int n => m == n
  | .long m, .long n => m == n
  | .char c, .char d => c == d
  | .double x, .double y => x.same y
  | .enumConstant s a, .enumConstant t b => s == t && a == b
  | .classLiteral s, .classLiteral t => s == t
  | .nested a, .nested b => a.same b
  | .array vs, .array ws => AnnotationValue.sameAll vs ws
  | _, _ => false

def AnnotationValue.sameAll : List AnnotationValue → List AnnotationValue → Bool
  | [], [] => true
  | v :: vs, w :: ws => v.same w && AnnotationValue.sameAll vs ws
  | _, _ => false

def AnnotationEntry.same : AnnotationEntry → AnnotationEntry → Bool
  | ⟨k, v⟩, ⟨l, w⟩ => k == l && v.same w

def AnnotationEntry.sameAll : List AnnotationEntry → List AnnotationEntry → Bool
  | [], [] => true
  | d :: ds, e :: es => d.same e && AnnotationEntry.sameAll ds es
  | _, _ => false

/-- Equality part by part. -/
def AnnotationUse.same : AnnotationUse → AnnotationUse → Bool
  | ⟨s, ds⟩, ⟨t, es⟩ => s == t && AnnotationEntry.sameAll ds es

end

/-- Equality of two lists of annotations, place by place. -/
def AnnotationUse.sameAll : List AnnotationUse → List AnnotationUse → Bool
  | [], [] => true
  | a :: as, b :: bs => a.same b && AnnotationUse.sameAll as bs
  | _, _ => false

end CompanionFactory
