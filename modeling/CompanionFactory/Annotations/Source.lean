import CompanionFactory.Annotations.Basic
import CompanionFactory.Number.Literal
import CompanionFactory.Text.Quoted

/-!
# Annotations as source

The canonical source form of an annotation.  Without values only the type is written; a single
value for the element `value` is written without its key; everything else is written as
`key=value` pairs.  Arrays always have braces, and every name is written as it was given.
-/

namespace CompanionFactory

mutual

def AnnotationValue.source : AnnotationValue → String
  | .text s => Text.quoted '"' s.toList
  | .flag b => if b then "true" else "false"
  | .int n => toString n.toInt
  | .long n => toString n.toInt ++ "L"
  | .char c => Text.quoted '\'' [c]
  | .double x => x.literal
  | .enumConstant type constant => type ++ "." ++ constant
  | .classLiteral type => type ++ ".class"
  | .nested use => use.source
  | .array values => "\x7b" ++ ", ".intercalate (AnnotationValue.sources values) ++ "\x7d"

def AnnotationValue.sources : List AnnotationValue → List String
  | [] => []
  | v :: vs => v.source :: AnnotationValue.sources vs

def AnnotationEntry.source : AnnotationEntry → String
  | ⟨key, value⟩ => key ++ "=" ++ value.source

def AnnotationEntry.sources : List AnnotationEntry → List String
  | [] => []
  | e :: es => e.source :: AnnotationEntry.sources es

/-- The annotation as it is written before a declaration. -/
def AnnotationUse.source : AnnotationUse → String
  | ⟨type, []⟩ => "@" ++ type
  | ⟨type, [⟨key, value⟩]⟩ =>
      if key = "value" then "@" ++ type ++ "(" ++ value.source ++ ")"
      else "@" ++ type ++ "(" ++ key ++ "=" ++ value.source ++ ")"
  | ⟨type, entries⟩ =>
      "@" ++ type ++ "(" ++ ", ".intercalate (AnnotationEntry.sources entries) ++ ")"

end

theorem AnnotationValue.sources_eq_map (values : List AnnotationValue) :
    AnnotationValue.sources values = values.map AnnotationValue.source := by
  induction values with
  | nil => rfl
  | cons v vs ih => simp [AnnotationValue.sources, ih]

theorem AnnotationEntry.sources_eq_map (entries : List AnnotationEntry) :
    AnnotationEntry.sources entries = entries.map AnnotationEntry.source := by
  induction entries with
  | nil => rfl
  | cons e es ih => simp [AnnotationEntry.sources, ih]

end CompanionFactory
