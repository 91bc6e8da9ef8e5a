import CompanionFactory.Annotations.Source
import CompanionFactory.Proofs.Text.Word

/-!
# Well-formed annotations

Well-formed annotations hold no doubles and have proper names for types, keys and constants.  Their
flags, numbers, enum constants and class literals are written as one word.  Every other value
begins with a character that occurs in no word.

* `AnnotationValue.WellFormed`, `AnnotationUse.WellFormed`: what is asked for at every depth;
* `AnnotationValue.WellFormed.eq_of_source_eq`: a word is written for one value only.
-/

namespace CompanionFactory

mutual

/-- Nothing in the value is a double, and all its names are proper ones.  A constant must not be
called `class`, which is how class literals end. -/
inductive AnnotationValue.WellFormed : AnnotationValue → Prop
  | text (value : String) : AnnotationValue.WellFormed (.text value)
  | flag (value : Bool) : AnnotationValue.WellFormed (.flag value)
  | int (value : Int32) : AnnotationValue.WellFormed (.int value)
  | long (value : Int64) : AnnotationValue.WellFormed (.long value)
  | char (value : Char) : AnnotationValue.WellFormed (.char value)
  | enumConstant {type constant : String} (htype : Text.isQualifiedName type = true)
      (hconstant : Text.isIdentifier constant = true) (hclass : constant ≠ "class") :
      AnnotationValue.WellFormed (.enumConstant type constant)
  | classLiteral {type : String} (htype : Text.isQualifiedName type = true) :
      AnnotationValue.WellFormed (.classLiteral type)
  | nested {use : AnnotationUse} (huse : use.WellFormed) : AnnotationValue.WellFormed (.nested use)
  | array {values : List AnnotationValue} (hvalues : ∀ v ∈ values, v.WellFormed) :
      AnnotationValue.WellFormed (.array values)

/-- The annotation type is a qualified name, all keys are identifiers, and all values are
well-formed. -/
inductive AnnotationUse.WellFormed : AnnotationUse → Prop
  | mk {type : String} {entries : List AnnotationEntry}
      (htype : Text.isQualifiedName type = true)
      (hkeys : ∀ e ∈ entries, Text.isIdentifier e.key = true)
      (hvalues : ∀ e ∈ entries, e.value.WellFormed) : AnnotationUse.WellFormed ⟨type, entries⟩

end

/-! ## Values that are words -/

namespace AnnotationValue

/-- The character that the written value begins with, for values that are not words. -/
def opening? : AnnotationValue → Option Char
  | .text _ => some '"'
  | .char _ => some '\''
  | .nested _ => some '@'
  | .array _ => some '\x7b'
  | _ => none

variable {v w : AnnotationValue}

theorem source_classLiteral (type : String) :
    (classLiteral type).source = type ++ "." ++ "class" := by
  rw [String.append_assoc]
  rfl

theorem WellFormed.isWord_source (h : v.WellFormed) (hword : v.opening? = none) :
    Text.IsWord v.source := by
  cases h with
  | text | char | nested | array => simp [opening?] at hword
  | flag b => cases b <;> exact Text.isWord_of_isIdentifier (by decide)
  | int n => exact Text.isWord_repr n.toInt
  | long n => exact (Text.isWord_repr n.toInt).append (Text.isWord_of_isIdentifier (by decide))
  | enumConstant htype hconstant _ =>
      exact ((Text.isWord_of_isQualifiedName htype).append Text.isWord_dot).append
        (Text.isWord_of_isIdentifier hconstant)
  | classLiteral htype =>
      rw [source_classLiteral]
      exact ((Text.isWord_of_isQualifiedName htype).append Text.isWord_dot).append
        (Text.isWord_of_isIdentifier (show Text.isIdentifier "class" = true by decide))

theorem WellFormed.source_ne_empty (h : v.WellFormed) (hword : v.opening? = none) :
    v.source ≠ "" := by
  cases h with
  | text | char | nested | array => simp [opening?] at hword
  | flag b => cases b <;> simp [source]
  | int n => exact Text.repr_ne_empty n.toInt
  | long | enumConstant | classLiteral => simp [source]

/-- The first of the three characters that the written word contains; it tells the forms apart. -/
def telltale? : AnnotationValue → Option Char
  | .enumConstant _ _ | .classLiteral _ => some '.'
  | .flag _ => some 'e'
  | .long _ => some 'L'
  | _ => none

theorem WellFormed.telltale?_eq (h : v.WellFormed) (hword : v.opening? = none) :
    v.telltale? = ['.', 'e', 'L'].find? (fun c => v.source.toList.contains c) := by
  have hnumber {c : Char} (hdigit : c.isDigit = false) (hminus : c ≠ '-') (n : Int) :
      c ∉ n.repr.toList := by
    intro hc
    rcases Text.isDigit_or_eq_of_mem_repr hc with h | h
    · simp [hdigit] at h
    · exact hminus h
  cases h with
  | text | char | nested | array => simp [opening?] at hword
  | flag b => cases b <;> simp [source, telltale?]
  | int | long =>
      simp [source, telltale?, hnumber (c := '.'), hnumber (c := 'e'), hnumber (c := 'L')]
  | enumConstant | classLiteral => simp [source, telltale?]

/-- A word is written for one value only. -/
theorem WellFormed.eq_of_source_eq (hv : v.WellFormed) (hw : w.WellFormed)
    (hvword : v.opening? = none) (hwword : w.opening? = none) (h : v.source = w.source) :
    v = w := by
  have htelltale : v.telltale? = w.telltale? := by
    rw [hv.telltale?_eq hvword, h, hw.telltale?_eq hwword]
  cases hv with
  | text | char | nested | array => simp [opening?] at hvword
  | flag a =>
      cases hw with
      | flag b => cases a <;> cases b <;> simp [source] at h ⊢
      | _ => simp [telltale?] at htelltale hwword
  | int m =>
      cases hw with
      | int n => rw [Int32.toInt_inj.mp (Text.eq_of_repr_eq h)]
      | _ => simp [telltale?, opening?] at htelltale hwword
  | long m =>
      cases hw with
      | long n =>
          have hrepr : m.toInt.repr = n.toInt.repr := (String.append_left_inj "L").mp h
          rw [Int64.toInt_inj.mp (Text.eq_of_repr_eq hrepr)]
      | _ => simp [telltale?] at htelltale hwword
  | enumConstant _ hconstant hclass =>
      have hdot := Text.dot_notMem_of_isIdentifier hconstant
      cases hw with
      | enumConstant _ hconstant' _ =>
          obtain ⟨rfl, rfl⟩ := Text.append_dot_append_inj hdot
            (Text.dot_notMem_of_isIdentifier hconstant') h
          rfl
      | classLiteral _ =>
          rw [source_classLiteral] at h
          exact absurd (Text.append_dot_append_inj hdot (by decide) h).2 hclass
      | _ => simp [telltale?] at htelltale hwword
  | classLiteral _ =>
      rw [source_classLiteral] at h
      cases hw with
      | enumConstant _ hconstant hclass =>
          have hdot := Text.dot_notMem_of_isIdentifier hconstant
          exact absurd (Text.append_dot_append_inj hdot (by decide) h.symm).2 hclass
      | classLiteral _ =>
          rw [source_classLiteral] at h
          rw [(Text.append_dot_append_inj (by decide) (by decide) h).1]
      | _ => simp [telltale?] at htelltale hwword

end AnnotationValue

end CompanionFactory
