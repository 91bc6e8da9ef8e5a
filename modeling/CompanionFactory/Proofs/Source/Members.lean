import CompanionFactory.Factory.Source
import CompanionFactory.Proofs.Text.Recovery

/-!
# The members of a class body

What the layout holds between any two members of a class body, and the text that fields, tags,
parameters and assignments have there.  Between two members the depth is one, no parameter has
been counted and no tag waits, so `Layout.inClass` needs to remember only whether the body is
still empty.  Inside the body of a constructor or method nothing is remembered but the depth.

* `nextAll_*` says where the layout stands behind a run of equal steps of any length;
* `textAll_*` gives the text of such a run without mentioning the layout between its steps.
-/

namespace CompanionFactory

/-- A text on a line of its own, behind a number of blanks; the empty text is not indented. -/
def sourceLine (blanks : Nat) (text : String) : String :=
  if text = "" then "\n" else String.ofList (List.replicate blanks ' ') ++ text ++ "\n"

def tagLine (blanks : Nat) : Option String → String
  | none => ""
  | some tag => sourceLine blanks tag

def throwsClause (thrown : List String) : String :=
  if thrown = [] then "" else " throws " ++ ", ".intercalate thrown

/-- A parameter as it is declared, without the separator before it. -/
def GivenParameter.text (p : GivenParameter) : String :=
  (if p.annotations = "" then "" else p.annotations ++ " ") ++ "final " ++ p.type ++ " " ++ p.name

theorem sourceLine_of_ne_empty {text : String} (h : text ≠ "") (blanks : Nat) :
    sourceLine blanks text = String.ofList (List.replicate blanks ' ') ++ text ++ "\n" := by
  simp [sourceLine, h]

namespace Layout

/-- Between two members of a class body, or before the first one. -/
def inClass (bodyEmpty : Bool) : Layout where
  depth := 1
  bodyEmpty := bodyEmpty

def inBody : Layout where
  depth := 2
  bodyEmpty := false

theorem line_eq_sourceLine (l : Layout) (text : String) :
    l.line text = sourceLine (4 * l.depth) text := rfl

/-! ## Fields -/

theorem text_field (l : Layout) (f : HeldField) :
    l.text f.step =
      sourceLine (4 * l.depth) ("private final " ++ f.type ++ " " ++ f.name ++ ";") := by
  have hwords : Modifier.words [.privateAccess, .final] = "private final " := by
    simp [Modifier.words, Modifier.word]
  rw [HeldField.step, text, hwords, line_eq_sourceLine]

theorem textAll_fields (l : Layout) (fields : List HeldField) :
    l.textAll (fields.map (·.step)) =
      String.join (fields.map fun f =>
        sourceLine (4 * l.depth) ("private final " ++ f.type ++ " " ++ f.name ++ ";")) := by
  induction fields generalizing l with
  | nil => simp [textAll]
  | cons f fields ih =>
      have hdepth : (l.next f.step).depth = l.depth := rfl
      rw [List.map_cons, textAll, text_field, ih, hdepth]
      simp

theorem nextAll_fields (l : Layout) (fields : List HeldField) :
    l.nextAll (fields.map (·.step)) =
      { l with bodyEmpty := l.bodyEmpty && fields.isEmpty } := by
  induction fields generalizing l with
  | nil => simp [nextAll]
  | cons f fields ih =>
      have hnext : l.next f.step = { l with bodyEmpty := false } := rfl
      have hcons : l.nextAll ((f :: fields).map (·.step)) =
          (l.next f.step).nextAll (fields.map (·.step)) := rfl
      rw [hcons, ih, hnext]
      simp

/-! ## Tags -/

/-- A tag before a member takes the blank line of that member. -/
theorem textAll_tagSteps_inClass (bodyEmpty : Bool) (tag : Option String) :
    (inClass bodyEmpty).textAll (tagSteps tag) =
      if tag.isNone || bodyEmpty then tagLine 4 tag else "\n" ++ tagLine 4 tag := by
  cases tag with
  | none => simp [tagSteps, textAll, tagLine]
  | some tag =>
      cases bodyEmpty <;>
        simp [tagSteps, textAll, text, separator, inClass, tagLine, line_eq_sourceLine]

theorem nextAll_tagSteps (l : Layout) (tag : Option String) :
    l.nextAll (tagSteps tag) =
      { l with tagged := l.tagged || tag.isSome, bodyEmpty := l.bodyEmpty && tag.isNone } := by
  cases tag <;> simp [tagSteps, nextAll, next]

/-! ## Parameters -/

theorem text_parameter (l : Layout) (p : GivenParameter) :
    l.text p.step = (if l.parameters = 0 then "" else ", ") ++ p.text := by
  have hwords : Modifier.words [.final] = "final " := by
    simp [Modifier.words, Modifier.word]
  rw [GivenParameter.step, text, hwords, GivenParameter.text]
  simp [String.append_assoc]

theorem textAll_parameters_of_ne_zero {l : Layout} (h : l.parameters ≠ 0)
    (parameters : List GivenParameter) :
    l.textAll (parameters.map (·.step)) =
      String.join (parameters.map fun p => ", " ++ p.text) := by
  induction parameters generalizing l with
  | nil => simp [textAll]
  | cons p parameters ih =>
      -- The count only grows within a declaration, so no later parameter is the first one.
      have hnext : (l.next p.step).parameters ≠ 0 := Nat.succ_ne_zero l.parameters
      rw [List.map_cons, textAll, text_parameter, ih hnext, if_neg h]
      simp

theorem textAll_parameters {l : Layout} (h : l.parameters = 0)
    (parameters : List GivenParameter) :
    l.textAll (parameters.map (·.step)) = ", ".intercalate (parameters.map (·.text)) := by
  cases parameters with
  | nil => simp [textAll]
  | cons p parameters =>
      -- Behind the first parameter the count is not zero any more.
      have hnext : (l.next p.step).parameters ≠ 0 := Nat.succ_ne_zero l.parameters
      rw [List.map_cons, textAll, text_parameter, textAll_parameters_of_ne_zero hnext, if_pos h,
        List.map_cons, Text.intercalate_cons_eq_join, List.map_map]
      simp [Function.comp_def]

theorem nextAll_parameters (l : Layout) (parameters : List GivenParameter) :
    l.nextAll (parameters.map (·.step)) =
      { l with parameters := l.parameters + parameters.length } := by
  induction parameters generalizing l with
  | nil => simp [nextAll]
  | cons p parameters ih =>
      have hnext : l.next p.step = { l with parameters := l.parameters + 1 } := rfl
      have hcons : l.nextAll ((p :: parameters).map (·.step)) =
          (l.next p.step).nextAll (parameters.map (·.step)) := rfl
      rw [hcons, ih, hnext]
      simp only [List.length_cons]
      congr 1
      omega

/-! ## Declarations -/

/-- A constructor up to its opening parenthesis, with the tag before it.  The blank line that sets
it off from the member before comes first. -/
theorem textAll_taggedHead (bodyEmpty : Bool) (tag : Option String) (name : String)
    (modifiers : List Modifier) :
    (inClass bodyEmpty).textAll (tagSteps tag ++ [.constructorHead name modifiers]) =
      (if bodyEmpty then "" else "\n") ++ tagLine 4 tag ++
        ("    " ++ Modifier.words modifiers ++ name ++ "(") := by
  rw [textAll_append, textAll_tagSteps_inClass, nextAll_tagSteps]
  -- Both sides are compared as lists of characters, where joining needs no bracketing.
  apply String.toList_injective
  cases tag <;> cases bodyEmpty <;>
    simp [textAll, text, separator, indent, inClass, tagLine, List.replicate]

theorem nextAll_taggedHead (bodyEmpty : Bool) (tag : Option String) (name : String)
    (modifiers : List Modifier) :
    (inClass bodyEmpty).nextAll (tagSteps tag ++ [.constructorHead name modifiers]) =
      inClass false := by
  rw [nextAll_append, nextAll_tagSteps]
  rfl

/-- A method up to its opening parenthesis; it never comes first in a factory. -/
theorem textAll_methodHead (returns name : String) (modifiers : List Modifier) :
    (inClass false).textAll [.methodHead returns name modifiers] =
      "\n    " ++ Modifier.words modifiers ++ returns ++ " " ++ name ++ "(" := by
  apply String.toList_injective
  simp [textAll, text, separator, indent, inClass, List.replicate]

theorem nextAll_methodHead (bodyEmpty : Bool) (returns name : String)
    (modifiers : List Modifier) :
    (inClass bodyEmpty).nextAll [.methodHead returns name modifiers] = inClass false := rfl

theorem textAll_signature (parameters : List GivenParameter) (thrown : List String) :
    (inClass false).textAll (parameters.map (·.step) ++ [.openBody thrown]) =
      ", ".intercalate (parameters.map (·.text)) ++ ")" ++ throwsClause thrown ++ " \x7b\n" := by
  have hcount : (inClass false).parameters = 0 := rfl
  rw [textAll_append, textAll_parameters hcount]
  apply String.toList_injective
  by_cases hthrown : thrown = [] <;> simp [textAll, text, throwsClause, hthrown]

theorem nextAll_signature (parameters : List GivenParameter) (thrown : List String) :
    (inClass false).nextAll (parameters.map (·.step) ++ [.openBody thrown]) = inBody := by
  rw [nextAll_append, nextAll_parameters]
  rfl

/-! ## Bodies -/

theorem textAll_closeBlock_inBody : inBody.textAll [.closeBlock] = sourceLine 4 "\x7d" := rfl

theorem textAll_creation (type : String) (arguments : List String) :
    inBody.textAll [.returnKeyword, .newInstance type arguments, .endStatement, .closeBlock] =
      sourceLine 8 ("return new " ++ type ++ "(" ++ ", ".intercalate arguments ++ ");") ++
        sourceLine 4 "\x7d" := by
  apply String.toList_injective
  simp [textAll, text, next, indent, line, inBody, sourceLine, List.replicate]

theorem textAll_assignments (l : Layout) (fields : List HeldField) :
    l.textAll (fields.map fun f => .fieldAssignment f.name f.name) =
      String.join (fields.map fun f =>
        sourceLine (4 * l.depth) ("this." ++ f.name ++ " = " ++ f.name ++ ";")) := by
  induction fields with
  | nil => simp [textAll]
  | cons f fields ih =>
      have hnext : l.next (.fieldAssignment f.name f.name) = l := rfl
      rw [List.map_cons, textAll, hnext, ih, text, line_eq_sourceLine]
      simp

theorem nextAll_assignments (l : Layout) (fields : List HeldField) :
    l.nextAll (fields.map fun f => .fieldAssignment f.name f.name) = l := by
  induction fields with
  | nil => rfl
  | cons f fields ih => exact ih

end Layout

end CompanionFactory
