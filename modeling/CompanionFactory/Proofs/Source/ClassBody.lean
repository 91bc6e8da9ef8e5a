import CompanionFactory.Proofs.Text.Lines
import CompanionFactory.Source.Writer

/-!
# Class bodies, line by line

A class body is any sequence of members, each of them a field, a constructor or a method with any
tags before it.  No text that is handed to the writer has a line break, so the lines of the source
are those that the layout makes.

* `WrittenClass.steps` says how a class is handed to a writer;
* `Layout.empty_not_mem_lines_textAll`: there is no empty line inside a constructor or method;
* `Layout.exists_lines_member`: a member is written as whole lines, with all its empty lines in
  front;
* `Layout.nextAll_member`: what a member leaves behind for the next one.
-/

namespace CompanionFactory

open Text (lines Unbroken EndsLine)

/-! ## Class bodies -/

/-- A parameter of a constructor or method, as it is handed to a writer. -/
structure RoutineParameter where
  annotations : String
  type : String
  name : String
  modifiers : List Modifier
  deriving DecidableEq, Repr

/-- A statement or a part of one, as it is handed to a writer. -/
inductive StatementPart
  | fieldAssignment (field value : String)
  | returnKeyword
  | newInstance (type : String) (arguments : List String)
  | endStatement
  deriving DecidableEq, Repr

/-- A constructor or method behind its opening parenthesis. -/
structure RoutineRest where
  parameters : List RoutineParameter := []
  thrown : List String := []
  body : List StatementPart := []
  deriving DecidableEq, Repr

inductive MemberDeclaration
  | field (type name : String) (modifiers : List Modifier)
  | constructor (name : String) (modifiers : List Modifier) (rest : RoutineRest)
  | method (returns name : String) (modifiers : List Modifier) (rest : RoutineRest)
  deriving DecidableEq, Repr

/-- A member of a class body with the tags before it. -/
structure ClassMember where
  tags : List String := []
  declaration : MemberDeclaration
  deriving DecidableEq, Repr

/-- A class as it is handed to a writer. -/
structure WrittenClass where
  name : String
  generator : String
  modifiers : List Modifier
  members : List ClassMember
  deriving DecidableEq, Repr

def RoutineParameter.step (p : RoutineParameter) : SourceStep :=
  .parameter p.annotations p.type p.name p.modifiers

def StatementPart.step : StatementPart → SourceStep
  | fieldAssignment field value => .fieldAssignment field value
  | returnKeyword => .returnKeyword
  | newInstance type arguments => .newInstance type arguments
  | endStatement => .endStatement

def RoutineRest.steps (r : RoutineRest) : List SourceStep :=
  r.parameters.map (·.step) ++ .openBody r.thrown :: (r.body.map (·.step) ++ [.closeBlock])

namespace MemberDeclaration

def isField : MemberDeclaration → Bool
  | field _ _ _ => true
  | constructor _ _ _ | method _ _ _ _ => false

/-- What the line of the declaration begins with, behind its indentation. -/
def opening : MemberDeclaration → String
  | field type name modifiers => Modifier.words modifiers ++ type ++ " " ++ name ++ ";"
  | constructor name modifiers _ => Modifier.words modifiers ++ name ++ "("
  | method returns name modifiers _ => Modifier.words modifiers ++ returns ++ " " ++ name ++ "("

def steps : MemberDeclaration → List SourceStep
  | field type name modifiers => [.field type name modifiers]
  | constructor name modifiers rest => .constructorHead name modifiers :: rest.steps
  | method returns name modifiers rest => .methodHead returns name modifiers :: rest.steps

end MemberDeclaration

namespace ClassMember

def isField (m : ClassMember) : Bool :=
  m.declaration.isField

def steps (m : ClassMember) : List SourceStep :=
  m.tags.map (.tag · true) ++ m.declaration.steps

/-- The lines of a member: one for each tag, then the declaration, whose own line ends with `rest`
and has the lines `more` behind it. -/
def rows (m : ClassMember) (blanks rest : String) (more : List String) : List String :=
  m.tags.map (blanks ++ ·) ++ (blanks ++ m.declaration.opening ++ rest) :: more

end ClassMember

namespace WrittenClass

/-- The class line and some members behind it. -/
def stepsThrough (c : WrittenClass) (members : List ClassMember) : List SourceStep :=
  .classHead c.name c.generator c.modifiers :: members.flatMap (·.steps)

def steps (c : WrittenClass) : List SourceStep :=
  c.stepsThrough c.members ++ [.closeBlock]

end WrittenClass

/-! ## Steps without line breaks -/

namespace SourceStep

/-- No text in the step has a line break, and a tag has a text. -/
def OneLine : SourceStep → Prop
  | .packageLine name => Unbroken name
  | .tag text _ => text ≠ "" ∧ Unbroken text
  | .classHead name generator _ => Unbroken name ∧ Unbroken generator
  | .field type name _ => Unbroken type ∧ Unbroken name
  | .constructorHead name _ => Unbroken name
  | .methodHead returns name _ => Unbroken returns ∧ Unbroken name
  | .parameter annotations type name _ => Unbroken annotations ∧ Unbroken type ∧ Unbroken name
  | .openBody thrown => ∀ type ∈ thrown, Unbroken type
  | .fieldAssignment name value => Unbroken name ∧ Unbroken value
  | .newInstance type arguments => Unbroken type ∧ ∀ argument ∈ arguments, Unbroken argument
  | .returnKeyword | .endStatement | .closeBlock => True

instance (step : SourceStep) : Decidable step.OneLine :=
  match step with
  | .packageLine _ | .constructorHead _ _ => inferInstanceAs (Decidable (Unbroken _))
  | .tag _ _ | .classHead _ _ _ | .field _ _ _ | .methodHead _ _ _ | .parameter _ _ _ _
  | .fieldAssignment _ _ | .newInstance _ _ => inferInstanceAs (Decidable (_ ∧ _))
  | .openBody _ => inferInstanceAs (Decidable (∀ _ ∈ _, Unbroken _))
  | .returnKeyword | .endStatement | .closeBlock => inferInstanceAs (Decidable True)

/-- The step stands inside a constructor or method, behind its opening parenthesis. -/
def Inner : SourceStep → Prop
  | .parameter _ _ _ _ | .openBody _ | .fieldAssignment _ _ | .returnKeyword | .newInstance _ _
  | .endStatement | .closeBlock => True
  | .packageLine _ | .tag _ _ | .classHead _ _ _ | .field _ _ _ | .constructorHead _ _
  | .methodHead _ _ _ => False

end SourceStep

theorem Modifier.unbroken_words (modifiers : List Modifier) : Unbroken (words modifiers) := by
  refine Unbroken.join fun word hword => ?_
  obtain ⟨modifier, -, rfl⟩ := List.mem_map.mp hword
  cases modifier <;> decide

theorem MemberDeclaration.opening_ne_empty (d : MemberDeclaration) : d.opening ≠ "" := by
  cases d <;> simp [opening]

theorem ClassMember.empty_not_mem_rows (m : ClassMember) (htags : ∀ tag ∈ m.tags, tag ≠ "")
    {blanks rest : String} {more : List String} (hmore : "" ∉ more) :
    "" ∉ m.rows blanks rest more := by
  intro hmem
  rcases List.mem_append.mp hmem with htag | hdeclaration
  · obtain ⟨tag, htag, hempty⟩ := List.mem_map.mp htag
    exact htags tag htag (String.append_eq_empty_iff.mp hempty).2
  · rcases List.mem_cons.mp hdeclaration with hfirst | hlater
    · have hfront := (String.append_eq_empty_iff.mp hfirst.symm).1
      exact m.declaration.opening_ne_empty (String.append_eq_empty_iff.mp hfront).2
    · exact hmore hlater

theorem MemberDeclaration.unbroken_opening (d : MemberDeclaration)
    (hd : ∀ step ∈ d.steps, step.OneLine) : Unbroken d.opening := by
  have hwords := Modifier.unbroken_words
  have hblank : Unbroken " " := by decide
  have hparenthesis : Unbroken "(" := by decide
  have hend : Unbroken ";" := by decide
  cases d with
  | field type name modifiers =>
      obtain ⟨htype, hname⟩ := hd _ List.mem_cons_self
      simp [opening, Text.unbroken_append, hwords, htype, hblank, hname, hend]
  | constructor name modifiers rest =>
      have hname : Unbroken name := hd _ List.mem_cons_self
      simp [opening, Text.unbroken_append, hwords, hname, hparenthesis]
  | method returns name modifiers rest =>
      obtain ⟨hreturns, hname⟩ := hd _ List.mem_cons_self
      simp [opening, Text.unbroken_append, hwords, hreturns, hblank, hname, hparenthesis]

namespace Layout

variable (l : Layout)

theorem nextAll_cons (step : SourceStep) (steps : List SourceStep) :
    l.nextAll (step :: steps) = (l.next step).nextAll steps := rfl

theorem unbroken_indent : Unbroken l.indent := by
  simp [Unbroken, indent]

theorem line_eq (text : String) :
    l.line text = (if text = "" then "" else l.indent ++ text) ++ "\n" := by
  unfold line
  split <;> simp

/-- A text with a line of its own. -/
theorem lines_line_append {text : String} (htext : Unbroken text) (hne : text ≠ "") (t : String) :
    lines (l.line text ++ t) = (l.indent ++ text) :: lines t := by
  rw [line, if_neg hne]
  exact Text.lines_line_append (l.unbroken_indent.append htext) t

theorem lines_line {text : String} (htext : Unbroken text) (hne : text ≠ "") :
    lines (l.line text) = [l.indent ++ text] := by
  have h := l.lines_line_append htext hne ""
  rwa [String.append_empty] at h

/-- A parameter does not end its line, with or without a comma and annotations in front. -/
theorem unbroken_text_parameter {annotations type name : String} (modifiers : List Modifier)
    (h : (SourceStep.parameter annotations type name modifiers).OneLine) :
    Unbroken (l.text (.parameter annotations type name modifiers)) := by
  obtain ⟨hannotations, htype, hname⟩ := h
  have hwords := Modifier.unbroken_words modifiers
  have hblank : Unbroken " " := by decide
  have hcomma : Unbroken (if l.parameters = 0 then "" else ", ") := by split <;> decide
  have hfirst : Unbroken (if annotations = "" then "" else annotations ++ " ") := by
    split
    · decide
    · exact hannotations.append hblank
  simp [text, Text.unbroken_append, hcomma, hfirst, hwords, htype, hblank, hname]

/-- Inside a constructor or method a step either leaves its line open or ends it behind a text. -/
theorem empty_not_mem_lines_text {step : SourceStep} (hinner : step.Inner) (hstep : step.OneLine) :
    "" ∉ lines (l.text step) := by
  have hopen {text : String} (htext : Unbroken text) : "" ∉ lines text := by
    simp [Text.lines_eq_nil_of_unbroken htext]
  have hline (l' : Layout) {text : String} (htext : Unbroken text) (hne : text ≠ "") :
      "" ∉ lines (l'.line text) := by
    simp [l'.lines_line htext hne, hne]
  cases step with
  | packageLine | tag | classHead | field | constructorHead | methodHead => exact hinner.elim
  | parameter annotations type name modifiers =>
      exact hopen (l.unbroken_text_parameter modifiers hstep)
  | openBody thrown =>
      rw [text]
      split
      · decide
      · have htypes : Unbroken (") throws " ++ ", ".intercalate thrown) :=
          (show Unbroken ") throws " by decide).append (Unbroken.intercalate (by decide) hstep)
        exact Text.empty_not_mem_lines_append (hopen htypes) (by decide)
  | fieldAssignment name value =>
      obtain ⟨hname, hvalue⟩ := hstep
      have htarget : Unbroken ("this." ++ name ++ " = ") :=
        (Unbroken.append (by decide) hname).append (by decide)
      exact hline l ((htarget.append hvalue).append (by decide)) (by simp)
  | returnKeyword => exact hopen (l.unbroken_indent.append (by decide))
  | newInstance type arguments =>
      obtain ⟨htype, harguments⟩ := hstep
      have hcall : Unbroken ("new " ++ type ++ "(") :=
        (Unbroken.append (by decide) htype).append (by decide)
      exact hopen ((hcall.append (Unbroken.intercalate (by decide) harguments)).append (by decide))
  | endStatement => exact (by decide : "" ∉ lines ";\n")
  | closeBlock => exact hline _ (by decide) (by decide)

theorem empty_not_mem_lines_textAll {steps : List SourceStep}
    (hinner : ∀ step ∈ steps, step.Inner) (hsteps : ∀ step ∈ steps, step.OneLine) :
    "" ∉ lines (l.textAll steps) := by
  induction steps generalizing l with
  | nil => simp [textAll]
  | cons step steps ih =>
      obtain ⟨hfirst, hrest⟩ := List.forall_mem_cons.mp hsteps
      obtain ⟨hfirst', hrest'⟩ := List.forall_mem_cons.mp hinner
      exact Text.empty_not_mem_lines_append (l.empty_not_mem_lines_text hfirst' hfirst)
        (ih (l.next step) hrest' hrest)

/-! ## Tags -/

theorem textAll_tags (hdepth : l.depth ≠ 0) (tags : List String) :
    l.textAll (tags.map (.tag · true)) =
      (if tags = [] then "" else l.separator) ++ String.join (tags.map l.line) := by
  induction tags generalizing l with
  | nil => rfl
  | cons tag tags ih =>
      -- Behind a tag there is no blank line before the next one.
      have hline : (l.next (.tag tag true)).line = l.line := rfl
      have hseparator : (l.next (.tag tag true)).separator = "" := rfl
      rw [List.map_cons, textAll, ih (l.next (.tag tag true)) hdepth, hseparator, hline]
      simp [text, hdepth, String.append_assoc]

theorem nextAll_tags (tags : List String) :
    l.nextAll (tags.map (.tag · true)) =
      { l with
        tagged := l.tagged || !tags.isEmpty
        bodyEmpty := l.bodyEmpty && tags.isEmpty } := by
  induction tags generalizing l with
  | nil => simp [nextAll]
  | cons tag tags ih =>
      rw [List.map_cons, nextAll_cons, ih]
      simp [next]

theorem lines_join_line_append {tags : List String} (htags : ∀ tag ∈ tags, tag ≠ "" ∧ Unbroken tag)
    (t : String) :
    lines (String.join (tags.map l.line) ++ t) = tags.map (l.indent ++ ·) ++ lines t := by
  induction tags with
  | nil => simp
  | cons tag tags ih =>
      obtain ⟨⟨hne, htag⟩, htags⟩ := List.forall_mem_cons.mp htags
      rw [List.map_cons, String.join_cons, String.append_assoc, l.lines_line_append htag hne,
        ih htags, List.map_cons, List.cons_append]

/-- How many empty lines the separator is. -/
def gap : Nat :=
  if l.tagged || l.bodyEmpty then 0 else 1

theorem lines_separator_append (t : String) :
    lines (l.separator ++ t) = List.replicate l.gap "" ++ lines t := by
  unfold separator gap
  split
  · simp
  · exact Text.lines_break_append t

/-! ## Declarations -/

theorem nextAll_routineParameters (parameters : List RoutineParameter) :
    l.nextAll (parameters.map (·.step)) =
      { l with parameters := l.parameters + parameters.length } := by
  induction parameters generalizing l with
  | nil => rfl
  | cons p parameters ih =>
      rw [List.map_cons, nextAll_cons, ih]
      simp only [RoutineParameter.step, next, List.length_cons]
      congr 1
      omega

theorem nextAll_statements (body : List StatementPart) : l.nextAll (body.map (·.step)) = l := by
  induction body with
  | nil => rfl
  | cons part body ih =>
      have hnext : l.next part.step = l := by cases part <;> rfl
      rw [List.map_cons, nextAll_cons, hnext, ih]

/-- A constructor or method gives back the depth. -/
theorem nextAll_rest (r : RoutineRest) : l.nextAll r.steps = { l with parameters := 0 } := by
  rw [RoutineRest.steps, nextAll_append, nextAll_routineParameters, nextAll_cons, nextAll_append,
    nextAll_statements]
  rfl

theorem inner_of_mem_rest {r : RoutineRest} {step : SourceStep} (h : step ∈ r.steps) :
    step.Inner := by
  simp only [RoutineRest.steps, List.mem_append, List.mem_cons, List.mem_map] at h
  rcases h with ⟨p, -, rfl⟩ | rfl | ⟨part, -, rfl⟩ | rfl | h
  · trivial
  · trivial
  · cases part <;> trivial
  · trivial
  · cases h

theorem endsLine_rest (r : RoutineRest) : EndsLine (l.textAll r.steps) := by
  let front := r.parameters.map (·.step) ++ .openBody r.thrown :: r.body.map (·.step)
  have hsteps : r.steps = front ++ [.closeBlock] := by simp [RoutineRest.steps, front]
  have hclose : EndsLine ((l.nextAll front).textAll [.closeBlock]) := by
    rw [textAll, textAll, String.append_empty]
    exact ⟨_, line_eq _ _⟩
  rw [hsteps, textAll_append]
  exact hclose.append _

/-- Behind its opening parenthesis a constructor or method has whole lines, none of them empty. -/
theorem exists_lines_rest (r : RoutineRest) (hr : ∀ step ∈ r.steps, step.OneLine) :
    ∃ first more, lines (l.textAll r.steps) = first :: more ∧ "" ∉ more := by
  obtain ⟨first, more, hlines⟩ := List.exists_cons_of_ne_nil (l.endsLine_rest r).lines_ne_nil
  have hempty := l.empty_not_mem_lines_textAll (fun _ h => inner_of_mem_rest h) hr
  rw [hlines] at hempty
  exact ⟨first, more, hlines, fun h => hempty (List.mem_cons_of_mem _ h)⟩

/-- The text of a declaration is its separator, its indentation and its opening, with at least one
whole line behind that, of which only the first may be empty. -/
theorem exists_textAll_declaration (d : MemberDeclaration)
    (hd : ∀ step ∈ d.steps, step.OneLine) :
    ∃ behind first more, l.textAll d.steps =
        (if d.isField then "" else l.separator) ++ (l.indent ++ d.opening ++ behind) ∧
      EndsLine behind ∧ lines behind = first :: more ∧ "" ∉ more := by
  cases d with
  | field type name modifiers =>
      refine ⟨"\n", "", [], ?_, ⟨"", rfl⟩, rfl, List.not_mem_nil⟩
      simp [MemberDeclaration.steps, MemberDeclaration.isField, MemberDeclaration.opening, textAll,
        text, line]
  | constructor name modifiers rest =>
      obtain ⟨_, hrest⟩ := List.forall_mem_cons.mp hd
      let l' := l.next (.constructorHead name modifiers)
      obtain ⟨first, more, hlines⟩ := l'.exists_lines_rest rest hrest
      refine ⟨l'.textAll rest.steps, first, more, ?_, l'.endsLine_rest rest, hlines⟩
      simp [MemberDeclaration.steps, MemberDeclaration.isField, MemberDeclaration.opening, textAll,
        text, l', String.append_assoc]
  | method returns name modifiers rest =>
      obtain ⟨_, hrest⟩ := List.forall_mem_cons.mp hd
      let l' := l.next (.methodHead returns name modifiers)
      obtain ⟨first, more, hlines⟩ := l'.exists_lines_rest rest hrest
      refine ⟨l'.textAll rest.steps, first, more, ?_, l'.endsLine_rest rest, hlines⟩
      simp [MemberDeclaration.steps, MemberDeclaration.isField, MemberDeclaration.opening, textAll,
        text, l', String.append_assoc]

theorem nextAll_declaration (d : MemberDeclaration) :
    (l.nextAll d.steps).depth = l.depth ∧ (l.nextAll d.steps).bodyEmpty = false ∧
      (l.nextAll d.steps).tagged = (d.isField && l.tagged) := by
  cases d with
  | field => simp [MemberDeclaration.steps, MemberDeclaration.isField, nextAll, next]
  | constructor | method =>
      simp [MemberDeclaration.steps, MemberDeclaration.isField, nextAll_cons, nextAll_rest, next]

/-! ## Members -/

/-- How many empty lines come before a member. -/
def gapBefore (m : ClassMember) : Nat :=
  if m.tags.isEmpty && m.isField then 0 else l.gap

/-- The separator of a member comes before its tags, and there is no other. -/
theorem exists_textAll_member (hdepth : l.depth ≠ 0) {m : ClassMember}
    (hm : ∀ step ∈ m.steps, step.OneLine) :
    ∃ behind first more, l.textAll m.steps =
        (if m.tags.isEmpty && m.isField then "" else l.separator) ++
          (String.join (m.tags.map l.line) ++ (l.indent ++ m.declaration.opening ++ behind)) ∧
      EndsLine behind ∧ lines behind = first :: more ∧ "" ∉ more := by
  obtain ⟨-, hd⟩ := List.forall_mem_append.mp hm
  obtain ⟨behind, first, more, htext, hlines⟩ :=
    (l.nextAll (m.tags.map (.tag · true))).exists_textAll_declaration m.declaration hd
  refine ⟨behind, first, more, ?_, hlines⟩
  rw [ClassMember.steps, textAll_append, l.textAll_tags hdepth, htext, nextAll_tags]
  -- With a tag waiting there is no separator before the declaration.
  cases htags : m.tags with
  | nil => simp [ClassMember.isField, separator, indent]
  | cons tag tags => simp [ClassMember.isField, separator, indent, String.append_assoc]

/-- A member is written as whole lines: its gap and lines of its own, none of them empty. -/
theorem exists_lines_member (hdepth : l.depth ≠ 0) {m : ClassMember}
    (hm : ∀ step ∈ m.steps, step.OneLine) :
    EndsLine (l.textAll m.steps) ∧
    ∃ rest more,
      lines (l.textAll m.steps) =
        List.replicate (l.gapBefore m) "" ++ m.rows l.indent rest more ∧
      "" ∉ m.rows l.indent rest more := by
  obtain ⟨htags, hd⟩ := List.forall_mem_append.mp hm
  have htags : ∀ tag ∈ m.tags, tag ≠ "" ∧ Unbroken tag := List.forall_mem_map.mp htags
  have hopening := l.unbroken_indent.append (m.declaration.unbroken_opening hd)
  obtain ⟨behind, rest, more, htext, hends, hlines, hempty⟩ := l.exists_textAll_member hdepth hm
  have hown : lines (String.join (m.tags.map l.line) ++
      (l.indent ++ m.declaration.opening ++ behind)) = m.rows l.indent rest more := by
    rw [l.lines_join_line_append htags, Text.lines_append_of_unbroken hopening, hlines,
      List.modifyHead_cons, ClassMember.rows]
  refine ⟨?_, rest, more, ?_, ?_⟩
  · rw [htext]
    exact ((hends.append _).append _).append _
  · rw [htext, gapBefore]
    split
    · rw [String.empty_append, hown, List.replicate_zero, List.nil_append]
    · rw [l.lines_separator_append, hown]
  · exact m.empty_not_mem_rows (fun tag htag => (htags tag htag).1) hempty

/-- A member gives back the depth.  A constructor or method has used up all tags before it, a field
leaves its own tags and those before it. -/
theorem nextAll_member (m : ClassMember) :
    (l.nextAll m.steps).depth = l.depth ∧ (l.nextAll m.steps).bodyEmpty = false ∧
      (l.nextAll m.steps).tagged = (m.isField && (l.tagged || !m.tags.isEmpty)) := by
  rw [ClassMember.steps, nextAll_append, nextAll_tags]
  exact nextAll_declaration _ m.declaration

end Layout

end CompanionFactory
