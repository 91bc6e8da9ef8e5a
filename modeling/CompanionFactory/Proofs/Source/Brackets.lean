import CompanionFactory.Proofs.Text.Scan
import CompanionFactory.Source.Layout

/-!
# Brackets in class source

Some steps leave a bracket open for a later step to close: a class line its brace, the head of a
constructor or method its parenthesis, the rest of that line the brace of a body.  Which brackets
are open between two steps does not depend on the names in the steps, nor on the layout.

* `SourceStep.due?` is what a step does to the brackets that are open;
* `SourceStep.Sound` asks for sound texts in a step, whatever the step does;
* `Layout.scans_text` says that a scanner sees a sound step do just that, at any layout;
* `Layout.scans_textAll` says so for any number of steps.
-/

namespace CompanionFactory

open Text (Inert LexicallySound Scans inert_append)

namespace SourceStep

/-- The brackets still due when `bracket` closes the innermost one. -/
def closed? (bracket : Char) : List Char → Option (List Char)
  | [] => none
  | d :: due => if d = bracket then some due else none

/-- The brackets due behind a step, given those due before it. -/
def due? (due : List Char) : SourceStep → Option (List Char)
  | .classHead _ _ _ => some ('\x7d' :: due)
  | .constructorHead _ _ | .methodHead _ _ _ => some (')' :: due)
  | .openBody _ => (closed? ')' due).map fun outer => '\x7d' :: outer
  | .closeBlock => closed? '\x7d' due
  | .packageLine _ | .tag _ _ | .field _ _ _ | .parameter _ _ _ _ | .fieldAssignment _ _
  | .returnKeyword | .newInstance _ _ | .endStatement => some due

/-- The brackets due behind several steps. -/
def dueAll? (due : List Char) (steps : List SourceStep) : Option (List Char) :=
  steps.foldlM due? due

theorem closed?_eq_some_iff {bracket : Char} {due outer : List Char} :
    closed? bracket due = some outer ↔ due = bracket :: outer := by
  cases due with
  | nil => simp [closed?]
  | cons d due => by_cases hd : d = bracket <;> simp [closed?, hd]

theorem dueAll?_append (due : List Char) (first second : List SourceStep) :
    dueAll? due (first ++ second) =
      (dueAll? due first).bind fun between => dueAll? between second :=
  List.foldlM_append

/-- The steps close what they open, and nothing else. -/
def Balanced (steps : List SourceStep) : Prop :=
  ∀ due, dueAll? due steps = some due

theorem Balanced.append {first second : List SourceStep} (hfirst : Balanced first)
    (hsecond : Balanced second) : Balanced (first ++ second) := by
  intro due
  rw [dueAll?_append, hfirst, Option.bind_some, hsecond]

theorem balanced_of_forall {steps : List SourceStep}
    (h : ∀ step ∈ steps, ∀ due, step.due? due = some due) : Balanced steps := by
  induction steps with
  | nil => exact fun due => rfl
  | cons step steps ih =>
      obtain ⟨hstep, hsteps⟩ := List.forall_mem_cons.mp h
      intro due
      exact Option.bind_eq_some_iff.mpr ⟨due, hstep due, ih hsteps due⟩

theorem balanced_flatMap {α : Type} {write : α → List SourceStep} (h : ∀ a, Balanced (write a))
    (as : List α) : Balanced (as.flatMap write) := by
  induction as with
  | nil => exact fun due => rfl
  | cons a as ih =>
      rw [List.flatMap_cons]
      exact (h a).append ih

/-- All texts of the step are sound, and what it writes between quotes is inert. -/
def Sound : SourceStep → Prop
  | .packageLine name => LexicallySound name
  | .tag text _ => LexicallySound text
  | .classHead name generator _ => LexicallySound name ∧ Inert generator
  | .field type name _ => LexicallySound type ∧ LexicallySound name
  | .constructorHead name _ => LexicallySound name
  | .methodHead returns name _ => LexicallySound returns ∧ LexicallySound name
  | .parameter annotations type name _ =>
      LexicallySound annotations ∧ LexicallySound type ∧ LexicallySound name
  | .openBody thrown => ∀ type ∈ thrown, LexicallySound type
  | .fieldAssignment name value => LexicallySound name ∧ LexicallySound value
  | .newInstance type arguments =>
      LexicallySound type ∧ ∀ argument ∈ arguments, LexicallySound argument
  | .returnKeyword | .endStatement | .closeBlock => True

end SourceStep

theorem Modifier.lexicallySound_words (modifiers : List Modifier) :
    LexicallySound (words modifiers) := by
  have hword (modifier : Modifier) : LexicallySound (modifier.word ++ " ") := by
    cases modifier <;> decide
  induction modifiers with
  | nil => exact rfl
  | cons modifier modifiers ih =>
      rw [words, List.map_cons, String.join_cons]
      exact (hword modifier).append ih

namespace Layout

variable (l : Layout)

/-! ## Lines -/

theorem lexicallySound_indent : LexicallySound l.indent := by
  have hblanks : Inert l.indent := by
    intro c hc
    rw [indent, String.toList_ofList] at hc
    obtain rfl := List.eq_of_mem_replicate hc
    decide
  exact hblanks.lexicallySound

theorem lexicallySound_separator : LexicallySound l.separator := by
  unfold separator
  split <;> decide

/-- A line does to the brackets what the text on it does. -/
theorem scans_line {text : String} {due due' : List Char}
    (h : Scans { due := due } text { due := due' }) :
    Scans { due := due } (l.line text) { due := due' } := by
  have hbreak : LexicallySound "\n" := by decide
  unfold line
  split
  · next hempty =>
      rw [hempty] at h
      exact h.append (hbreak.scans due')
  · exact ((l.lexicallySound_indent.scans due).append h).append (hbreak.scans due')

theorem lexicallySound_line {text : String} (h : LexicallySound text) :
    LexicallySound (l.line text) :=
  l.scans_line h

/-! ## Steps that leave the brackets alone -/

theorem lexicallySound_packageLine {name : String} (hname : LexicallySound name) :
    LexicallySound (l.text (.packageLine name)) := by
  have hpackage : LexicallySound ("package " ++ name ++ ";") :=
    (LexicallySound.append (by decide) hname).append (by decide)
  have hblank : LexicallySound "" := rfl
  rw [text]
  split
  · exact hblank
  · exact (l.lexicallySound_line hpackage).append (l.lexicallySound_line hblank)

theorem lexicallySound_tag {content : String} (hcontent : LexicallySound content)
    (condition : Bool) : LexicallySound (l.text (.tag content condition)) := by
  have hblank : LexicallySound "" := rfl
  have hseparator : LexicallySound (if l.depth = 0 then "" else l.separator) := by
    split
    · exact hblank
    · exact l.lexicallySound_separator
  rw [text]
  split
  · exact hseparator.append (l.lexicallySound_line hcontent)
  · exact hblank

theorem lexicallySound_field {type name : String} (htype : LexicallySound type)
    (hname : LexicallySound name) (modifiers : List Modifier) :
    LexicallySound (l.text (.field type name modifiers)) := by
  have hwords := Modifier.lexicallySound_words modifiers
  exact l.lexicallySound_line
    ((((hwords.append htype).append (by decide)).append hname).append (by decide))

theorem lexicallySound_parameter {annotations type name : String}
    (hannotations : LexicallySound annotations) (htype : LexicallySound type)
    (hname : LexicallySound name) (modifiers : List Modifier) :
    LexicallySound (l.text (.parameter annotations type name modifiers)) := by
  have hblank : LexicallySound "" := rfl
  have hcomma : LexicallySound (if l.parameters = 0 then "" else ", ") := by
    split <;> decide
  have hprefix : LexicallySound (if annotations = "" then "" else annotations ++ " ") := by
    split
    · exact hblank
    · exact hannotations.append (by decide)
  have hwords := Modifier.lexicallySound_words modifiers
  rw [text]
  exact ((((hcomma.append hprefix).append hwords).append htype).append (by decide)).append hname

theorem lexicallySound_fieldAssignment {field value : String} (hfield : LexicallySound field)
    (hvalue : LexicallySound value) : LexicallySound (l.text (.fieldAssignment field value)) := by
  have hthis : LexicallySound ("this." ++ field) := LexicallySound.append (by decide) hfield
  exact l.lexicallySound_line (((hthis.append (by decide)).append hvalue).append (by decide))

theorem lexicallySound_newInstance {type : String} {arguments : List String}
    (htype : LexicallySound type) (harguments : ∀ argument ∈ arguments, LexicallySound argument) :
    LexicallySound (l.text (.newInstance type arguments)) := by
  have hnew : LexicallySound ("new " ++ type) := LexicallySound.append (by decide) htype
  have hlist : LexicallySound (", ".intercalate arguments) :=
    LexicallySound.intercalate (by decide) harguments
  have hsame : l.text (.newInstance type arguments) =
      "new " ++ type ++ ("(" ++ ", ".intercalate arguments ++ ")") := by
    simp [text, String.append_assoc]
  rw [hsame]
  exact hnew.append hlist.parens

/-! ## Steps that open and close brackets -/

theorem scans_classHead {name generator : String} (hname : LexicallySound name)
    (hgenerator : Inert generator) (modifiers : List Modifier) :
    Scans {} (l.text (.classHead name generator modifiers)) { due := ['\x7d'] } := by
  have hquoted : LexicallySound ("@javax.annotation.Generated(\"" ++ generator ++ "\")") := by
    have hopen : Scans {} "@javax.annotation.Generated(\"" ⟨.literal '"', [')']⟩ := by decide
    have hclose : Scans ⟨.literal '"', [')']⟩ "\")" {} := by decide
    exact (hopen.append (hgenerator.scans (.inr ⟨'"', .inl rfl, rfl⟩))).append hclose
  have hclass : LexicallySound (Modifier.words modifiers ++ "class " ++ name) :=
    ((Modifier.lexicallySound_words modifiers).append (by decide)).append hname
  have hbrace : Scans {} " \x7b" { due := ['\x7d'] } := by decide
  exact Scans.append (l.lexicallySound_line hquoted) (l.scans_line (Scans.append hclass hbrace))

/-- A constructor or method up to its opening parenthesis. -/
theorem scans_head {head : String} (hhead : LexicallySound head) :
    Scans {} (l.separator ++ l.indent ++ (head ++ "(")) { due := [')'] } := by
  have hparen : Scans {} "(" { due := [')'] } := rfl
  exact Scans.append (l.lexicallySound_separator.append l.lexicallySound_indent)
    (Scans.append hhead hparen)

theorem scans_constructorHead {name : String} (hname : LexicallySound name)
    (modifiers : List Modifier) :
    Scans {} (l.text (.constructorHead name modifiers)) { due := [')'] } := by
  have hsame : l.text (.constructorHead name modifiers) =
      l.separator ++ l.indent ++ (Modifier.words modifiers ++ name ++ "(") := by
    simp [text, String.append_assoc]
  rw [hsame]
  exact l.scans_head ((Modifier.lexicallySound_words modifiers).append hname)

theorem scans_methodHead {returns name : String} (hreturns : LexicallySound returns)
    (hname : LexicallySound name) (modifiers : List Modifier) :
    Scans {} (l.text (.methodHead returns name modifiers)) { due := [')'] } := by
  have hsame : l.text (.methodHead returns name modifiers) =
      l.separator ++ l.indent ++ (Modifier.words modifiers ++ returns ++ " " ++ name ++ "(") := by
    simp [text, String.append_assoc]
  have hwords := Modifier.lexicallySound_words modifiers
  rw [hsame]
  exact l.scans_head (((hwords.append hreturns).append (by decide)).append hname)

theorem scans_openBody {thrown : List String} (hthrown : ∀ type ∈ thrown, LexicallySound type) :
    Scans { due := [')'] } (l.text (.openBody thrown)) { due := ['\x7d'] } := by
  have hplain : Scans { due := [')'] } ") \x7b\n" { due := ['\x7d'] } := by decide
  have hopen : Scans { due := [')'] } ") throws " {} := by decide
  have hbrace : Scans {} " \x7b\n" { due := ['\x7d'] } := by decide
  have hlist : LexicallySound (", ".intercalate thrown) :=
    LexicallySound.intercalate (by decide) hthrown
  rw [text]
  split
  · exact hplain
  · exact (hopen.append hlist).append hbrace

theorem scans_closeBlock : Scans { due := ['\x7d'] } (l.text .closeBlock) {} := by
  have hbrace : Scans { due := ['\x7d'] } "\x7d" {} := rfl
  exact scans_line _ hbrace

/-! ## All steps -/

/-- At any layout, a scanner sees a sound step do to the brackets what it is meant to do. -/
theorem scans_text {step : SourceStep} (hstep : step.Sound) {due due' : List Char}
    (hdue : step.due? due = some due') :
    Scans { due := due } (l.text step) { due := due' } := by
  have hneutral (hsame : due = due') (hsound : LexicallySound (l.text step)) :
      Scans { due := due } (l.text step) { due := due' } := hsame ▸ hsound.scans due
  cases step with
  | packageLine => exact hneutral (Option.some.inj hdue) (l.lexicallySound_packageLine hstep)
  | tag text condition =>
      exact hneutral (Option.some.inj hdue) (l.lexicallySound_tag hstep condition)
  | field _ _ modifiers =>
      exact hneutral (Option.some.inj hdue) (l.lexicallySound_field hstep.1 hstep.2 modifiers)
  | parameter _ _ _ modifiers =>
      obtain ⟨hannotations, htype, hname⟩ := hstep
      exact hneutral (Option.some.inj hdue)
        (l.lexicallySound_parameter hannotations htype hname modifiers)
  | fieldAssignment =>
      exact hneutral (Option.some.inj hdue) (l.lexicallySound_fieldAssignment hstep.1 hstep.2)
  | newInstance =>
      exact hneutral (Option.some.inj hdue) (l.lexicallySound_newInstance hstep.1 hstep.2)
  | returnKeyword =>
      exact hneutral (Option.some.inj hdue) (l.lexicallySound_indent.append (by decide))
  | endStatement => exact hneutral (Option.some.inj hdue) (show LexicallySound ";\n" by decide)
  | classHead _ _ modifiers =>
      obtain rfl := Option.some.inj hdue
      exact (l.scans_classHead hstep.1 hstep.2 modifiers).enclosed due
  | constructorHead _ modifiers =>
      obtain rfl := Option.some.inj hdue
      exact (l.scans_constructorHead hstep modifiers).enclosed due
  | methodHead _ _ modifiers =>
      obtain rfl := Option.some.inj hdue
      exact (l.scans_methodHead hstep.1 hstep.2 modifiers).enclosed due
  | openBody =>
      obtain ⟨outer, hclosed, rfl⟩ := Option.map_eq_some_iff.mp hdue
      obtain rfl := SourceStep.closed?_eq_some_iff.mp hclosed
      exact (l.scans_openBody hstep).enclosed outer
  | closeBlock =>
      obtain rfl := SourceStep.closed?_eq_some_iff.mp hdue
      exact l.scans_closeBlock.enclosed due'

theorem scans_textAll {steps : List SourceStep} (hsteps : ∀ step ∈ steps, step.Sound)
    {due due' : List Char} (hdue : SourceStep.dueAll? due steps = some due') :
    Scans { due := due } (l.textAll steps) { due := due' } := by
  -- What is due behind the first step is due before the others, at the layout behind it.
  induction steps generalizing l due with
  | nil =>
      obtain rfl : due = due' := Option.some.inj hdue
      exact rfl
  | cons step steps ih =>
      obtain ⟨hstep, hrest⟩ := List.forall_mem_cons.mp hsteps
      obtain ⟨between, hfirst, hlater⟩ := Option.bind_eq_some_iff.mp hdue
      exact (l.scans_text hstep hfirst).append (ih (l.next step) hrest hlater)

end Layout

end CompanionFactory
