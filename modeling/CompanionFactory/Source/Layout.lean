import CompanionFactory.Element.Kind

/-!
# Layout of class source

A class is written step by step, one declaration part at a time.  The layout is all that a step
needs to know about the steps before it: how deep the text is indented, how many parameters the
current declaration has, whether a tag waits for its declaration, and whether the class body is
still empty.  It decides indentation, separators and blank lines:

* a constructor or method is set off from what stands before it in the class body by a blank
  line, which comes before the tags of the declaration if it has any;
* the first member of a class body follows the class line directly;
* an empty package name and a tag whose condition fails write nothing at all.
-/

namespace CompanionFactory

/-- One part of a class being written. -/
inductive SourceStep
  /-- The package line and a blank line behind it. -/
  | packageLine (name : String)
  /-- A tag on its own line, written only under a condition. -/
  | tag (text : String) (condition : Bool)
  /-- The line that says who generated the class, and the class line. -/
  | classHead (name generator : String) (modifiers : List Modifier)
  | field (type name : String) (modifiers : List Modifier)
  /-- A constructor up to its opening parenthesis. -/
  | constructorHead (name : String) (modifiers : List Modifier)
  /-- A method up to its opening parenthesis. -/
  | methodHead (returns name : String) (modifiers : List Modifier)
  /-- One parameter of the declaration in progress. -/
  | parameter (annotations type name : String) (modifiers : List Modifier)
  /-- The rest of the declaration line, up to its opening brace. -/
  | openBody (thrown : List String)
  | fieldAssignment (field value : String)
  | returnKeyword
  | newInstance (type : String) (arguments : List String)
  | endStatement
  | closeBlock
  deriving DecidableEq, Repr

/-- What the steps written so far leave behind. -/
structure Layout where
  depth : Nat := 0
  /-- The parameters of the current declaration so far. -/
  parameters : Nat := 0
  /-- Whether a tag has been written for a declaration still to come. -/
  tagged : Bool := false
  bodyEmpty : Bool := true
  deriving DecidableEq, Repr

namespace Layout

/-- Four blanks for every level. -/
def indent (l : Layout) : String :=
  String.ofList (List.replicate (4 * l.depth) ' ')

/-- A text on a line of its own; the empty text is not indented. -/
def line (l : Layout) (text : String) : String :=
  if text = "" then "\n" else l.indent ++ text ++ "\n"

/-- The blank line before the next declaration or its first tag, if there is one. -/
def separator (l : Layout) : String :=
  if l.tagged || l.bodyEmpty then "" else "\n"

/-- The text of a step. -/
def text (l : Layout) : SourceStep → String
  | .packageLine name => if name = "" then "" else l.line ("package " ++ name ++ ";") ++ l.line ""
  | .tag text condition =>
      if condition then (if l.depth = 0 then "" else l.separator) ++ l.line text else ""
  | .classHead name generator modifiers =>
      l.line ("@javax.annotation.Generated(\"" ++ generator ++ "\")") ++
        l.line (Modifier.words modifiers ++ "class " ++ name ++ " \x7b")
  | .field type name modifiers =>
      l.line (Modifier.words modifiers ++ type ++ " " ++ name ++ ";")
  | .constructorHead name modifiers =>
      l.separator ++ l.indent ++ Modifier.words modifiers ++ name ++ "("
  | .methodHead returns name modifiers =>
      l.separator ++ l.indent ++ Modifier.words modifiers ++ returns ++ " " ++ name ++ "("
  | .parameter annotations type name modifiers =>
      (if l.parameters = 0 then "" else ", ") ++
        (if annotations = "" then "" else annotations ++ " ") ++
          Modifier.words modifiers ++ type ++ " " ++ name
  | .openBody thrown =>
      if thrown = [] then ") \x7b\n" else ") throws " ++ ", ".intercalate thrown ++ " \x7b\n"
  | .fieldAssignment field value => l.line ("this." ++ field ++ " = " ++ value ++ ";")
  | .returnKeyword => l.indent ++ "return "
  | .newInstance type arguments => "new " ++ type ++ "(" ++ ", ".intercalate arguments ++ ")"
  | .endStatement => ";\n"
  | .closeBlock => { l with depth := l.depth - 1 }.line "\x7d"

/-- The layout behind a step. -/
def next (l : Layout) : SourceStep → Layout
  | .packageLine _ => l
  | .tag _ condition => if condition then { l with tagged := true, bodyEmpty := false } else l
  | .classHead _ _ _ => { l with depth := l.depth + 1, tagged := false, bodyEmpty := true }
  | .field _ _ _ => { l with bodyEmpty := false }
  | .constructorHead _ _ => { l with parameters := 0, tagged := false, bodyEmpty := false }
  | .methodHead _ _ _ => { l with parameters := 0, tagged := false, bodyEmpty := false }
  | .parameter _ _ _ _ => { l with parameters := l.parameters + 1 }
  | .openBody _ => { l with depth := l.depth + 1, parameters := 0 }
  | .fieldAssignment _ _ => l
  | .returnKeyword => l
  | .newInstance _ _ => l
  | .endStatement => l
  | .closeBlock => { l with depth := l.depth - 1 }

/-- The text of several steps. -/
def textAll (l : Layout) : List SourceStep → String
  | [] => ""
  | step :: steps => l.text step ++ (l.next step).textAll steps

/-- The layout behind several steps. -/
def nextAll (l : Layout) (steps : List SourceStep) : Layout :=
  steps.foldl next l

theorem nextAll_append (l : Layout) (first second : List SourceStep) :
    l.nextAll (first ++ second) = (l.nextAll first).nextAll second := by
  simp [nextAll]

theorem textAll_append (l : Layout) (first second : List SourceStep) :
    l.textAll (first ++ second) = l.textAll first ++ (l.nextAll first).textAll second := by
  induction first generalizing l with
  | nil => simp [textAll, nextAll]
  | cons step first ih =>
      rw [List.cons_append, textAll, textAll, ih, String.append_assoc]
      rfl

end Layout

end CompanionFactory
