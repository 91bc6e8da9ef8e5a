import CompanionFactory.File.Sink
import CompanionFactory.Source.Layout

/-!
# Writing source into a sink

A writer carries a layout and a sink.  A step is not written in one go.  It hands its text to the
sink piece by piece, and moves the layout on at fixed places in between.  The first piece that does
not fit ends the step.  What was handed over before it stays in the sink, and the layout stays what
it was at that place, which need not be the layout before the step nor the one behind it.

* `Layout.actions` lists the pieces of a step and the changes of the layout between them;
* `Layout.pieces_actions` and `Layout.layoutBehind_actions` say that together they are the text of
  the step and the layout behind it;
* `SourceWriter.sink_write`, `SourceWriter.answer_write` and `SourceWriter.layout_write` are all
  that has to be known about writing one step.
-/

namespace CompanionFactory

/-- What a writer does on its way through a step. -/
inductive WriterAction
  /-- Hand a piece of text to the sink. -/
  | put (piece : String)
  /-- Move on to another layout. -/
  | settle (layout : Layout)
  deriving DecidableEq, Repr

namespace WriterAction

/-- All pieces, one behind the other. -/
def pieces : List WriterAction → String
  | [] => ""
  | put piece :: actions => piece ++ pieces actions
  | settle _ :: actions => pieces actions

/-- The layout behind all actions. -/
def layoutBehind (l : Layout) : List WriterAction → Layout
  | [] => l
  | put _ :: actions => layoutBehind l actions
  | settle l' :: actions => layoutBehind l' actions

theorem pieces_append (first second : List WriterAction) :
    pieces (first ++ second) = pieces first ++ pieces second := by
  induction first with
  | nil => simp [pieces]
  | cons action first ih => cases action <;> simp [pieces, ih, String.append_assoc]

theorem layoutBehind_append (l : Layout) (first second : List WriterAction) :
    layoutBehind l (first ++ second) = layoutBehind (layoutBehind l first) second := by
  induction first generalizing l with
  | nil => rfl
  | cons action first ih => cases action <;> simp [layoutBehind, ih]

end WriterAction

open WriterAction (pieces layoutBehind)

namespace Layout

/-! ## The actions of a step -/

/-- Every level is a piece of its own. -/
def putIndent (l : Layout) : List WriterAction :=
  List.replicate l.depth (.put "    ")

def putLine (l : Layout) (text : String) : List WriterAction :=
  (if text = "" then [] else l.putIndent ++ [.put text]) ++ [.put "\n"]

def putSeparator (l : Layout) : List WriterAction :=
  if l.tagged || l.bodyEmpty then [] else [.put "\n"]

/-- A constructor or method up to its opening parenthesis.  Its tags are settled behind the blank
line, and its parameters are counted from behind the parenthesis. -/
def putHead (l : Layout) (head : String) : List WriterAction :=
  l.putSeparator ++ .settle { l with tagged := false, bodyEmpty := false } :: l.putIndent ++
    [.put head, .settle { l with parameters := 0, tagged := false, bodyEmpty := false }]

/-- What writing a step consists of. -/
def actions (l : Layout) (step : SourceStep) : List WriterAction :=
  match step with
  | .packageLine name =>
      if name = "" then [] else l.putLine ("package " ++ name ++ ";") ++ l.putLine ""
  | .tag text condition =>
      if condition then
        (if l.depth = 0 then [] else l.putSeparator) ++ l.putLine text ++ [.settle (l.next step)]
      else []
  | .classHead name generator modifiers =>
      l.putLine ("@javax.annotation.Generated(\"" ++ generator ++ "\")") ++
        l.putLine (Modifier.words modifiers ++ "class " ++ name ++ " \x7b") ++
          [.settle (l.next step)]
  | .field type name modifiers =>
      l.putLine (Modifier.words modifiers ++ type ++ " " ++ name ++ ";") ++ [.settle (l.next step)]
  | .constructorHead name modifiers => l.putHead (Modifier.words modifiers ++ name ++ "(")
  | .methodHead returns name modifiers =>
      l.putHead (Modifier.words modifiers ++ returns ++ " " ++ name ++ "(")
  | .parameter annotations type name modifiers =>
      (if l.parameters = 0 then [] else [.put ", "]) ++
        (if annotations = "" then [] else [.put annotations, .put " "]) ++
          [.put (Modifier.words modifiers), .put type, .put " ", .put name, .settle (l.next step)]
  | .openBody thrown =>
      (if thrown = [] then [.put ") \x7b\n"]
        else [.put ") throws ", .put (", ".intercalate thrown), .put " \x7b\n"]) ++
          [.settle (l.next step)]
  | .fieldAssignment field value => l.putLine ("this." ++ field ++ " = " ++ value ++ ";")
  | .returnKeyword => l.putIndent ++ [.put "return "]
  | .newInstance type arguments =>
      [.put "new ", .put type, .put "(", .put (", ".intercalate arguments), .put ")"]
  | .endStatement => [.put ";\n"]
  -- The depth goes down first, since the brace stands on the level of the block's own line.
  | .closeBlock => .settle (l.next step) :: (l.next step).putLine "\x7d"

theorem pieces_putIndent (l : Layout) : pieces l.putIndent = l.indent := by
  have hpieces (depth : Nat) : (pieces (List.replicate depth (.put "    "))).toList =
      List.replicate (4 * depth) ' ' := by
    induction depth with
    | zero => rfl
    | succ depth ih =>
        rw [List.replicate_succ, pieces, String.toList_append, ih, Nat.mul_succ, Nat.add_comm,
          ← List.replicate_append_replicate]
        rfl
  apply String.toList_injective
  rw [putIndent, hpieces, indent, String.toList_ofList]

theorem layoutBehind_putIndent (l l' : Layout) : layoutBehind l l'.putIndent = l := by
  have hlayout (depth : Nat) : layoutBehind l (List.replicate depth (.put "    ")) = l := by
    induction depth with
    | zero => rfl
    | succ depth ih => exact ih
  exact hlayout l'.depth

theorem pieces_putLine (l : Layout) (text : String) : pieces (l.putLine text) = l.line text := by
  by_cases htext : text = "" <;>
    simp [putLine, line, htext, WriterAction.pieces_append, pieces_putIndent, pieces,
      String.append_assoc]

theorem layoutBehind_putLine (l l' : Layout) (text : String) :
    layoutBehind l (l'.putLine text) = l := by
  by_cases htext : text = "" <;>
    simp [putLine, htext, WriterAction.layoutBehind_append, layoutBehind_putIndent, layoutBehind]

theorem pieces_putSeparator (l : Layout) : pieces l.putSeparator = l.separator := by
  unfold putSeparator separator
  split <;> simp [pieces]

theorem pieces_putHead (l : Layout) (head : String) :
    pieces (l.putHead head) = l.separator ++ l.indent ++ head := by
  simp [putHead, WriterAction.pieces_append, pieces, pieces_putSeparator, pieces_putIndent,
    String.append_assoc]

theorem layoutBehind_putHead (l : Layout) (head : String) :
    layoutBehind l (l.putHead head) =
      { l with parameters := 0, tagged := false, bodyEmpty := false } := by
  simp [putHead, WriterAction.layoutBehind_append, layoutBehind]

/-- The pieces of a step make up its text. -/
theorem pieces_actions (l : Layout) (step : SourceStep) :
    pieces (l.actions step) = l.text step := by
  cases step with
  | packageLine name =>
      by_cases hname : name = "" <;>
        simp [actions, text, hname, pieces, WriterAction.pieces_append, pieces_putLine]
  | tag content condition =>
      by_cases hdepth : l.depth = 0 <;> cases condition <;>
        simp [actions, text, hdepth, pieces, WriterAction.pieces_append, pieces_putLine,
          pieces_putSeparator]
  | parameter annotations type name modifiers =>
      by_cases hcount : l.parameters = 0 <;> by_cases hempty : annotations = "" <;>
        simp [actions, text, hcount, hempty, pieces, String.append_assoc]
  | openBody thrown =>
      by_cases hthrown : thrown = [] <;>
        simp [actions, text, hthrown, pieces, String.append_assoc]
  | closeBlock => simp [actions, text, pieces, pieces_putLine, next]
  | classHead | field | constructorHead | methodHead | fieldAssignment | returnKeyword
  | newInstance | endStatement =>
      simp [actions, text, pieces, WriterAction.pieces_append, pieces_putLine, pieces_putHead,
        pieces_putIndent, String.append_assoc]

/-- The actions of a step lead to the layout behind it. -/
theorem layoutBehind_actions (l : Layout) (step : SourceStep) :
    layoutBehind l (l.actions step) = l.next step := by
  cases step with
  | packageLine name =>
      by_cases hname : name = "" <;>
        simp [actions, next, hname, layoutBehind, WriterAction.layoutBehind_append,
          layoutBehind_putLine]
  | tag content condition =>
      cases condition <;>
        simp [actions, next, layoutBehind, WriterAction.layoutBehind_append]
  | classHead | field | constructorHead | methodHead | parameter | openBody | fieldAssignment
  | returnKeyword | newInstance | endStatement | closeBlock =>
      simp [actions, next, layoutBehind, WriterAction.layoutBehind_append, layoutBehind_putLine,
        layoutBehind_putHead, layoutBehind_putIndent]

end Layout

/-- A class source being written into a sink. -/
structure SourceWriter where
  layout : Layout := {}
  sink : Sink := {}
  deriving DecidableEq, Repr

namespace SourceWriter

/-- Go through actions up to the first piece that does not fit. -/
def perform (w : SourceWriter) : List WriterAction → SourceWriter × Except FileFault Unit
  | [] => (w, .ok ())
  | .settle l :: actions => perform { w with layout := l } actions
  | .put piece :: actions =>
      match w.sink.write (Bytes.ofText piece) with
      | (sink, .ok ()) => perform { w with sink := sink } actions
      | (sink, .error fault) => ({ w with sink := sink }, .error fault)

/-- Write one step. -/
def write (w : SourceWriter) (step : SourceStep) : SourceWriter × Except FileFault Unit :=
  w.perform (w.layout.actions step)

/-- Write several steps up to the first one that fails. -/
def writeAll (w : SourceWriter) : List SourceStep → SourceWriter × Except FileFault Unit
  | [] => (w, .ok ())
  | step :: steps =>
      match w.write step with
      | (w', .ok ()) => w'.writeAll steps
      | (w', .error fault) => (w', .error fault)

/-- Flush and give up the sink. -/
def close (w : SourceWriter) : Except FileFault Unit :=
  w.sink.close

/-- In pieces, actions do to the sink what their whole text does at once. -/
theorem perform_spec (w : SourceWriter) (actions : List WriterAction) :
    (w.perform actions).1.sink = (w.sink.write (Bytes.ofText (pieces actions))).1 ∧
    (w.perform actions).2 = (w.sink.write (Bytes.ofText (pieces actions))).2 ∧
    ((w.perform actions).2 = .ok () →
      (w.perform actions).1.layout = layoutBehind w.layout actions) := by
  induction actions generalizing w with
  | nil =>
      have hempty : Bytes.ofText "" = [] := rfl
      simp [perform, pieces, layoutBehind, hempty, Sink.write_nil]
  | cons action actions ih =>
      cases action with
      | settle l => exact ih { w with layout := l }
      | put piece =>
          rw [pieces, Bytes.ofText_append]
          cases hpiece : w.sink.write (Bytes.ofText piece) with
          | mk sink answer =>
              cases answer with
              | ok =>
                  rw [Sink.write_append_of_ok (by rw [hpiece]), perform, hpiece]
                  exact ih { w with sink := sink }
              | error fault =>
                  rw [Sink.write_append_of_error (by simp [hpiece]), perform, hpiece]
                  simp

section Write

variable (w : SourceWriter) (step : SourceStep)

theorem sink_write :
    (w.write step).1.sink = (w.sink.write (Bytes.ofText (w.layout.text step))).1 := by
  rw [← Layout.pieces_actions]
  exact (w.perform_spec _).1

theorem answer_write :
    (w.write step).2 = (w.sink.write (Bytes.ofText (w.layout.text step))).2 := by
  rw [← Layout.pieces_actions]
  exact (w.perform_spec _).2.1

theorem layout_write (h : (w.write step).2 = .ok ()) :
    (w.write step).1.layout = w.layout.next step := by
  rw [← Layout.layoutBehind_actions]
  exact (w.perform_spec _).2.2 h

end Write

/-- Several steps do to the sink what their whole text does at once, up to the first failure. -/
theorem writeAll_spec (w : SourceWriter) (steps : List SourceStep) :
    (w.writeAll steps).1.sink = (w.sink.write (Bytes.ofText (w.layout.textAll steps))).1 ∧
    (w.writeAll steps).2 = (w.sink.write (Bytes.ofText (w.layout.textAll steps))).2 ∧
    ((w.writeAll steps).2 = .ok () →
      (w.writeAll steps).1.layout = w.layout.nextAll steps) := by
  induction steps generalizing w with
  | nil =>
      have hempty : Bytes.ofText "" = [] := rfl
      simp [writeAll, Layout.textAll, Layout.nextAll, hempty, Sink.write_nil]
  | cons step steps ih =>
      have hsink := w.sink_write step
      have hanswer := w.answer_write step
      rw [Layout.textAll, Bytes.ofText_append]
      cases hwrite : w.write step with
      | mk w' answer =>
          rw [hwrite] at hsink hanswer
          cases answer with
          | ok =>
              have hlayout : w'.layout = w.layout.next step := by
                rw [← w.layout_write step (by rw [hwrite]), hwrite]
              rw [Sink.write_append_of_ok hanswer.symm, writeAll, hwrite, ← hsink, ← hlayout,
                show w.layout.nextAll (step :: steps) = (w.layout.next step).nextAll steps from rfl,
                ← hlayout]
              exact ih w'
          | error fault =>
              rw [Sink.write_append_of_error (by simp [← hanswer]), writeAll, hwrite]
              refine ⟨hsink, hanswer, fun hnone => ?_⟩
              cases hnone

/-- Into a sink without a limit every step is written, one text behind the other. -/
theorem writeAll_of_limit_none {w : SourceWriter} (h : w.sink.limit = none)
    (steps : List SourceStep) :
    w.writeAll steps =
      (⟨w.layout.nextAll steps,
          { w.sink with held := w.sink.held ++ Bytes.ofText (w.layout.textAll steps) }⟩,
        .ok ()) := by
  obtain ⟨hsink, hanswer, hlayout⟩ := w.writeAll_spec steps
  rw [Sink.write_of_limit_none h] at hsink hanswer
  rw [← hlayout hanswer]
  exact Prod.ext (congrArg (SourceWriter.mk _) hsink) hanswer

end SourceWriter

end CompanionFactory
