import CompanionFactory.Factory.Declaration
import CompanionFactory.Source.Writer

/-!
# The source of a factory class

A factory class is written in steps: package line, tags and class line, fields, constructor,
methods. Written into a sink without a limit it never fails, and what the sink holds is the text
of the steps: `render?_eq` says so.
-/

namespace CompanionFactory

def Argument.text : Argument → String
  | plain name => name
  | provided name => name ++ ".get()"

def GivenParameter.step (p : GivenParameter) : SourceStep :=
  .parameter p.annotations p.type p.name [.final]

def HeldField.step (f : HeldField) : SourceStep :=
  .field f.type f.name [.privateAccess, .final]

/-- A tag that may be missing. -/
def tagSteps : Option String → List SourceStep
  | none => []
  | some text => [.tag text true]

namespace FactoryClass

/-- The constructor, which stores everything it is given. -/
def constructorSteps (c : FactoryClass) : List SourceStep :=
  tagSteps c.constructorTag ++ [.constructorHead c.name [.publicAccess]] ++
    c.given.map (·.step) ++ [.openBody []] ++
    c.fields.map (fun f => .fieldAssignment f.name f.name) ++ [.closeBlock]

/-- A method, which creates the product. -/
def methodSteps (c : FactoryClass) (m : FactoryMethod) : List SourceStep :=
  [.methodHead c.product c.methodName c.methodModifiers] ++ m.parameters.map (·.step) ++
    [.openBody m.thrown, .returnKeyword, .newInstance c.product (m.arguments.map (·.text)),
      .endStatement, .closeBlock]

/-- The whole class. -/
def steps (c : FactoryClass) : List SourceStep :=
  [.packageLine c.package] ++ tagSteps c.classTag ++ [.classHead c.name c.generator c.modifiers] ++
    c.fields.map (·.step) ++ c.constructorSteps ++ c.methods.flatMap c.methodSteps ++ [.closeBlock]

/-- Write the class into a sink without a limit and read the text back. -/
def render? (c : FactoryClass) : Option String :=
  match ({} : SourceWriter).writeAll c.steps with
  | (w, .ok ()) =>
      match w.close with
      | .ok () => Bytes.text? w.sink.held
      | .error _ => none
  | (_, .error _) => none

theorem render?_eq (c : FactoryClass) : c.render? = some (({} : Layout).textAll c.steps) := by
  have h := SourceWriter.writeAll_of_limit_none (w := {}) rfl c.steps
  rw [render?, h]
  simp [SourceWriter.close, Sink.close, Bytes.text?_ofText]

end FactoryClass

end CompanionFactory
