import CompanionFactory.Proofs.Source.Members

/-!
# The factory source as a template

The source of a factory, written down once more as a text that depends on the target and the
settings and on nothing else.  No part of it asks what was written before: where a blank line or
a separator stands is decided by the target alone.

* `Target.template` is that text, for any target: its package may be empty, its bound parameters
  and constructors may be any lists, and nothing has to have been read from an element.
* `render?_eq_template` says that writing the factory always succeeds and gives this text.
-/

namespace CompanionFactory

namespace Target

/-! ## The template -/

/-- Whether a bound parameter is wrapped in a provider: only under the option, and neither when
it is a provider already nor when it carries annotations. -/
def Wraps (s : Settings) (t : Target) (p : Parameter) : Prop :=
  t.options.providers = true ∧ ¬ s.providerType.toList <+: p.type.toList ∧ p.annotations = ""

instance (s : Settings) (t : Target) (p : Parameter) : Decidable (Wraps s t p) :=
  inferInstanceAs (Decidable (_ ∧ _ ∧ _))

def wrappedType (s : Settings) (t : Target) (p : Parameter) : String :=
  if Wraps s t p then s.providerType ++ "<" ++ p.type ++ ">" else p.type

/-- A parameter declared with the given type: optional annotations, `final`, type and name. -/
def declaration (p : Parameter) (type : String) : String :=
  (if p.annotations = "" then "" else p.annotations ++ " ") ++ "final " ++ type ++ " " ++ p.name

def packageText (t : Target) : String :=
  if t.package = "" then "" else sourceLine 0 ("package " ++ t.package ++ ";") ++ "\n"

def classText (s : Settings) (t : Target) : String :=
  (if t.options.singleton then sourceLine 0 s.singletonTag else "") ++
    sourceLine 0 ("@javax.annotation.Generated(\"" ++ s.generator ++ "\")") ++
    sourceLine 0 (Modifier.words t.options.modifiers ++ "class " ++ t.factoryName ++ " \x7b")

def fieldText (s : Settings) (t : Target) (p : Parameter) : String :=
  sourceLine 4 ("private final " ++ wrappedType s t p ++ " " ++ p.name ++ ";")

def constructorText (s : Settings) (t : Target) : String :=
  (if t.options.inject then sourceLine 4 s.injectTag else "") ++
    sourceLine 4 ("public " ++ t.factoryName ++ "(" ++
      ", ".intercalate (t.bound.toList.map fun p => declaration p (wrappedType s t p)) ++
      ") \x7b") ++
    String.join (t.bound.toList.map fun p =>
      sourceLine 8 ("this." ++ p.name ++ " = " ++ p.name ++ ";")) ++
    sourceLine 4 "\x7d"

def argumentText (s : Settings) (t : Target) (p : Parameter) : String :=
  if p ∈ t.bound ∧ Wraps s t p then p.name ++ ".get()" else p.name

def methodText (s : Settings) (t : Target) (c : Constructor) : String :=
  sourceLine 4 (Modifier.words t.options.methodModifiers ++ t.name ++ " get" ++ t.name ++ "(" ++
      ", ".intercalate
        ((c.parameters.filter fun p => p ∉ t.bound).map fun p => declaration p p.type) ++
      ")" ++ throwsClause c.thrown ++ " \x7b") ++
    sourceLine 8 ("return new " ++ t.name ++ "(" ++
      ", ".intercalate (c.parameters.map (argumentText s t)) ++ ");") ++
    sourceLine 4 "\x7d"

def template (s : Settings) (t : Target) : String :=
  packageText t ++ classText s t ++
    String.join (t.bound.toList.map (fieldText s t)) ++
    (if t.bound.toList = [] then "" else "\n") ++
    constructorText s t ++
    String.join (t.constructors.map fun c => "\n" ++ methodText s t c) ++
    sourceLine 0 "\x7d"

/-! ## The parts of the class -/

theorem isProvided_iff_wraps (s : Settings) (t : Target) (p : Parameter) :
    isProvided s t.options p = true ↔ Wraps s t p := by
  have hprefix : Text.startsWith p.type s.providerType = false ↔
      ¬ s.providerType.toList <+: p.type.toList := by
    rw [← Text.startsWith_iff, Bool.not_eq_true]
  simp [isProvided, Wraps, ← hprefix, and_assoc]

theorem heldType_eq_wrappedType (s : Settings) (t : Target) (p : Parameter) :
    t.heldType s p = wrappedType s t p := by
  simp only [heldType, wrappedType, isProvided_iff_wraps]

theorem text_argument (s : Settings) (t : Target) (p : Parameter) :
    (t.argument s p).text = argumentText s t p := by
  by_cases hbound : p ∈ t.bound <;> by_cases hwraps : Wraps s t p <;>
    simp [argument, argumentText, Argument.text, isBound, isProvided_iff_wraps, hbound, hwraps]

end Target

open Target

namespace FactoryClass

variable (s : Settings) (t : Target)

theorem textAll_fieldSteps (bodyEmpty : Bool) :
    (Layout.inClass bodyEmpty).textAll ((ofTarget s t).fields.map (·.step)) =
      String.join (t.bound.toList.map (fieldText s t)) := by
  have hfield (p : Parameter) :
      sourceLine 4 ("private final " ++ t.heldType s p ++ " " ++ p.name ++ ";") =
        fieldText s t p := by
    rw [heldType_eq_wrappedType, fieldText]
  rw [Layout.textAll_fields]
  simp [ofTarget, Layout.inClass, hfield, Function.comp_def]

theorem nextAll_fieldSteps :
    (Layout.inClass true).nextAll ((ofTarget s t).fields.map (·.step)) =
      Layout.inClass t.bound.toList.isEmpty := by
  rw [Layout.nextAll_fields]
  simp [ofTarget, Layout.inClass]

theorem map_text_given :
    (ofTarget s t).given.map (·.text) =
      t.bound.toList.map fun p => declaration p (wrappedType s t p) := by
  simp [ofTarget, GivenParameter.text, declaration, heldType_eq_wrappedType, Function.comp_def]

theorem map_text_parameters (c : Constructor) :
    (FactoryMethod.ofConstructor s t c).parameters.map (·.text) =
      (c.parameters.filter fun p => p ∉ t.bound).map fun p => declaration p p.type := by
  simp [FactoryMethod.ofConstructor, perCall, isBound, GivenParameter.text, declaration,
    Function.comp_def]

theorem constructorSteps_eq (k : FactoryClass) :
    k.constructorSteps =
      (tagSteps k.constructorTag ++ [.constructorHead k.name [.publicAccess]]) ++
        ((k.given.map (·.step) ++ [.openBody []]) ++
          (k.fields.map (fun f => .fieldAssignment f.name f.name) ++ [.closeBlock])) := by
  simp [constructorSteps]

/-- The constructor of the factory; the blank line before it is there unless it comes first. -/
theorem textAll_constructorSteps (bodyEmpty : Bool) :
    (Layout.inClass bodyEmpty).textAll (ofTarget s t).constructorSteps =
      (if bodyEmpty then "" else "\n") ++ constructorText s t := by
  let k := ofTarget s t
  have htag : tagLine 4 k.constructorTag =
      if t.options.inject then sourceLine 4 s.injectTag else "" := by
    cases h : t.options.inject <;> simp [k, ofTarget, h, tagLine]
  have hfields : k.fields.map (fun f =>
      sourceLine 8 ("this." ++ f.name ++ " = " ++ f.name ++ ";")) =
        t.bound.toList.map fun p => sourceLine 8 ("this." ++ p.name ++ " = " ++ p.name ++ ";") := by
    simp [k, ofTarget, Function.comp_def]
  show (Layout.inClass bodyEmpty).textAll k.constructorSteps = _
  -- Head, signature, assignments and closing brace, each at the layout the part before it leaves.
  rw [constructorSteps_eq, Layout.textAll_append, Layout.textAll_taggedHead,
    Layout.nextAll_taggedHead, Layout.textAll_append, Layout.textAll_signature,
    Layout.nextAll_signature, Layout.textAll_append, Layout.textAll_assignments,
    Layout.nextAll_assignments, Layout.textAll_closeBlock_inBody, htag]
  show _ ++ (_ ++ (String.join (k.fields.map fun f => sourceLine 8 _) ++ _)) = _
  rw [hfields, map_text_given, constructorText]
  apply String.toList_injective
  simp [sourceLine_of_ne_empty, throwsClause, Modifier.words, Modifier.word, k, ofTarget,
    List.replicate]

theorem nextAll_constructorSteps (k : FactoryClass) (bodyEmpty : Bool) :
    (Layout.inClass bodyEmpty).nextAll k.constructorSteps = Layout.inClass false := by
  rw [constructorSteps_eq, Layout.nextAll_append, Layout.nextAll_taggedHead,
    Layout.nextAll_append, Layout.nextAll_signature, Layout.nextAll_append,
    Layout.nextAll_assignments]
  rfl

theorem methodSteps_eq (k : FactoryClass) (m : FactoryMethod) :
    k.methodSteps m =
      [.methodHead k.product k.methodName k.methodModifiers] ++
        ((m.parameters.map (·.step) ++ [.openBody m.thrown]) ++
          [.returnKeyword, .newInstance k.product (m.arguments.map (·.text)), .endStatement,
            .closeBlock]) := by
  simp [methodSteps]

theorem textAll_methodSteps (c : Constructor) :
    (Layout.inClass false).textAll
        ((ofTarget s t).methodSteps (FactoryMethod.ofConstructor s t c)) =
      "\n" ++ methodText s t c := by
  let k := ofTarget s t
  let m := FactoryMethod.ofConstructor s t c
  have harguments : m.arguments.map (·.text) = c.parameters.map (argumentText s t) := by
    simp [m, FactoryMethod.ofConstructor, text_argument]
  show (Layout.inClass false).textAll (k.methodSteps m) = _
  rw [methodSteps_eq, Layout.textAll_append, Layout.textAll_methodHead,
    Layout.nextAll_methodHead, Layout.textAll_append, Layout.textAll_signature,
    Layout.nextAll_signature, Layout.textAll_creation, map_text_parameters, harguments,
    methodText]
  apply String.toList_injective
  simp [sourceLine_of_ne_empty, List.replicate, k, m, ofTarget, FactoryMethod.ofConstructor,
    Target.methodName]

example :
    methodText {}
      { package := "net"
        name := "Client"
        options := { providers := true }
        bound := OrderedSet.ofList [⟨"String", "host", ""⟩]
        constructors := [] }
      ⟨[⟨"String", "host", ""⟩, ⟨"int", "port", ""⟩], ["Refused"]⟩ =
      "    public Client getClient(final int port) throws Refused \x7b\n" ++
        "        return new Client(host.get(), port);\n" ++
        "    \x7d\n" := by
  decide +kernel

theorem nextAll_methodSteps (k : FactoryClass) (m : FactoryMethod) :
    (Layout.inClass false).nextAll (k.methodSteps m) = Layout.inClass false := by
  rw [methodSteps_eq, Layout.nextAll_append, Layout.nextAll_methodHead, Layout.nextAll_append,
    Layout.nextAll_signature]
  rfl

theorem textAll_methods (constructors : List Constructor) :
    (Layout.inClass false).textAll
        ((constructors.map (FactoryMethod.ofConstructor s t)).flatMap (ofTarget s t).methodSteps) =
      String.join (constructors.map fun c => "\n" ++ methodText s t c) := by
  -- The layout is the same before and behind every method.
  induction constructors with
  | nil => rfl
  | cons c constructors ih =>
      rw [List.map_cons, List.flatMap_cons, Layout.textAll_append, textAll_methodSteps,
        nextAll_methodSteps, ih, List.map_cons, String.join_cons]

theorem nextAll_methods (k : FactoryClass) (methods : List FactoryMethod) :
    (Layout.inClass false).nextAll (methods.flatMap k.methodSteps) = Layout.inClass false := by
  induction methods with
  | nil => rfl
  | cons m methods ih =>
      rw [List.flatMap_cons, Layout.nextAll_append, nextAll_methodSteps, ih]

def headingSteps (k : FactoryClass) : List SourceStep :=
  .packageLine k.package :: (tagSteps k.classTag ++ [.classHead k.name k.generator k.modifiers])

theorem steps_eq (k : FactoryClass) :
    k.steps = k.headingSteps ++ (k.fields.map (·.step) ++ (k.constructorSteps ++
      (k.methods.flatMap k.methodSteps ++ [.closeBlock]))) := by
  simp [steps, headingSteps]

theorem textAll_headingSteps :
    ({} : Layout).textAll (ofTarget s t).headingSteps = packageText t ++ classText s t := by
  apply String.toList_injective
  by_cases hpackage : t.package = "" <;> cases hsingleton : t.options.singleton <;>
    simp [headingSteps, ofTarget, tagSteps, packageText, classText, hpackage, hsingleton,
      Layout.textAll, Layout.text, Layout.next, Layout.line_eq_sourceLine, sourceLine]

theorem nextAll_headingSteps (k : FactoryClass) :
    ({} : Layout).nextAll k.headingSteps = Layout.inClass true := by
  cases htag : k.classTag <;>
    simp [headingSteps, htag, tagSteps, Layout.nextAll, Layout.next, Layout.inClass]

end FactoryClass

end CompanionFactory
