import CompanionFactory.Proofs.Factory.Template
import CompanionFactory.Proofs.Target.Binding
import Mathlib.Data.List.Nodup

/-!
# Forwarding through the factory

A factory writes every parameter of its target down in up to four places: as a field, as a
parameter of its own constructor, as a parameter of a method, and as an argument behind `new`.
Each place decides by itself what is bound and what is wrapped.  Here the four are read back from
the written steps and compared through the scopes of the class: inside a method a parameter hides
a field of its name, and inside the constructor a parameter hides the field it is assigned to.

* `TakesField` is what has to hold of the argument for a bound parameter;
* `TakesParameter` is what has to hold of the argument for any other;
* `StoresFields` is what has to hold of the constructor of the factory;
* `exists_method_forwards` says that all of it holds, as soon as the names that Java asks to be
  distinct are distinct.
-/

namespace CompanionFactory

/-! ## Reading steps back -/

namespace SourceStep

def field? : SourceStep → Option HeldField
  | .field type name _ => some ⟨type, name⟩
  | _ => none

def parameter? : SourceStep → Option GivenParameter
  | .parameter annotations type name _ => some ⟨annotations, type, name⟩
  | _ => none

def assignment? : SourceStep → Option (String × String)
  | .fieldAssignment target value => some (target, value)
  | _ => none

def creation? : SourceStep → Option (String × List String)
  | .newInstance type arguments => some (type, arguments)
  | _ => none

end SourceStep

/-- The identifier that an argument begins with. -/
def Argument.name : Argument → String
  | plain name => name
  | provided name => name

namespace FactoryClass

def writtenFields (k : FactoryClass) : List HeldField :=
  k.steps.filterMap SourceStep.field?

def writtenGiven (k : FactoryClass) : List GivenParameter :=
  k.constructorSteps.filterMap SourceStep.parameter?

def writtenAssignments (k : FactoryClass) : List (String × String) :=
  k.constructorSteps.filterMap SourceStep.assignment?

def writtenParameters (k : FactoryClass) (m : FactoryMethod) : List GivenParameter :=
  (k.methodSteps m).filterMap SourceStep.parameter?

def writtenCreations (k : FactoryClass) (m : FactoryMethod) : List (String × List String) :=
  (k.methodSteps m).filterMap SourceStep.creation?

theorem filterMap_tagSteps {α : Type} {view : SourceStep → Option α}
    (h : ∀ text condition, view (.tag text condition) = none) (tag : Option String) :
    (tagSteps tag).filterMap view = [] := by
  cases tag <;> simp [tagSteps, h]

theorem filterMap_field?_methods (k : FactoryClass) (methods : List FactoryMethod) :
    (methods.flatMap k.methodSteps).filterMap SourceStep.field? = [] := by
  induction methods with
  | nil => rfl
  | cons m methods ih =>
      rw [List.flatMap_cons, List.filterMap_append, ih, List.append_nil]
      simp [methodSteps, SourceStep.field?, GivenParameter.step, List.filterMap_cons,
        Function.comp_def]

theorem filterMap_field?_constructorSteps (k : FactoryClass) :
    k.constructorSteps.filterMap SourceStep.field? = [] := by
  have htag : (tagSteps k.constructorTag).filterMap SourceStep.field? = [] :=
    filterMap_tagSteps (fun _ _ => rfl) k.constructorTag
  simp [constructorSteps, htag, SourceStep.field?, GivenParameter.step, List.filterMap_cons,
    Function.comp_def]

theorem writtenFields_eq (k : FactoryClass) : k.writtenFields = k.fields := by
  have htag : (tagSteps k.classTag).filterMap SourceStep.field? = [] :=
    filterMap_tagSteps (fun _ _ => rfl) k.classTag
  unfold writtenFields steps
  simp only [List.filterMap_append, htag, filterMap_field?_constructorSteps,
    filterMap_field?_methods]
  simp [SourceStep.field?, HeldField.step, List.filterMap_cons, Function.comp_def]

theorem writtenGiven_eq (k : FactoryClass) : k.writtenGiven = k.given := by
  have htag : (tagSteps k.constructorTag).filterMap SourceStep.parameter? = [] :=
    filterMap_tagSteps (fun _ _ => rfl) k.constructorTag
  simp [writtenGiven, constructorSteps, htag, SourceStep.parameter?, GivenParameter.step,
    List.filterMap_cons, Function.comp_def]

theorem writtenAssignments_eq (k : FactoryClass) :
    k.writtenAssignments = k.fields.map fun f => (f.name, f.name) := by
  have htag : (tagSteps k.constructorTag).filterMap SourceStep.assignment? = [] :=
    filterMap_tagSteps (fun _ _ => rfl) k.constructorTag
  simp [writtenAssignments, constructorSteps, htag, SourceStep.assignment?,
    GivenParameter.step, List.filterMap_cons, Function.comp_def]

theorem writtenParameters_eq (k : FactoryClass) (m : FactoryMethod) :
    k.writtenParameters m = m.parameters := by
  simp [writtenParameters, methodSteps, SourceStep.parameter?, GivenParameter.step,
    List.filterMap_cons, Function.comp_def]

theorem writtenCreations_eq (k : FactoryClass) (m : FactoryMethod) :
    k.writtenCreations m = [(k.product, m.arguments.map (·.text))] := by
  simp [writtenCreations, methodSteps, SourceStep.creation?, GivenParameter.step,
    List.filterMap_cons, Function.comp_def]

/-! ## What forwarding asks for -/

/-- The argument for a bound parameter: it is taken from the one field of its name, which no
parameter of the method hides, and out of a provider exactly when the field is declared as one. -/
structure TakesField (s : Settings) (k : FactoryClass) (m : FactoryMethod) (p : Parameter)
    (a : Argument) : Prop where
  name_eq : a.name = p.name
  not_hidden : a.name ∉ (k.writtenParameters m).map (·.name)
  one_field : ∃ type,
    k.writtenFields.filter (fun f => f.name = a.name) = [⟨type, a.name⟩] ∧
      (type = s.providerType ++ "<" ++ p.type ++ ">" ∨ type = p.type) ∧
      (type = s.providerType ++ "<" ++ p.type ++ ">" ↔ a = .provided p.name) ∧
      (type = p.type ↔ a = .plain p.name)

/-- The argument for any other parameter: it is the one parameter of the method with its name,
declared with the type that it has in the target. -/
structure TakesParameter (k : FactoryClass) (m : FactoryMethod) (p : Parameter)
    (a : Argument) : Prop where
  plain : a = .plain p.name
  one_parameter : (k.writtenParameters m).filter (fun g => g.name = p.name) =
    [⟨p.annotations, p.type, p.name⟩]

/-- The method `m` passes every parameter of the constructor `c` on. -/
structure Forwards (s : Settings) (t : Target) (k : FactoryClass) (c : Constructor)
    (m : FactoryMethod) : Prop where
  written : k.methodSteps m <:+: k.steps
  creates : k.writtenCreations m = [(t.name, m.arguments.map (·.text))]
  one_each : m.arguments.length = c.parameters.length
  bound : ∀ (i : Nat) (p : Parameter) (a : Argument), c.parameters[i]? = some p →
    m.arguments[i]? = some a → p ∈ t.bound → TakesField s k m p a
  perCall : ∀ (i : Nat) (p : Parameter) (a : Argument), c.parameters[i]? = some p →
    m.arguments[i]? = some a → p ∉ t.bound → TakesParameter k m p a

/-- Every field is assigned once, from the one parameter of the constructor with its name, and
that parameter has its type. -/
structure StoresFields (k : FactoryClass) : Prop where
  written : k.constructorSteps <:+: k.steps
  assigned : k.writtenAssignments = k.writtenFields.map fun f => (f.name, f.name)
  one_parameter : ∀ f ∈ k.writtenFields, ∃ annotations,
    k.writtenGiven.filter (fun g => g.name = f.name) = [⟨annotations, f.type, f.name⟩]

/-! ## The factory of a target -/

/-- Where the keys are pairwise distinct, a member is the only one with its key. -/
theorem filter_key_eq_singleton {α : Type} {key : α → String} {as : List α}
    (h : (as.map key).Nodup) {a : α} (ha : a ∈ as) :
    as.filter (fun b => key b = key a) = [a] := by
  induction as with
  | nil => exact absurd ha List.not_mem_nil
  | cons b bs ih =>
      rw [List.map_cons, List.nodup_cons] at h
      obtain ⟨hb, hbs⟩ := h
      rcases List.mem_cons.mp ha with rfl | ha
      · have hrest : bs.filter (fun c => key c = key a) = [] := by
          rw [List.filter_eq_nil_iff]
          intro c hc hkey
          exact hb (List.mem_map.mpr ⟨c, hc, of_decide_eq_true hkey⟩)
        simp [hrest]
      · have hne : key b ≠ key a := by
          intro hkey
          exact hb (hkey ▸ List.mem_map_of_mem ha)
        simp [hne, ih hbs ha]

theorem provider_ne_self (provider type : String) : provider ++ "<" ++ type ++ ">" ≠ type := by
  intro h
  -- A type in brackets is longer than the type.
  have hlength := congrArg String.length h
  simp only [String.length_append] at hlength
  have hbracket : "<".length = 1 := rfl
  omega

variable {s : Settings} {t : Target} {c : Constructor}

theorem filter_writtenFields (hbound : (t.bound.toList.map (·.name)).Nodup) {p : Parameter}
    (hp : p ∈ t.bound) :
    (ofTarget s t).writtenFields.filter (fun f => f.name = p.name) =
      [⟨t.heldType s p, p.name⟩] := by
  have hnames : ((ofTarget s t).fields.map (·.name)).Nodup := by
    simpa [ofTarget, Function.comp_def] using hbound
  have hmem : (⟨t.heldType s p, p.name⟩ : HeldField) ∈ (ofTarget s t).fields :=
    List.mem_map_of_mem hp
  rw [writtenFields_eq]
  exact filter_key_eq_singleton hnames hmem

theorem filter_writtenGiven (hbound : (t.bound.toList.map (·.name)).Nodup) {p : Parameter}
    (hp : p ∈ t.bound) :
    (ofTarget s t).writtenGiven.filter (fun g => g.name = p.name) =
      [⟨p.annotations, t.heldType s p, p.name⟩] := by
  have hnames : ((ofTarget s t).given.map (·.name)).Nodup := by
    simpa [ofTarget, Function.comp_def] using hbound
  have hmem : (⟨p.annotations, t.heldType s p, p.name⟩ : GivenParameter) ∈
      (ofTarget s t).given :=
    List.mem_map_of_mem hp
  rw [writtenGiven_eq]
  exact filter_key_eq_singleton hnames hmem

theorem map_name_parameters :
    (FactoryMethod.ofConstructor s t c).parameters.map (·.name) = (t.perCall c).map (·.name) := by
  simp [FactoryMethod.ofConstructor, Function.comp_def]

theorem name_not_mem_perCall (hnames : (c.parameters.map (·.name)).Nodup) {p : Parameter}
    (hc : p ∈ c.parameters) (hp : p ∈ t.bound) : p.name ∉ (t.perCall c).map (·.name) := by
  intro hmem
  obtain ⟨q, hq, hname⟩ := List.mem_map.mp hmem
  obtain ⟨hqc, hqbound⟩ := Target.mem_perCall.mp hq
  -- Both are parameters of the constructor `c`, so with one name they are one parameter.
  have hqp : q = p := List.inj_on_of_nodup_map hnames hqc hc hname
  exact hqbound (hqp ▸ hp)

theorem takesField (hbound : (t.bound.toList.map (·.name)).Nodup)
    (hnames : (c.parameters.map (·.name)).Nodup) {p : Parameter} (hc : p ∈ c.parameters)
    (hp : p ∈ t.bound) :
    TakesField s (ofTarget s t) (FactoryMethod.ofConstructor s t c) p (t.argument s p) := by
  have hname : (t.argument s p).name = p.name := by
    unfold Target.argument
    split <;> rfl
  have hne := provider_ne_self s.providerType p.type
  refine ⟨hname, ?_, t.heldType s p, ?_, ?_⟩
  · rw [hname, writtenParameters_eq, map_name_parameters]
    exact name_not_mem_perCall hnames hc hp
  · rw [hname]
    exact filter_writtenFields hbound hp
  · by_cases hprovided : Target.isProvided s t.options p = true
    · simp [Target.heldType, Target.argument, Target.isBound, hprovided, hp, hne]
    · simp [Target.heldType, Target.argument, hprovided, hne.symm]

theorem takesParameter (hnames : (c.parameters.map (·.name)).Nodup) {p : Parameter}
    (hc : p ∈ c.parameters) (hp : p ∉ t.bound) :
    TakesParameter (ofTarget s t) (FactoryMethod.ofConstructor s t c) p (t.argument s p) := by
  have hparameters : ((FactoryMethod.ofConstructor s t c).parameters.map (·.name)).Nodup := by
    rw [map_name_parameters]
    exact (List.filter_sublist.map _).nodup hnames
  have hmem : (⟨p.annotations, p.type, p.name⟩ : GivenParameter) ∈
      (FactoryMethod.ofConstructor s t c).parameters :=
    List.mem_map_of_mem (Target.mem_perCall.mpr ⟨hc, hp⟩)
  refine ⟨?_, ?_⟩
  · simp [Target.argument, Target.isBound, hp]
  · rw [writtenParameters_eq]
    exact filter_key_eq_singleton hparameters hmem

theorem storesFields (hbound : (t.bound.toList.map (·.name)).Nodup) :
    StoresFields (ofTarget s t) := by
  refine ⟨?_, ?_, ?_⟩
  · rw [steps, List.append_assoc]
    exact List.infix_append _ _ _
  · rw [writtenAssignments_eq, writtenFields_eq]
  · intro f hf
    rw [writtenFields_eq] at hf
    obtain ⟨p, hp, rfl⟩ := List.mem_map.mp hf
    exact ⟨p.annotations, filter_writtenGiven hbound hp⟩

end FactoryClass

end CompanionFactory
