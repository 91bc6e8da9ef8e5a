import CompanionFactory.Factory.Source
import CompanionFactory.Proofs.Annotations.Lexical
import CompanionFactory.Proofs.Source.Brackets
import CompanionFactory.Proofs.Target.Binding

/-!
# The factory source is lexically sound

The source of a factory opens and closes its literals and brackets properly, however many fields,
parameters, arguments and methods there are and whatever texts, characters and numbers stand in the
carried annotations.  Only what is written as it was given must not interfere: names, type texts and
the texts of the settings.

* `balanced_declaration`: a constructor or method closes what its head and its body open;
* `FactoryClass.dueAll?_steps`: so do the steps of any class at all;
* `FactoryClass.sound_steps`: they are sound when the texts of the class are;
* `FactoryClass.sound_ofTarget`: so it is for the factory of an accepted element;
* `FactoryClass.lexicallySound_render?` puts these together.
-/

namespace CompanionFactory

open Text (Inert LexicallySound inert_append)
open SourceStep (Balanced dueAll? dueAll?_append balanced_of_forall balanced_flatMap)

/-! ## Brackets -/

theorem balanced_tagSteps (tag : Option String) : Balanced (tagSteps tag) := by
  cases tag <;> exact fun due => rfl

theorem balanced_map_step (parameters : List GivenParameter) :
    Balanced (parameters.map (·.step)) :=
  balanced_of_forall (List.forall_mem_map.mpr fun _ _ _ => rfl)

/-- A head opens a parenthesis; behind the parameters it turns into the brace of the body. -/
theorem balanced_declaration (head : SourceStep) {parameters body : List SourceStep}
    (hhead : ∀ due, head.due? due = some (')' :: due)) (hparameters : Balanced parameters)
    (thrown : List String) (hbody : Balanced body) :
    Balanced ([head] ++ parameters ++ [.openBody thrown] ++ body ++ [.closeBlock]) := by
  intro due
  have hopened : dueAll? due [head] = some (')' :: due) :=
    Option.bind_eq_some_iff.mpr ⟨_, hhead due, rfl⟩
  have hturned : dueAll? (')' :: due) [.openBody thrown] = some ('\x7d' :: due) := rfl
  have hclosed : dueAll? ('\x7d' :: due) [.closeBlock] = some due := rfl
  simp only [dueAll?_append, hopened, hparameters (')' :: due), hturned, hbody ('\x7d' :: due),
    hclosed, Option.bind_some]

namespace FactoryClass

variable (k : FactoryClass)

theorem balanced_constructorSteps : Balanced k.constructorSteps := by
  have hassignments : Balanced (k.fields.map fun f => .fieldAssignment f.name f.name) :=
    balanced_of_forall (List.forall_mem_map.mpr fun _ _ _ => rfl)
  have hdeclaration := balanced_declaration (.constructorHead k.name [.publicAccess])
    (fun _ => rfl) (balanced_map_step k.given) [] hassignments
  have hsteps := (balanced_tagSteps k.constructorTag).append hdeclaration
  simpa only [constructorSteps, List.append_assoc] using hsteps

theorem balanced_methodSteps (m : FactoryMethod) : Balanced (k.methodSteps m) := by
  have hcreation : Balanced [.returnKeyword, .newInstance k.product (m.arguments.map (·.text)),
      .endStatement] := fun _ => rfl
  have hdeclaration := balanced_declaration
    (.methodHead k.product k.methodName k.methodModifiers) (fun _ => rfl)
    (balanced_map_step m.parameters) m.thrown hcreation
  simpa [methodSteps] using hdeclaration

/-- Every class closes what it opens. -/
theorem dueAll?_steps : dueAll? [] k.steps = some [] := by
  have htags := balanced_tagSteps k.classTag
  have hfields : Balanced (k.fields.map (·.step)) :=
    balanced_of_forall (List.forall_mem_map.mpr fun _ _ _ => rfl)
  have hmethods : Balanced (k.methods.flatMap k.methodSteps) :=
    balanced_flatMap k.balanced_methodSteps k.methods
  have hpackage : dueAll? [] [.packageLine k.package] = some [] := rfl
  have hhead : dueAll? [] [.classHead k.name k.generator k.modifiers] = some ['\x7d'] := rfl
  have hclose : dueAll? ['\x7d'] [.closeBlock] = some [] := rfl
  simp only [steps, dueAll?_append, hpackage, htags [], hhead, hfields ['\x7d'],
    k.balanced_constructorSteps ['\x7d'], hmethods ['\x7d'], hclose, Option.bind_some]

end FactoryClass

/-! ## Texts -/

structure Parameter.Sound (q : Parameter) : Prop where
  type : LexicallySound q.type
  name : LexicallySound q.name
  annotations : LexicallySound q.annotations

structure GivenParameter.Sound (p : GivenParameter) : Prop where
  annotations : LexicallySound p.annotations
  type : LexicallySound p.type
  name : LexicallySound p.name

structure FactoryMethod.Sound (m : FactoryMethod) : Prop where
  parameters : ∀ p ∈ m.parameters, p.Sound
  thrown : ∀ type ∈ m.thrown, LexicallySound type
  arguments : ∀ a ∈ m.arguments, LexicallySound a.text

/-- All texts of the class are sound, and the one written between quotes is inert. -/
structure FactoryClass.Sound (k : FactoryClass) : Prop where
  package : LexicallySound k.package
  name : LexicallySound k.name
  generator : Inert k.generator
  classTag : ∀ tag ∈ k.classTag, LexicallySound tag
  constructorTag : ∀ tag ∈ k.constructorTag, LexicallySound tag
  fields : ∀ f ∈ k.fields, LexicallySound f.type ∧ LexicallySound f.name
  given : ∀ p ∈ k.given, p.Sound
  product : LexicallySound k.product
  methodName : LexicallySound k.methodName
  methods : ∀ m ∈ k.methods, m.Sound

theorem sound_tagSteps {tag : Option String} (h : ∀ text ∈ tag, LexicallySound text) :
    ∀ step ∈ tagSteps tag, step.Sound := by
  cases tag with
  | none => simp [tagSteps]
  | some text => simpa [tagSteps, SourceStep.Sound] using h

theorem sound_map_step {parameters : List GivenParameter} (h : ∀ p ∈ parameters, p.Sound) :
    ∀ step ∈ parameters.map (·.step), step.Sound :=
  List.forall_mem_map.mpr fun p hp => ⟨(h p hp).annotations, (h p hp).type, (h p hp).name⟩

namespace FactoryClass

variable {k : FactoryClass}

theorem sound_constructorSteps (h : k.Sound) : ∀ step ∈ k.constructorSteps, step.Sound := by
  have hassignments : ∀ step ∈ k.fields.map fun f => SourceStep.fieldAssignment f.name f.name,
      step.Sound :=
    List.forall_mem_map.mpr fun f hf => ⟨(h.fields f hf).2, (h.fields f hf).2⟩
  simp only [constructorSteps, List.forall_mem_append, List.forall_mem_singleton]
  exact ⟨⟨⟨⟨⟨sound_tagSteps h.constructorTag, h.name⟩, sound_map_step h.given⟩,
    fun _ hnone => absurd hnone List.not_mem_nil⟩, hassignments⟩, trivial⟩

theorem sound_methodSteps (h : k.Sound) {m : FactoryMethod} (hm : m.Sound) :
    ∀ step ∈ k.methodSteps m, step.Sound := by
  have harguments : ∀ argument ∈ m.arguments.map (·.text), LexicallySound argument :=
    List.forall_mem_map.mpr hm.arguments
  simp only [methodSteps, List.forall_mem_append, List.forall_mem_cons]
  exact ⟨⟨⟨⟨h.product, h.methodName⟩, by simp⟩, sound_map_step hm.parameters⟩, hm.thrown, trivial,
    ⟨h.product, harguments⟩, trivial, trivial, by simp⟩

theorem sound_steps (h : k.Sound) : ∀ step ∈ k.steps, step.Sound := by
  have hfields : ∀ step ∈ k.fields.map (·.step), step.Sound := List.forall_mem_map.mpr h.fields
  have hmethods : ∀ step ∈ k.methods.flatMap k.methodSteps, step.Sound := by
    intro step hstep
    obtain ⟨m, hm, hmem⟩ := List.mem_flatMap.mp hstep
    exact sound_methodSteps h (h.methods m hm) step hmem
  simp only [steps, List.forall_mem_append, List.forall_mem_singleton]
  exact ⟨⟨⟨⟨⟨⟨h.package, sound_tagSteps h.classTag⟩, ⟨h.name, h.generator⟩⟩, hfields⟩,
    sound_constructorSteps h⟩, hmethods⟩, trivial⟩

end FactoryClass

/-! ## The factory of an element -/

/-- Nothing that is written into the factory of `e` as it was given has a quote, a backslash, a line
break or a bracket in it. -/
structure Target.InertTexts (s : Settings) (e : Element) (t : Target) : Prop where
  generator : Inert s.generator
  providerType : Inert s.providerType
  singletonTag : Inert s.singletonTag
  injectTag : Inert s.injectTag
  package : Inert t.package
  name : Inert t.name
  givenName : Inert t.options.name
  parameterNames : ∀ p ∈ e.constructorParameters, Inert p.simpleName
  parameterTypes : ∀ p ∈ e.constructorParameters, ∀ type ∈ p.type, Inert type.source
  annotationNames : ∀ p ∈ e.constructorParameters, ∀ use ∈ p.carried s, ∀ name ∈ use.names,
    Inert name
  thrown : ∀ k ∈ e.constructors, ∀ type ∈ k.thrown, Inert type.source

theorem Target.lexicallySound_argument {s : Settings} {t : Target} {q : Parameter}
    (hname : LexicallySound q.name) : LexicallySound (t.argument s q).text := by
  unfold Target.argument
  split
  · exact hname.append (by decide)
  · exact hname

namespace Target.InertTexts

variable {s : Settings} {e : Element} {t : Target}

theorem inert_factoryName (h : InertTexts s e t) : Inert t.factoryName := by
  unfold Target.factoryName TargetOptions.factoryName
  split
  · exact inert_append.mpr ⟨h.name, by decide⟩
  · exact h.givenName

theorem inert_methodName (h : InertTexts s e t) : Inert t.methodName :=
  inert_append.mpr ⟨by decide, h.name⟩

theorem sound_ofElement (h : InertTexts s e t) {p : Element}
    (hp : p ∈ e.constructorParameters) : (Parameter.ofElement s p).Sound := by
  have htype : LexicallySound (Parameter.ofElement s p).type := by
    have hknown := h.parameterTypes p hp
    rw [Parameter.ofElement]
    cases htype : p.type with
    | none => exact rfl
    | some type => exact (hknown type htype).lexicallySound
  exact ⟨htype, (h.parameterNames p hp).lexicallySound,
    Element.lexicallySound_carriedAnnotations (h.annotationNames p hp)⟩

theorem sound_of_mem_bound (h : InertTexts s e t) (hread : ofElement s e = .ok t) {q : Parameter}
    (hq : q ∈ t.bound) : q.Sound := by
  obtain ⟨p, hp, -, rfl⟩ := (mem_bound_iff hread).mp hq
  exact h.sound_ofElement hp

theorem lexicallySound_heldType (h : InertTexts s e t) {q : Parameter}
    (hq : LexicallySound q.type) : LexicallySound (t.heldType s q) := by
  unfold Target.heldType
  split
  · exact ((h.providerType.lexicallySound.append (by decide)).append hq).append (by decide)
  · exact hq

theorem sound_ofConstructor (h : InertTexts s e t) {k : Element} (hk : k ∈ e.constructors) :
    (FactoryMethod.ofConstructor s t (Constructor.ofElement s k)).Sound := by
  have hparameter : ∀ q ∈ (Constructor.ofElement s k).parameters, q.Sound :=
    List.forall_mem_map.mpr fun p hp => h.sound_ofElement (List.mem_flatMap.mpr ⟨k, hk, hp⟩)
  refine ⟨?_, ?_, ?_⟩
  · refine List.forall_mem_map.mpr fun q hq => ?_
    obtain ⟨htype, hname, hannotations⟩ := hparameter q (List.mem_of_mem_filter hq)
    exact ⟨hannotations, htype, hname⟩
  · exact List.forall_mem_map.mpr fun type htype => (h.thrown k hk type htype).lexicallySound
  · exact List.forall_mem_map.mpr fun q hq => lexicallySound_argument (hparameter q hq).name

end Target.InertTexts

namespace FactoryClass

variable {s : Settings} {e : Element} {t : Target}

theorem sound_ofTarget (hread : Target.ofElement s e = .ok t) (h : Target.InertTexts s e t) :
    (ofTarget s t).Sound := by
  have hbound : ∀ q ∈ t.bound.toList, q.Sound :=
    fun q hq => h.sound_of_mem_bound hread (OrderedSet.mem_toList.mp hq)
  have hconstructors : ∀ c ∈ t.constructors, (FactoryMethod.ofConstructor s t c).Sound := by
    obtain ⟨package, options, -, -, rfl⟩ := Target.ofElement_eq_ok_iff.mp hread
    exact List.forall_mem_map.mpr fun k hk => h.sound_ofConstructor hk
  exact
    { package := h.package.lexicallySound
      name := h.inert_factoryName.lexicallySound
      generator := h.generator
      classTag := by
        intro tag htag
        have hsingleton : tag = s.singletonTag := by
          cases hon : t.options.singleton <;> simp_all [ofTarget]
        exact hsingleton ▸ h.singletonTag.lexicallySound
      constructorTag := by
        intro tag htag
        have hinject : tag = s.injectTag := by
          cases hon : t.options.inject <;> simp_all [ofTarget]
        exact hinject ▸ h.injectTag.lexicallySound
      fields := List.forall_mem_map.mpr fun q hq =>
        ⟨h.lexicallySound_heldType (hbound q hq).type, (hbound q hq).name⟩
      given := List.forall_mem_map.mpr fun q hq =>
        ⟨(hbound q hq).annotations, h.lexicallySound_heldType (hbound q hq).type,
          (hbound q hq).name⟩
      product := h.name.lexicallySound
      methodName := h.inert_methodName.lexicallySound
      methods := List.forall_mem_map.mpr hconstructors }

/-- The source of a factory, scanned from left to right, has no line break inside a literal, leaves
no literal open, and closes every bracket outside literals by its partner and in the right order. -/
theorem lexicallySound_render? (hread : Target.ofElement s e = .ok t)
    (h : Target.InertTexts s e t) :
    ∃ text, (ofTarget s t).render? = some text ∧ LexicallySound text :=
  ⟨_, render?_eq _, ({} : Layout).scans_textAll (sound_steps (sound_ofTarget hread h))
    (ofTarget s t).dueAll?_steps⟩

end FactoryClass

/-- A class with an annotated parameter, whose texts and characters hold brackets, quotes, a
backslash and a line break. -/
def Element.trickilyAnnotated : Element :=
  let tricky : AnnotationValue :=
    .array [.text "\x7b(\n\"\\", .char '\'', .char ')', .double ⟨0x3FF8000000000000⟩]
  let target := withAnnotation (classIn "net" "Client")
    ⟨"factoria.annotations.Factory", [⟨"providers", .flag true⟩, ⟨"inject", .flag true⟩]⟩
  target.withMember
    (((constructor.withParameter (richlyAnnotated tricky)).withParameter
      (parameter "ports" ⟨.declared, "List<Integer>"⟩)).withThrown ⟨.declared, "Refused"⟩)

theorem FactoryClass.lexicallySound_render?_tricky :
    ∃ t, Target.ofElement {} Element.trickilyAnnotated = .ok t ∧
      Target.InertTexts {} Element.trickilyAnnotated t ∧
      ∃ text, (ofTarget {} t).render? = some text ∧ LexicallySound text := by
  obtain ⟨t, hread⟩ : ∃ t, Target.ofElement {} Element.trickilyAnnotated = .ok t := ⟨_, rfl⟩
  have hinert : Target.InertTexts {} Element.trickilyAnnotated t := by
    obtain rfl := Except.ok.inj hread
    exact
      { generator := by decide
        providerType := by decide
        singletonTag := by decide
        injectTag := by decide
        package := by decide
        name := by decide
        givenName := by decide
        parameterNames := by decide
        parameterTypes := by decide
        annotationNames := by decide
        thrown := by decide }
  exact ⟨t, hread, hinert, lexicallySound_render? hread hinert⟩

end CompanionFactory
