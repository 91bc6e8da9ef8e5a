import CompanionFactory.Proofs.Factory.Forwarding
import CompanionFactory.Proofs.Target.Carried

/-!
# Annotations from the namespace of the markers

The generator's own annotations lie in the namespace of its markers: their types are the namespace,
a dot and something behind it.  What is dropped is told by the text of the namespace alone, and a
type may begin with this text without lying in the namespace.

* `Element.carriedAnnotations_eq_foreign_iff`: when dropping by text drops no annotation of others;
* `FactoryClass.Declares`: the source of a factory holds a parameter with its annotations as they
  were carried, and `declares_of_mem_given`, `declares_of_mem_parameters` find all of them there;
* `FactoryClass.annotations_place_iff` says at every place of an accepted class what is dropped,
  when nothing else is, and that the rest is written;
* `FactoryClass.not_forall_annotations_foreign` is a class with an annotation that is lost.
-/

namespace CompanionFactory

/-! ## The namespace -/

namespace Settings

/-- The type is the namespace of the markers, a dot and at least one more character. -/
def InNamespace (s : Settings) (type : String) : Prop :=
  ∃ rest, rest ≠ "" ∧ type = s.markerNamespace ++ "." ++ rest

theorem inNamespace_iff {s : Settings} {type : String} :
    s.InNamespace type ↔ Text.startsWith type (s.markerNamespace ++ ".") = true ∧
      type ≠ s.markerNamespace ++ "." := by
  rw [Text.startsWith_iff]
  constructor
  · rintro ⟨rest, hrest, rfl⟩
    refine ⟨⟨rest.toList, String.toList_append.symm⟩, fun h => hrest ?_⟩
    exact (String.append_right_inj _).mp (h.trans (String.append_empty).symm)
  · rintro ⟨⟨chars, hchars⟩, hne⟩
    have htype : type = s.markerNamespace ++ "." ++ String.ofList chars := by
      apply String.toList_injective
      rw [String.toList_append, String.toList_ofList, hchars]
    refine ⟨String.ofList chars, fun h => hne ?_, htype⟩
    rw [htype, h, String.append_empty]

instance (s : Settings) (type : String) : Decidable (s.InNamespace type) :=
  decidable_of_iff _ inNamespace_iff.symm

/-- Whatever lies in the namespace counts as the generator's own. -/
theorem isOwn_of_inNamespace {s : Settings} {type : String} (h : s.InNamespace type) :
    s.isOwn type = true := by
  obtain ⟨rest, -, rfl⟩ := h
  rw [isOwn, Text.startsWith_iff, String.append_assoc, String.toList_append]
  exact List.prefix_append _ _

end Settings

namespace Element

variable {s : Settings} {e : Element}

/-- The annotations whose types do not lie in the namespace of the markers. -/
def foreign (s : Settings) (e : Element) : List AnnotationUse :=
  e.annotations.filter fun use => ¬s.InNamespace use.type

theorem mem_foreign {use : AnnotationUse} :
    use ∈ e.foreign s ↔ use ∈ e.annotations ∧ ¬s.InNamespace use.type := by
  simp [foreign]

theorem carried_sublist_foreign : (e.carried s).Sublist (e.foreign s) := by
  refine List.monotone_filter_right _ fun use hcarried => ?_
  simp only [Bool.not_eq_eq_eq_not, Bool.not_true] at hcarried
  refine decide_eq_true fun hinside => ?_
  rw [Settings.isOwn_of_inNamespace hinside] at hcarried
  cases hcarried

/-- All annotations from elsewhere are carried exactly when the text of the namespace tells them
apart from the generator's own. -/
theorem carriedAnnotations_eq_foreign_iff :
    e.carriedAnnotations s = " ".intercalate ((e.foreign s).map AnnotationUse.source) ↔
      ∀ use ∈ e.annotations, s.isOwn use.type = true → s.InNamespace use.type := by
  rw [carriedAnnotations_eq]
  constructor
  · intro htext use huse hown
    by_contra hforeign
    -- Equal texts hold the same annotations, so this one would be carried.
    have hmem : use ∈ e.carried s := by
      rw [AnnotationUse.eq_of_sublist_of_intercalate_eq carried_sublist_foreign htext]
      exact mem_foreign.mpr ⟨huse, hforeign⟩
    have hcarried := List.of_mem_filter hmem
    simp [hown] at hcarried
  · intro htold
    have hsame : e.carried s = e.foreign s := by
      refine List.filter_congr fun use huse => ?_
      by_cases hinside : s.InNamespace use.type
      · simp [hinside, Settings.isOwn_of_inNamespace hinside]
      · have hown : s.isOwn use.type = false := Bool.eq_false_iff.mpr (mt (htold use huse) hinside)
        simp [hinside, hown]
    rw [hsame]

end Element

/-! ## Parameters in the source -/

theorem Layout.exists_textAll_eq {step : SourceStep} {steps : List SourceStep} (h : step ∈ steps)
    (l : Layout) :
    ∃ l' before after, l.textAll steps = before ++ Layout.text l' step ++ after := by
  obtain ⟨first, last, rfl⟩ := List.append_of_mem h
  refine ⟨l.nextAll first, l.textAll first, ((l.nextAll first).next step).textAll last, ?_⟩
  rw [textAll_append, textAll, String.append_assoc]

namespace FactoryClass

/-- The source of the class holds the parameter, as it is declared. -/
def Declares (k : FactoryClass) (given : GivenParameter) : Prop :=
  ∃ before after, k.render? = some (before ++ given.text ++ after)

variable {k : FactoryClass} {m : FactoryMethod} {given : GivenParameter}

theorem declares_of_step_mem (h : given.step ∈ k.steps) : k.Declares given := by
  obtain ⟨l, before, after, htext⟩ := Layout.exists_textAll_eq h {}
  rw [Layout.text_parameter, ← String.append_assoc] at htext
  exact ⟨_, after, by rw [render?_eq, htext]⟩

theorem declares_of_mem_given (h : given ∈ k.given) : k.Declares given := by
  refine declares_of_step_mem ?_
  have hstep : given.step ∈ k.constructorSteps := by
    simp [constructorSteps, List.mem_map_of_mem h]
  simp [steps, hstep]

theorem declares_of_mem_parameters (hm : m ∈ k.methods) (h : given ∈ m.parameters) :
    k.Declares given := by
  refine declares_of_step_mem ?_
  have hstep : given.step ∈ k.methodSteps m := by
    simp [methodSteps, List.mem_map_of_mem h]
  have hmethods : given.step ∈ k.methods.flatMap k.methodSteps :=
    List.mem_flatMap.mpr ⟨m, hm, hstep⟩
  simp [steps, hmethods]

/-- Every parameter of an accepted class has the annotations whose types do not begin with the text
of the namespace, as they are written, with a blank between any two.  Nothing from the namespace is
among them, and they are all of the others exactly when no type from elsewhere begins with this
text.  The factory declares the parameter with these annotations, as a parameter of its constructor
or of the method, and so does the generated source. -/
theorem annotations_place_iff {s : Settings} {e : Element} {t : Target}
    (h : Target.ofElement s e = .ok t) {i j : Nat} {k p : Element}
    (hk : e.constructors[i]? = some k) (hp : k.parameters[j]? = some p) :
    ∃ c q, t.constructors[i]? = some c ∧ c.parameters[j]? = some q ∧
      q.annotations = " ".intercalate ((p.annotations.filter fun use =>
        !Text.startsWith use.type s.markerNamespace).map AnnotationUse.source) ∧
      (∀ use ∈ p.carried s, use ∈ p.annotations ∧ ¬s.InNamespace use.type) ∧
      (q.annotations = " ".intercalate ((p.foreign s).map AnnotationUse.source) ↔
        ∀ use ∈ p.annotations, Text.startsWith use.type s.markerNamespace = true →
          s.InNamespace use.type) ∧
      let factory := ofTarget s t
      let given : GivenParameter :=
        ⟨q.annotations, if q ∈ t.bound then t.heldType s q else q.type, q.name⟩
      (if q ∈ t.bound then given ∈ factory.writtenGiven
        else given ∈ factory.writtenParameters (FactoryMethod.ofConstructor s t c)) ∧
        factory.Declares given := by
  have hc := Target.getElem?_constructors h hk
  have hq : (Constructor.ofElement s k).parameters[j]? = some (Parameter.ofElement s p) := by
    simp [Constructor.ofElement, hp]
  refine ⟨_, _, hc, hq, rfl, fun use huse => ?_, Element.carriedAnnotations_eq_foreign_iff, ?_⟩
  · exact Element.mem_foreign.mp (Element.carried_sublist_foreign.subset huse)
  · -- A bound parameter is declared by the constructor of the factory, any other by the method.
    by_cases hbound : Parameter.ofElement s p ∈ t.bound
    · simp only [if_pos hbound]
      have hgiven : (⟨_, _, _⟩ : GivenParameter) ∈ (ofTarget s t).given :=
        List.mem_map_of_mem hbound
      rw [writtenGiven_eq]
      exact ⟨hgiven, declares_of_mem_given hgiven⟩
    · simp only [if_neg hbound]
      have hgiven : (⟨_, _, _⟩ : GivenParameter) ∈
          (FactoryMethod.ofConstructor s t (Constructor.ofElement s k)).parameters :=
        List.mem_map_of_mem ((Target.mem_perCall_ofElement (List.mem_of_getElem? hp)).mpr hbound)
      rw [writtenParameters_eq]
      exact ⟨hgiven, declares_of_mem_parameters
        (List.mem_map_of_mem (List.mem_of_getElem? hc)) hgiven⟩

end FactoryClass

/-- A class with one parameter.  It has an annotation from the namespace of the markers, one from a
package whose name begins like this namespace, and one from elsewhere. -/
def Element.besideNamespace : Element :=
  let topic := parameter "topic" ⟨.declared, "String"⟩
  let marked := withAnnotation topic ⟨"factoria.annotations.Unbound", []⟩
  let beside := withAnnotation marked ⟨"factoria.annotationsx.Named", []⟩
  let named := withAnnotation beside ⟨"javax.inject.Named", [⟨"value", .text "q"⟩]⟩
  (classIn "pkg" "Foo").withMember (constructor.withParameter named)

namespace FactoryClass

theorem annotations_place_iff_besideNamespace :
    ∃ (t : Target) (k p : Element) (c : Constructor) (q : Parameter),
      Target.ofElement {} Element.besideNamespace = .ok t ∧
      Element.besideNamespace.constructors[0]? = some k ∧ k.parameters[0]? = some p ∧
      t.constructors[0]? = some c ∧ c.parameters[0]? = some q ∧
      q.annotations = "@javax.inject.Named(\"q\")" ∧
      q.annotations ≠ " ".intercalate ((p.foreign {}).map AnnotationUse.source) ∧
      (ofTarget {} t).Declares ⟨"@javax.inject.Named(\"q\")", "String", "topic"⟩ := by
  obtain ⟨c, q, hc, hq, -, -, hforeign, -, hdeclares⟩ :=
    annotations_place_iff (s := {}) (e := Element.besideNamespace) (i := 0) (j := 0) rfl rfl rfl
  cases hc
  cases hq
  refine ⟨_, _, _, _, _, rfl, rfl, rfl, rfl, rfl, by decide, ?_, hdeclares⟩
  rw [ne_eq, hforeign]
  decide

/-- An annotation from outside the namespace of the markers can be lost. -/
theorem not_forall_annotations_foreign :
    ¬ ∀ (s : Settings) (e : Element) (t : Target), Target.ofElement s e = .ok t →
      ∀ (i j : Nat) (k p : Element) (c : Constructor) (q : Parameter),
        e.constructors[i]? = some k → k.parameters[j]? = some p →
        t.constructors[i]? = some c → c.parameters[j]? = some q →
          q.annotations = " ".intercalate ((p.foreign s).map AnnotationUse.source) := by
  intro h
  have hlost := h {} Element.besideNamespace _ rfl 0 0 _ _ _ _ rfl rfl rfl rfl
  exact absurd hlost (by decide)

end FactoryClass

end CompanionFactory
