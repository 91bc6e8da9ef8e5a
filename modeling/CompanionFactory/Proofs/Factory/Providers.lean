import CompanionFactory.Proofs.Factory.Forwarding
import CompanionFactory.Proofs.Target.Carried
import CompanionFactory.Proofs.Target.Partition

/-!
# Which types are wrapped

Under the option a bound parameter is wrapped in a provider unless it is written as a provider
already or carries annotations.  That is told from texts.  The kind of a type is looked at only
while a class is read, to see whether the type is resolved, so a parameter of a primitive type is
wrapped like any other, and the factory declares a provider of a primitive type.

* `Element.AsksForProvider` says of an element when its factory holds a provider of a type;
* `Target.exists_heldType_eq_provider_iff`: one bound parameter is behind every such provider;
* `FactoryClass.provider_written_iff`: the same for fields and for parameters of the constructor,
  and what it takes for none of them to be a provider of a primitive type;
* `FactoryClass.not_forall_primitive_unwrapped` is a class for which one of them is.
-/

namespace CompanionFactory

/-- Whether a type of the kind is primitive, so that no type argument can be one. -/
def TypeKind.isPrimitive : TypeKind → Bool
  | boolean | byte | short | int | long | char | float | double => true
  | void | array | declared | typeVariable | wildcard | unresolved => false

/-! ## Providers -/

namespace Settings

variable {s : Settings} {type other : String}

/-- The provider of a type, as it is written. -/
def provider (s : Settings) (type : String) : String :=
  s.providerType ++ "<" ++ type ++ ">"

theorem provider_inj : s.provider type = s.provider other ↔ type = other := by
  refine ⟨fun h => ?_, congrArg s.provider⟩
  exact (String.append_right_inj _).mp ((String.append_left_inj _).mp h)

theorem startsWith_provider (s : Settings) (type : String) :
    Text.startsWith (s.provider type) s.providerType = true := by
  rw [Text.startsWith_iff, provider, String.append_assoc, String.append_assoc, String.toList_append]
  exact List.prefix_append _ _

end Settings

/-- A parameter of a constructor that is not marked as unbound is written with this type, which is
not that of a provider, and carries no annotations; or it is written with the provider of the
type. -/
def Element.AsksForProvider (s : Settings) (e : Element) (type : String) : Prop :=
  ∃ p ∈ e.constructorParameters, p.carries s.unboundMarker = false ∧
    ∃ declared ∈ p.type,
      declared.source = type ∧ Text.startsWith type s.providerType = false ∧ p.carried s = [] ∨
        declared.source = s.provider type

instance (s : Settings) (e : Element) (type : String) : Decidable (e.AsksForProvider s type) :=
  inferInstanceAs (Decidable (∃ p ∈ e.constructorParameters, _ ∧ ∃ declared ∈ p.type, _))

namespace Target

variable {s : Settings} {e : Element} {t : Target}

theorem heldType_eq_provider_iff {q : Parameter} {type : String} :
    t.heldType s q = s.provider type ↔
      q.type = type ∧ isProvided s t.options q = true ∨ q.type = s.provider type := by
  cases hprovided : isProvided s t.options q with
  | true =>
      have hheld : t.heldType s q = s.provider q.type := if_pos hprovided
      -- What is wrapped does not begin like a provider.
      have hplain : q.type ≠ s.provider type := by
        intro heq
        rw [isProvided, heq, Settings.startsWith_provider] at hprovided
        simp at hprovided
      rw [hheld, Settings.provider_inj]
      simp [hplain]
  | false =>
      have hheld : t.heldType s q = q.type := if_neg (by simp [hprovided])
      rw [hheld]
      simp

section Place

variable {p : Element} {declared : TypeRef}

theorem type_ofElement (hdeclared : p.type = some declared) :
    (Parameter.ofElement s p).type = declared.source := by
  simp [Parameter.ofElement, hdeclared]

theorem isProvided_ofElement_iff (hproviders : t.options.providers = true)
    (hdeclared : p.type = some declared) :
    isProvided s t.options (Parameter.ofElement s p) = true ↔
      Text.startsWith declared.source s.providerType = false ∧ p.carried s = [] := by
  have hannotations : (Parameter.ofElement s p).annotations = "" ↔ p.carried s = [] :=
    Element.carriedAnnotations_eq_empty_iff
  simp [isProvided, hproviders, type_ofElement hdeclared, hannotations]

theorem heldType_ofElement_eq_provider_iff (hproviders : t.options.providers = true)
    (hdeclared : p.type = some declared) {type : String} :
    t.heldType s (Parameter.ofElement s p) = s.provider type ↔
      declared.source = type ∧ Text.startsWith type s.providerType = false ∧ p.carried s = [] ∨
        declared.source = s.provider type := by
  rw [heldType_eq_provider_iff, isProvided_ofElement_iff hproviders hdeclared,
    type_ofElement hdeclared]
  refine or_congr_left (and_congr_right fun hsource => ?_)
  rw [hsource]

end Place

/-- The class asks for a provider of a type exactly when a bound parameter is held with it. -/
theorem exists_heldType_eq_provider_iff (h : ofElement s e = .ok t)
    (hproviders : t.options.providers = true) (type : String) :
    (∃ q ∈ t.bound, t.heldType s q = s.provider type) ↔ e.AsksForProvider s type := by
  constructor
  · rintro ⟨q, hq, hheld⟩
    obtain ⟨p, hp, hunmarked, rfl⟩ := (mem_bound_iff h).mp hq
    obtain ⟨k, hk, hpk⟩ := List.mem_flatMap.mp hp
    obtain ⟨declared, hdeclared, -⟩ :=
      (Option.any_eq_true _ _).mp (isResolved_of_ofElement h hk hpk)
    exact ⟨p, hp, hunmarked, declared, hdeclared,
      (heldType_ofElement_eq_provider_iff hproviders hdeclared).mp hheld⟩
  · rintro ⟨p, hp, hunmarked, declared, hdeclared, hasks⟩
    exact ⟨_, (mem_bound_iff h).mpr ⟨p, hp, hunmarked, rfl⟩,
      (heldType_ofElement_eq_provider_iff hproviders hdeclared).mpr hasks⟩

end Target

namespace FactoryClass

variable {s : Settings} {e : Element} {t : Target} {type : String}

theorem exists_writtenFields_type_iff :
    (∃ f ∈ (ofTarget s t).writtenFields, f.type = type) ↔
      ∃ q ∈ t.bound, t.heldType s q = type := by
  rw [writtenFields_eq]
  simp [ofTarget]

theorem exists_writtenGiven_type_iff :
    (∃ g ∈ (ofTarget s t).writtenGiven, g.type = type) ↔
      ∃ q ∈ t.bound, t.heldType s q = type := by
  rw [writtenGiven_eq]
  simp [ofTarget]

/-- Under the option a field of the factory is declared as the provider of a type exactly when the
class asks for it, whatever kinds the types of its parameters have, and for the parameters of the
factory's constructor it is the same.  So none of them is the provider of the type of a primitive
parameter exactly when the class asks for no such provider. -/
theorem provider_written_iff (h : Target.ofElement s e = .ok t)
    (hproviders : t.options.providers = true) :
    (∀ type,
      ((∃ f ∈ (ofTarget s t).writtenFields, f.type = s.provider type) ↔
        e.AsksForProvider s type) ∧
      ((∃ g ∈ (ofTarget s t).writtenGiven, g.type = s.provider type) ↔
        e.AsksForProvider s type)) ∧
    ((∀ p ∈ e.constructorParameters, ∀ declared ∈ p.type, declared.kind.isPrimitive = true →
        (∀ f ∈ (ofTarget s t).writtenFields, f.type ≠ s.provider declared.source) ∧
          ∀ g ∈ (ofTarget s t).writtenGiven, g.type ≠ s.provider declared.source) ↔
      ∀ p ∈ e.constructorParameters, ∀ declared ∈ p.type, declared.kind.isPrimitive = true →
        ¬e.AsksForProvider s declared.source) := by
  have hfields (type : String) :=
    exists_writtenFields_type_iff.trans (Target.exists_heldType_eq_provider_iff h hproviders type)
  have hgiven (type : String) :=
    exists_writtenGiven_type_iff.trans (Target.exists_heldType_eq_provider_iff h hproviders type)
  refine ⟨fun type => ⟨hfields type, hgiven type⟩, ?_⟩
  constructor
  · intro hnone p hp declared hdeclared hprimitive hasks
    obtain ⟨f, hf, htype⟩ := (hfields declared.source).mpr hasks
    exact (hnone p hp declared hdeclared hprimitive).1 f hf htype
  · intro hnone p hp declared hdeclared hprimitive
    have hquiet := hnone p hp declared hdeclared hprimitive
    refine ⟨fun f hf htype => hquiet ?_, fun g hg htype => hquiet ?_⟩
    · exact (hfields declared.source).mp ⟨f, hf, htype⟩
    · exact (hgiven declared.source).mp ⟨g, hg, htype⟩

end FactoryClass

/-- A class with providers.  Of its primitive parameters, one carries an annotation, one is marked
as unbound, and nothing is said about the third. -/
def Element.counting : Element :=
  let first := parameter "first" ⟨.long, "long"⟩
  let last := parameter "last" ⟨.double, "double"⟩
  let count := parameter "count" ⟨.int, "int"⟩
  let named := withAnnotation first ⟨"javax.inject.Named", []⟩
  let marked := withAnnotation last ⟨"factoria.annotations.Unbound", []⟩
  let target := withAnnotation (classIn "pkg" "Foo")
    ⟨"factoria.annotations.Factory", [⟨"providers", .flag true⟩]⟩
  (target.withMember (constructor.withParameter named)).withMember
    ((constructor.withParameter marked).withParameter count)

namespace FactoryClass

theorem provider_written_iff_counting :
    ∃ t, Target.ofElement {} Element.counting = .ok t ∧ t.options.providers = true ∧
      (ofTarget {} t).writtenFields =
        [⟨"long", "first"⟩, ⟨"javax.inject.Provider<int>", "count"⟩] ∧
      (∃ g ∈ (ofTarget {} t).writtenGiven, g.type = ({} : Settings).provider "int") ∧
      ¬∃ g ∈ (ofTarget {} t).writtenGiven, g.type = ({} : Settings).provider "long" := by
  obtain ⟨hproviders, -⟩ := provider_written_iff (s := {}) (e := Element.counting) rfl rfl
  refine ⟨_, rfl, rfl, by decide, (hproviders "int").2.mpr (by decide), ?_⟩
  exact mt (hproviders "long").2.mp (by decide)

/-- The option does not leave primitive parameters out. -/
theorem not_forall_primitive_unwrapped :
    ¬ ∀ (s : Settings) (e : Element) (t : Target), Target.ofElement s e = .ok t →
      t.options.providers = true →
        ∀ p ∈ e.constructorParameters, ∀ declared ∈ p.type, declared.kind.isPrimitive = true →
          (∀ f ∈ (ofTarget s t).writtenFields, f.type ≠ s.provider declared.source) ∧
            ∀ g ∈ (ofTarget s t).writtenGiven, g.type ≠ s.provider declared.source := by
  intro h
  obtain ⟨hfields, -⟩ := h {} Element.counting _ rfl rfl _ (List.mem_of_getElem? (i := 2) rfl) _ rfl
    rfl
  exact hfields _ (List.mem_of_getElem? (i := 1) rfl) rfl

end FactoryClass

end CompanionFactory
