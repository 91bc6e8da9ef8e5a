import CompanionFactory.Proofs.Target.Binding
import Mathlib.Data.List.Forall2
import Mathlib.Logic.Basic

/-!
# Bound and per-call parameters

What an accepted class and its target have to do with each other, place by place.  A place is one
declared parameter of one constructor; `Target.places` pairs every place with the parameter that
the target has there.

* `forall₂_declaredBy`: the target has one constructor for each declared one, and there one
  parameter for each declared one, in order;
* `toList_bound_eq`: the bound parameters are the first occurrences at places without the unbound
  marker, over all constructors;
* `constructors_and_parameters` adds that every place is either bound or per call, and never both.
-/

namespace CompanionFactory

/-- `q` is the parameter that the element `p` declares with a resolved type. -/
structure Parameter.DeclaredBy (s : Settings) (p : Element) (q : Parameter) : Prop where
  type : ∃ type, p.type = some type ∧ type.kind ≠ .unresolved ∧ q.type = type.source
  name : q.name = p.simpleName
  annotations : q.annotations = p.carriedAnnotations s

/-- `c` is the constructor that the element `k` declares. -/
structure Constructor.DeclaredBy (s : Settings) (k : Element) (c : Constructor) : Prop where
  parameters : List.Forall₂ (Parameter.DeclaredBy s) k.parameters c.parameters
  thrown : c.thrown = k.thrown.map (·.source)

theorem Parameter.declaredBy_ofElement {s : Settings} {p : Element} (h : p.isResolved = true) :
    DeclaredBy s p (ofElement s p) := by
  obtain ⟨type, htype, hkind⟩ := (Option.any_eq_true _ _).mp h
  refine ⟨⟨type, htype, by simpa using hkind, ?_⟩, rfl, rfl⟩
  simp [ofElement, htype]

theorem Constructor.declaredBy_ofElement {s : Settings} {k : Element}
    (h : ∀ p ∈ k.parameters, p.isResolved = true) : DeclaredBy s k (ofElement s k) := by
  refine ⟨?_, rfl⟩
  rw [Constructor.ofElement, List.forall₂_map_right_iff, List.forall₂_same]
  exact fun p hp => Parameter.declaredBy_ofElement (h p hp)

namespace Target

variable {s : Settings} {e : Element} {t : Target}

/-- Every parameter declared by a constructor of `e`, with the parameter that `t` has there. -/
def places (e : Element) (t : Target) : List (Element × Parameter) :=
  (e.constructors.zip t.constructors).flatMap fun k => k.1.parameters.zip k.2.parameters

theorem isResolved_of_ofElement (h : ofElement s e = .ok t) {k p : Element}
    (hk : k ∈ e.constructors) (hp : p ∈ k.parameters) : p.isResolved = true := by
  obtain ⟨package, options, -, hresolved, -⟩ := ofElement_eq_ok_iff.mp h
  have hall := List.find?_eq_none.mp hresolved p (List.mem_flatMap.mpr ⟨k, hk, hp⟩)
  simpa using hall

theorem forall₂_declaredBy (h : ofElement s e = .ok t) :
    List.Forall₂ (Constructor.DeclaredBy s) e.constructors t.constructors := by
  have hresolved {k : Element} (hk : k ∈ e.constructors) {p : Element} (hp : p ∈ k.parameters) :=
    isResolved_of_ofElement h hk hp
  obtain ⟨package, options, -, -, rfl⟩ := ofElement_eq_ok_iff.mp h
  rw [List.forall₂_map_right_iff, List.forall₂_same]
  exact fun k hk => Constructor.declaredBy_ofElement fun p hp => hresolved hk hp

theorem places_eq_map (h : ofElement s e = .ok t) :
    places e t = e.constructorParameters.map fun p => (p, Parameter.ofElement s p) := by
  have hzip {α β : Type} (f : α → β) (as : List α) :
      as.zip (as.map f) = as.map fun a => (a, f a) := by
    simpa using List.zip_map' (f := id) (g := f) (l := as)
  obtain ⟨package, options, -, -, rfl⟩ := ofElement_eq_ok_iff.mp h
  simp [places, Element.constructorParameters, hzip, Constructor.ofElement, List.map_flatMap,
    List.flatMap_map]

theorem toList_bound_eq (h : ofElement s e = .ok t) :
    t.bound.toList =
      (((places e t).filter fun place => !place.1.carries s.unboundMarker).map
        (·.2)).eraseDups := by
  rw [places_eq_map h, List.filter_map, List.map_map]
  obtain ⟨package, options, -, -, rfl⟩ := ofElement_eq_ok_iff.mp h
  exact OrderedSet.toList_ofList _

/-- A place without the marker is always bound, whatever the other places are. -/
theorem mem_bound_of_unmarked (h : ofElement s e = .ok t) {k p : Element}
    (hk : k ∈ e.constructors) (hp : p ∈ k.parameters)
    (hunmarked : p.carries s.unboundMarker = false) :
    Parameter.ofElement s p ∈ t.bound :=
  (mem_bound_iff h).mpr ⟨p, List.mem_flatMap.mpr ⟨k, hk, hp⟩, hunmarked, rfl⟩

/-- The constructors of an accepted class are its directly declared ones, in order, with all their
parameters in order.  The bound parameters are the first occurrences at places without the marker.
The per-call parameters of a constructor are those of its parameters that are not bound, in order,
so that every place is in exactly one of the two groups; a place without the marker is bound, and a
place that is not bound has the marker. -/
theorem constructors_and_parameters (h : ofElement s e = .ok t) :
    List.Forall₂ (Constructor.DeclaredBy s)
      (e.members.filter fun member => member.kind = .constructor) t.constructors ∧
    t.bound.toList.Nodup ∧
    t.bound.toList =
      (((places e t).filter fun place => !place.1.carries s.unboundMarker).map (·.2)).eraseDups ∧
    ∀ (i : Nat) (k : Element) (c : Constructor),
      e.constructors[i]? = some k → t.constructors[i]? = some c →
        t.perCall c = c.parameters.filter (fun q => q ∉ t.bound) ∧
        ∀ (j : Nat) (p : Element) (q : Parameter),
          k.parameters[j]? = some p → c.parameters[j]? = some q →
            Xor (q ∈ t.bound) (q ∈ t.perCall c) ∧
            (p.carries s.unboundMarker = false → q ∈ t.bound) ∧
            (q ∈ t.perCall c → p.carries s.unboundMarker = true) := by
  refine ⟨forall₂_declaredBy h, t.bound.nodup, toList_bound_eq h, ?_⟩
  intro i k c hk hc
  obtain rfl := Option.some.inj ((getElem?_constructors h hk).symm.trans hc)
  have hperCall : t.perCall (Constructor.ofElement s k) =
      (Constructor.ofElement s k).parameters.filter (fun q => q ∉ t.bound) := by
    simp [perCall, isBound]
  refine ⟨hperCall, ?_⟩
  intro j p q hp hq
  have hplace : (Constructor.ofElement s k).parameters[j]? = some (Parameter.ofElement s p) := by
    simp [Constructor.ofElement, hp]
  obtain rfl := Option.some.inj (hplace.symm.trans hq)
  have hmem : p ∈ k.parameters := List.mem_of_getElem? hp
  have hbinds (hunmarked : p.carries s.unboundMarker = false) :=
    mem_bound_of_unmarked h (List.mem_of_getElem? hk) hmem hunmarked
  rw [mem_perCall_ofElement hmem]
  refine ⟨xor_not_right.mpr Iff.rfl, hbinds, ?_⟩
  intro hfree
  cases hmarked : p.carries s.unboundMarker with
  | true => rfl
  | false => exact absurd (hbinds hmarked) hfree

end Target

/-- A class with two constructors around a method.  They share one parameter at a bound place and
declare another one at a marked place only. -/
def Element.sharing : Element :=
  let shared := parameter "topic" ⟨.declared, "String"⟩
  let count := parameter "count" ⟨.int, "int"⟩
  let marked := withAnnotation count ⟨"factoria.annotations.Unbound", []⟩
  let limit := parameter "limit" ⟨.long, "long"⟩
  let first := (constructor.withParameter shared).withParameter marked
  let second := (constructor.withParameter limit).withParameter shared
  (((classIn "pkg" "Bar").withMember first).withMember (method "size")).withMember
    (second.withThrown ⟨.declared, "IOException"⟩)

namespace Target

theorem constructors_and_parameters_sharing :
    ∃ t, ofElement {} Element.sharing = .ok t ∧
      t.bound.toList = [⟨"String", "topic", ""⟩, ⟨"long", "limit", ""⟩] ∧
      t.constructors.map t.perCall = [[⟨"int", "count", ""⟩], []] ∧
      List.Forall₂ (Constructor.DeclaredBy {})
        (Element.sharing.members.filter fun member => member.kind = .constructor)
        t.constructors ∧
      t.bound.toList = (((places Element.sharing t).filter fun place =>
        !place.1.carries ({} : Settings).unboundMarker).map (·.2)).eraseDups :=
  ⟨_, rfl, by decide, by decide, (constructors_and_parameters rfl).1,
    (constructors_and_parameters rfl).2.2.1⟩

end Target

end CompanionFactory
