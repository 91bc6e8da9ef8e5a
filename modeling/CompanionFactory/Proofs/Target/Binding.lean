import CompanionFactory.Target.Analysis

/-!
# Which parameters are bound

Whether a parameter is bound is decided for its three texts, over all constructors at once: one
place without the unbound marker is enough.  The marker itself stands at a place.  So a place
that carries the marker is taken per call exactly when no place without the marker, in this or
in any other constructor of the class, declares a parameter with the same type, name and carried
annotations.

* `ofElement_eq_ok_iff` is all that an accepted class says about its target;
* `mem_bound_iff` finds the place behind a bound parameter;
* `perCall_place_iff` is the condition above, for every place;
* `not_forall_marked_perCall` is a class with a marked place that is bound after all.
-/

namespace CompanionFactory

namespace Target

variable {s : Settings} {e : Element} {t : Target}

theorem ofElement_eq_ok_iff :
    ofElement s e = .ok t ↔
      ∃ package options, header s e = .ok (package, options) ∧ e.firstUnresolved? = none ∧
        t = { package := package.qualifiedName
              name := e.simpleName
              options := options
              bound := OrderedSet.ofList (boundPlaces s e)
              constructors := e.constructors.map (Constructor.ofElement s) } := by
  unfold ofElement
  cases hheader : header s e with
  | error fault => simp
  | ok found =>
      obtain ⟨package, options⟩ := found
      cases hunresolved : e.firstUnresolved? with
      | some parameter => simp
      | none =>
          constructor
          · intro h
            exact ⟨package, options, rfl, rfl, (Except.ok.inj h).symm⟩
          · rintro ⟨package', options', hpair, -, rfl⟩
            obtain ⟨rfl, rfl⟩ := Prod.mk.inj (Except.ok.inj hpair)
            rfl

/-- A bound parameter is declared at some place without the marker. -/
theorem mem_bound_iff (h : ofElement s e = .ok t) {q : Parameter} :
    q ∈ t.bound ↔
      ∃ p ∈ e.constructorParameters, p.carries s.unboundMarker = false ∧
        Parameter.ofElement s p = q := by
  obtain ⟨package, options, -, -, rfl⟩ := ofElement_eq_ok_iff.mp h
  rw [OrderedSet.mem_ofList, boundPlaces]
  simp [and_assoc]

theorem getElem?_constructors (h : ofElement s e = .ok t) {i : Nat} {k : Element}
    (hk : e.constructors[i]? = some k) :
    t.constructors[i]? = some (Constructor.ofElement s k) := by
  obtain ⟨package, options, -, -, rfl⟩ := ofElement_eq_ok_iff.mp h
  simp [hk]

theorem mem_perCall {c : Constructor} {p : Parameter} :
    p ∈ t.perCall c ↔ p ∈ c.parameters ∧ p ∉ t.bound := by
  simp [perCall, isBound]

theorem mem_perCall_ofElement {k p : Element} (hp : p ∈ k.parameters) :
    Parameter.ofElement s p ∈ t.perCall (Constructor.ofElement s k) ↔
      Parameter.ofElement s p ∉ t.bound := by
  have hmem : Parameter.ofElement s p ∈ (Constructor.ofElement s k).parameters :=
    List.mem_map_of_mem hp
  rw [mem_perCall]
  exact and_iff_right hmem

/-- A place is taken per call exactly when it carries the marker and no place without the marker,
in this or in any other constructor, declares the same type, name and carried annotations. -/
theorem perCall_place_iff (h : ofElement s e = .ok t) {i j : Nat} {k p : Element}
    (hk : e.constructors[i]? = some k) (hp : k.parameters[j]? = some p) :
    ∃ c q, t.constructors[i]? = some c ∧ c.parameters[j]? = some q ∧
      (q ∈ t.perCall c ↔ q ∉ t.bound) ∧
      (q ∉ t.bound ↔ p.carries s.unboundMarker = true ∧
        ∀ twin ∈ e.constructorParameters, twin.carries s.unboundMarker = false →
          Parameter.ofElement s twin ≠ q) := by
  have hplace : (Constructor.ofElement s k).parameters[j]? = some (Parameter.ofElement s p) := by
    simp [Constructor.ofElement, hp]
  have hmem : p ∈ e.constructorParameters :=
    List.mem_flatMap.mpr ⟨k, List.mem_of_getElem? hk, List.mem_of_getElem? hp⟩
  refine ⟨_, _, getElem?_constructors h hk, hplace,
    mem_perCall_ofElement (List.mem_of_getElem? hp), ?_⟩
  rw [mem_bound_iff h]
  constructor
  · intro hnone
    -- A place without the marker would bind its own parameter.
    refine ⟨?_, fun twin htwin hunmarked heq => hnone ⟨twin, htwin, hunmarked, heq⟩⟩
    cases hmarked : p.carries s.unboundMarker with
    | true => rfl
    | false => exact (hnone ⟨p, hmem, hmarked, rfl⟩).elim
  · rintro ⟨-, hall⟩ ⟨twin, htwin, hunmarked, heq⟩
    exact hall twin htwin hunmarked heq

end Target

/-- A class with two constructors for one topic; the marker stands in the second one only. -/
def Element.halfMarked : Element :=
  let topic := parameter "topic" ⟨.declared, "String"⟩
  let marked := withAnnotation topic ⟨"factoria.annotations.Unbound", []⟩
  let target := withAnnotation (classIn "pkg" "Bar") ⟨"factoria.annotations.Factory", []⟩
  (target.withMember (constructor.withParameter topic)).withMember
    (constructor.withParameter marked)

namespace Target

theorem perCall_place_iff_halfMarked :
    ∃ t k p, ofElement {} Element.halfMarked = .ok t ∧
      Element.halfMarked.constructors[1]? = some k ∧ k.parameters[0]? = some p ∧
      ∃ c q, t.constructors[1]? = some c ∧ c.parameters[0]? = some q ∧
        (q ∈ t.perCall c ↔ q ∉ t.bound) ∧
        (q ∉ t.bound ↔ p.carries ({} : Settings).unboundMarker = true ∧
          ∀ twin ∈ Element.halfMarked.constructorParameters,
            twin.carries ({} : Settings).unboundMarker = false →
              Parameter.ofElement {} twin ≠ q) :=
  ⟨_, _, _, rfl, rfl, rfl, perCall_place_iff rfl rfl rfl⟩

/-- The marker does not keep every marked place out of the bound parameters. -/
theorem not_forall_marked_perCall :
    ¬ ∀ (s : Settings) (e : Element) (t : Target), ofElement s e = .ok t →
      ∀ k ∈ e.constructors, ∀ p ∈ k.parameters, p.carries s.unboundMarker = true →
        Parameter.ofElement s p ∉ t.bound ∧
          Parameter.ofElement s p ∈ t.perCall (Constructor.ofElement s k) := by
  intro h
  let marked := Element.withAnnotation (Element.parameter "topic" ⟨.declared, "String"⟩)
    ⟨"factoria.annotations.Unbound", []⟩
  have hmarked : marked.carries ({} : Settings).unboundMarker = true := by decide
  -- The topic of the first constructor, which carries no marker, binds this one as well.
  obtain ⟨hbound, -⟩ := h {} Element.halfMarked _ rfl (Element.constructor.withParameter marked)
    (List.mem_of_getElem? (i := 1) rfl) marked (List.mem_of_getElem? (i := 0) rfl) hmarked
  exact hbound (by decide)

end Target

end CompanionFactory
