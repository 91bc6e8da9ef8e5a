import CompanionFactory.Proofs.Factory.Forwarding
import CompanionFactory.Proofs.Target.Partition
import Mathlib.Data.List.Nodup

/-!
# Names of fields

Bound parameters are told apart by type, name and carried annotations, but fields and parameters of
a constructor by their names alone.  So two constructors of one class may bind two parameters of one
name, and then the factory declares two fields of one name.

* `Target.nodup_names_bound_iff`: when the bound parameters have pairwise distinct names;
* `Target.nodup_names_bound_iff_overloadsAgree`: what this asks of the constructors of a class, if
  none of them has two parameters of one name;
* `FactoryClass.nodup_names_iff`: the same for the fields of the factory and for the parameters of
  its constructor;
* `FactoryClass.not_forall_nodup_names`: a class whose factory has two fields of one name.
-/

namespace CompanionFactory

/-- Unmarked parameters of one name, in two constructors of the class, have the same type and carry
the same annotations. -/
def Element.OverloadsAgree (s : Settings) (e : Element) : Prop :=
  ∀ (i j : Nat) (k l : Element), e.constructors[i]? = some k → e.constructors[j]? = some l → i ≠ j →
    ∀ p ∈ k.parameters, ∀ q ∈ l.parameters,
      p.carries s.unboundMarker = false → q.carries s.unboundMarker = false →
        p.simpleName = q.simpleName →
          p.type.map (·.source) = q.type.map (·.source) ∧
            p.carriedAnnotations s = q.carriedAnnotations s

/-- Elements with a resolved type declare one parameter exactly when their names, the texts of their
types and their carried annotations agree. -/
theorem Parameter.ofElement_eq_iff {s : Settings} {p q : Element} (hp : p.isResolved = true)
    (hq : q.isResolved = true) :
    ofElement s p = ofElement s q ↔
      p.simpleName = q.simpleName ∧ p.type.map (·.source) = q.type.map (·.source) ∧
        p.carriedAnnotations s = q.carriedAnnotations s := by
  obtain ⟨type, htype, -⟩ := (Option.any_eq_true _ _).mp hp
  obtain ⟨type', htype', -⟩ := (Option.any_eq_true _ _).mp hq
  simp [ofElement, htype, htype', and_left_comm]

namespace Target

variable {s : Settings} {e : Element} {t : Target}

theorem nodup_names_bound_iff (h : ofElement s e = .ok t) :
    (t.bound.toList.map (·.name)).Nodup ↔
      ∀ p ∈ e.constructorParameters, ∀ q ∈ e.constructorParameters,
        p.carries s.unboundMarker = false → q.carries s.unboundMarker = false →
          p.simpleName = q.simpleName → Parameter.ofElement s p = Parameter.ofElement s q := by
  rw [List.nodup_map_iff_inj_on t.bound.nodup]
  constructor
  · intro hinj p hp q hq hunmarked hunmarked' hname
    exact hinj _ ((mem_bound_iff h).mpr ⟨p, hp, hunmarked, rfl⟩) _
      ((mem_bound_iff h).mpr ⟨q, hq, hunmarked', rfl⟩) hname
  · intro hplaces a ha b hb hname
    obtain ⟨p, hp, hunmarked, rfl⟩ := (mem_bound_iff h).mp ha
    obtain ⟨q, hq, hunmarked', rfl⟩ := (mem_bound_iff h).mp hb
    exact hplaces p hp q hq hunmarked hunmarked' hname

theorem nodup_names_bound_iff_overloadsAgree (h : ofElement s e = .ok t)
    (hnames : ∀ k ∈ e.constructors, (k.parameters.map (·.simpleName)).Nodup) :
    (t.bound.toList.map (·.name)).Nodup ↔ e.OverloadsAgree s := by
  rw [nodup_names_bound_iff h]
  constructor
  · intro hplaces i j k l hk hl _ p hp q hq hunmarked hunmarked' hname
    have hk := List.mem_of_getElem? hk
    have hl := List.mem_of_getElem? hl
    have hsame := hplaces p (List.mem_flatMap.mpr ⟨k, hk, hp⟩) q (List.mem_flatMap.mpr ⟨l, hl, hq⟩)
      hunmarked hunmarked' hname
    exact ((Parameter.ofElement_eq_iff (isResolved_of_ofElement h hk hp)
      (isResolved_of_ofElement h hl hq)).mp hsame).2
  · intro hagree p hp q hq hunmarked hunmarked' hname
    obtain ⟨k, hk, hp⟩ := List.mem_flatMap.mp hp
    obtain ⟨l, hl, hq⟩ := List.mem_flatMap.mp hq
    obtain ⟨i, hi⟩ := List.mem_iff_getElem?.mp hk
    obtain ⟨j, hj⟩ := List.mem_iff_getElem?.mp hl
    by_cases hij : i = j
    · -- Within one constructor a name stands for one place.
      subst hij
      obtain rfl := Option.some.inj (hi.symm.trans hj)
      rw [List.inj_on_of_nodup_map (hnames k hk) hp hq hname]
    · exact (Parameter.ofElement_eq_iff (isResolved_of_ofElement h hk hp)
        (isResolved_of_ofElement h hl hq)).mpr
          ⟨hname, hagree i j k l hi hj hij p hp q hq hunmarked hunmarked' hname⟩

end Target

/-- A class with two constructors that both declare `s`, the second one with the given type. -/
def Element.overloaded (type : TypeRef) : Element :=
  let first := constructor.withParameter (parameter "s" ⟨.declared, "java.lang.String"⟩)
  let second := (constructor.withParameter (parameter "s" type)).withParameter
    (parameter "n" ⟨.int, "int"⟩)
  let target := withAnnotation (classIn "pkg" "Foo") ⟨"factoria.annotations.Factory", []⟩
  (target.withMember first).withMember second

namespace FactoryClass

variable (s : Settings) (t : Target)

theorem map_name_writtenFields :
    (ofTarget s t).writtenFields.map (·.name) = t.bound.toList.map (·.name) := by
  rw [writtenFields_eq]
  simp [ofTarget, Function.comp_def]

theorem map_name_writtenGiven :
    (ofTarget s t).writtenGiven.map (·.name) = t.bound.toList.map (·.name) := by
  rw [writtenGiven_eq]
  simp [ofTarget, Function.comp_def]

/-- Let no constructor of an accepted class have two parameters of one name.  Then the fields of the
factory have pairwise distinct names exactly when unmarked parameters of one name, in two of these
constructors, have the same type and carry the same annotations.  For the parameters of the
factory's constructor it is the same. -/
theorem nodup_names_iff {s : Settings} {e : Element} {t : Target}
    (h : Target.ofElement s e = .ok t)
    (hnames : ∀ k ∈ e.constructors, (k.parameters.map (·.simpleName)).Nodup) :
    (((ofTarget s t).writtenFields.map (·.name)).Nodup ↔ e.OverloadsAgree s) ∧
      (((ofTarget s t).writtenGiven.map (·.name)).Nodup ↔ e.OverloadsAgree s) := by
  rw [map_name_writtenFields, map_name_writtenGiven]
  exact ⟨Target.nodup_names_bound_iff_overloadsAgree h hnames,
    Target.nodup_names_bound_iff_overloadsAgree h hnames⟩

theorem nodup_names_iff_overloaded :
    let e := Element.overloaded ⟨.declared, "java.lang.String"⟩
    ∃ t, Target.ofElement {} e = .ok t ∧
      (∀ k ∈ e.constructors, (k.parameters.map (·.simpleName)).Nodup) ∧
      (ofTarget {} t).writtenFields.map (·.name) = ["s", "n"] ∧
      (((ofTarget {} t).writtenFields.map (·.name)).Nodup ↔ e.OverloadsAgree {}) ∧
      (((ofTarget {} t).writtenGiven.map (·.name)).Nodup ↔ e.OverloadsAgree {}) := by
  intro e
  have hnames : ∀ k ∈ e.constructors, (k.parameters.map (·.simpleName)).Nodup := by decide
  exact ⟨_, rfl, hnames, by decide, nodup_names_iff rfl hnames⟩

/-- Distinct names in every constructor of a class do not make the names in its factory distinct. -/
theorem not_forall_nodup_names :
    ¬ ∀ (s : Settings) (e : Element) (t : Target), Target.ofElement s e = .ok t →
      (∀ k ∈ e.constructors, (k.parameters.map (·.simpleName)).Nodup) →
        ((ofTarget s t).writtenFields.map (·.name)).Nodup ∧
          ((ofTarget s t).writtenGiven.map (·.name)).Nodup := by
  intro h
  obtain ⟨hfields, -⟩ := h {} (Element.overloaded ⟨.declared, "java.lang.Object"⟩) _ rfl (by decide)
  exact absurd hfields (by decide)

end FactoryClass

end CompanionFactory
