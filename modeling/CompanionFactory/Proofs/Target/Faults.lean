import CompanionFactory.Proofs.Target.Options
import CompanionFactory.Target.Analysis
import Mathlib.Logic.Basic

/-!
# Why a class is not read

A class is looked at in four stages: its kind, its place, its options, and the parameters of its
constructors.  The first stage that fails decides the fault.  `Reads` lists the five ways in which
the reading of a class can end, each with its condition, and `reads_iff` says that a class is read
in exactly the way whose condition holds.

* `Element.firstUnresolved?_eq_some_iff`: of several unresolved parameters the first one counts, in
  the order of the constructors and then of their parameters;
* `concernsOptions_of_ofUse`: the options never give one of the other faults;
* `ofElement_faults` states the condition for every fault and for success.
-/

namespace CompanionFactory

/-! ## What the stages look at -/

/-- Whether the fault lies in the options of a class. -/
def TargetFault.concernsOptions : TargetFault → Bool
  | unknownOption _ | malformedOption _ _ | unknownModifier _ => true
  | notClass | notOutermost | unresolvedType _ => false

namespace Element

/-- The element is declared directly in a package. -/
def Outermost (e : Element) : Prop :=
  ∃ package, e.enclosing = some package ∧ package.kind = .package

/-- `use` is the first annotation of the given type. -/
def FirstUse (e : Element) (type : String) (use : AnnotationUse) : Prop :=
  ∃ before after, e.annotations = before ++ use :: after ∧ use.type = type ∧
    ∀ other ∈ before, other.type ≠ type

/-- The element has a type, and the host has resolved it. -/
def Resolved (p : Element) : Prop :=
  ∃ type, p.type = some type ∧ type.kind ≠ .unresolved

/-- `p` is a constructor parameter that is not resolved, and every parameter of an earlier
constructor is, and so is every earlier one of its own constructor. -/
def FirstUnresolved (e p : Element) : Prop :=
  ∃ before k after earlier later,
    e.constructors = before ++ k :: after ∧ k.parameters = earlier ++ p :: later ∧ ¬p.Resolved ∧
    (∀ other ∈ before, ∀ q ∈ other.parameters, q.Resolved) ∧ ∀ q ∈ earlier, q.Resolved

/-- Every parameter of every constructor is resolved, marked or not. -/
def AllResolved (e : Element) : Prop :=
  ∀ k ∈ e.constructors, ∀ p ∈ k.parameters, p.Resolved

variable {e p : Element}

theorem outermost_iff : e.Outermost ↔ ∃ package, e.enclosingPackage? = some package := by
  simp [Outermost, enclosingPackage?, Option.filter_eq_some_iff]

theorem annotation?_eq_some_iff {type : String} {use : AnnotationUse} :
    e.annotation? type = some use ↔ e.FirstUse type use := by
  rw [annotation?, List.find?_eq_some_iff_append]
  constructor
  · rintro ⟨htype, before, after, hsplit, hbefore⟩
    exact ⟨before, after, hsplit, by simpa using htype, by simpa using hbefore⟩
  · rintro ⟨before, after, hsplit, htype, hbefore⟩
    exact ⟨by simpa using htype, before, after, hsplit, by simpa using hbefore⟩

theorem annotation?_eq_none_iff {type : String} :
    e.annotation? type = none ↔ ∀ use ∈ e.annotations, use.type ≠ type := by
  simp [annotation?]

theorem isResolved_iff : p.isResolved = true ↔ p.Resolved := by
  simp [isResolved, Resolved, Option.any_eq_true]

theorem not_isResolved_iff : (!p.isResolved) = true ↔ ¬p.Resolved := by
  rw [Bool.not_eq_true', ← Bool.not_eq_true, isResolved_iff]

theorem find?_unresolved_eq_none_iff {ps : List Element} :
    ps.find? (fun p => !p.isResolved) = none ↔ ∀ p ∈ ps, p.Resolved := by
  simp [isResolved_iff]

theorem firstUnresolved?_eq_none_iff : e.firstUnresolved? = none ↔ e.AllResolved := by
  rw [firstUnresolved?, constructorParameters, find?_unresolved_eq_none_iff]
  simp only [List.mem_flatMap, forall_exists_index, and_imp]
  exact ⟨fun h k hk p hp => h p k hk hp, fun h p k hk hp => h k hk p hp⟩

theorem firstUnresolved?_eq_some_iff : e.firstUnresolved? = some p ↔ e.FirstUnresolved p := by
  rw [firstUnresolved?, constructorParameters, List.find?_flatMap, List.findSome?_eq_some_iff]
  constructor
  · rintro ⟨before, k, after, hconstructors, hfound, hbefore⟩
    obtain ⟨hp, earlier, later, hparameters, hearlier⟩ := List.find?_eq_some_iff_append.mp hfound
    refine ⟨before, k, after, earlier, later, hconstructors, hparameters,
      not_isResolved_iff.mp hp, ?_, ?_⟩
    · exact fun other hother => find?_unresolved_eq_none_iff.mp (hbefore other hother)
    · exact fun q hq => isResolved_iff.mp (by simpa using hearlier q hq)
  · rintro ⟨before, k, after, earlier, later, hconstructors, hparameters, hp, hbefore, hearlier⟩
    refine ⟨before, k, after, hconstructors, ?_, ?_⟩
    · refine List.find?_eq_some_iff_append.mpr
        ⟨not_isResolved_iff.mpr hp, earlier, later, hparameters, fun q hq => ?_⟩
      simpa using isResolved_iff.mpr (hearlier q hq)
    · exact fun other hother => find?_unresolved_eq_none_iff.mpr (hbefore other hother)

theorem not_allResolved_iff : ¬e.AllResolved ↔ ∃ p, e.FirstUnresolved p := by
  rw [← firstUnresolved?_eq_none_iff, ← ne_eq, Option.ne_none_iff_exists']
  simp only [firstUnresolved?_eq_some_iff]

end Element

/-! ## Faults of the options -/

theorem AnnotationEntry.Refuses.concernsOptions {entry : AnnotationEntry} {fault : TargetFault}
    (h : entry.Refuses fault) : fault.concernsOptions = true := by
  cases h with
  | unknown | malformed => rfl
  | item _ _ _ hitem => cases hitem <;> rfl

/-- The marker of a class is refused only for what it says. -/
theorem TargetOptions.concernsOptions_of_ofUse {use : AnnotationUse} {fault : TargetFault}
    (h : ofUse use = .error fault) : fault.concernsOptions = true := by
  obtain ⟨_, entry, _, _, _, hentry⟩ := ofUse_eq_error_iff.mp h
  exact hentry.concernsOptions

/-! ## The five ways -/

/-- The options of a class: those its first marker gives, or the defaults when it has none. -/
inductive TargetOptions.Given (s : Settings) (e : Element) : TargetOptions → Prop
  | byDefault (hunmarked : ∀ use ∈ e.annotations, use.type ≠ s.factoryMarker) : Given s e {}
  | byMarker {use : AnnotationUse} {options : TargetOptions}
      (hfirst : e.FirstUse s.factoryMarker use) (hread : TargetOptions.ofUse use = .ok options) :
      Given s e options

namespace Target

/-- How the reading of a class ends, with its fault or with its options. -/
inductive Reads (s : Settings) (e : Element) : Except TargetFault TargetOptions → Prop
  | notClass (hkind : e.kind ≠ .classType) : Reads s e (.error .notClass)
  | notOutermost (hkind : e.kind = .classType) (hplace : ¬e.Outermost) :
      Reads s e (.error .notOutermost)
  | refused {use : AnnotationUse} {fault : TargetFault} (hkind : e.kind = .classType)
      (hplace : e.Outermost) (hfirst : e.FirstUse s.factoryMarker use)
      (hread : TargetOptions.ofUse use = .error fault) : Reads s e (.error fault)
  | unresolved {options : TargetOptions} {p : Element} (hkind : e.kind = .classType)
      (hplace : e.Outermost) (hoptions : TargetOptions.Given s e options)
      (hparameter : e.FirstUnresolved p) : Reads s e (.error (.unresolvedType p.simpleName))
  | accepted {options : TargetOptions} (hkind : e.kind = .classType) (hplace : e.Outermost)
      (hoptions : TargetOptions.Given s e options) (hresolved : e.AllResolved) :
      Reads s e (.ok options)

variable {s : Settings} {e : Element}

theorem header_of_given {package : Element} {options : TargetOptions}
    (hkind : e.kind = .classType) (hplace : e.enclosingPackage? = some package)
    (hoptions : TargetOptions.Given s e options) : header s e = .ok (package, options) := by
  cases hoptions with
  | byDefault hunmarked =>
      rw [← Element.annotation?_eq_none_iff] at hunmarked
      simp [header, hkind, hplace, hunmarked]
  | byMarker hfirst hread =>
      rw [← Element.annotation?_eq_some_iff] at hfirst
      simp [header, hkind, hplace, hfirst, hread, Functor.map, Except.map]

theorem ofElement_of_header {package : Element} {options : TargetOptions}
    (h : header s e = .ok (package, options)) :
    (ofElement s e).map (·.options) =
      match e.firstUnresolved? with
      | some p => .error (.unresolvedType p.simpleName)
      | none => .ok options := by
  unfold ofElement
  rw [h]
  cases e.firstUnresolved? <;> rfl

theorem Reads.map_options_eq {answer : Except TargetFault TargetOptions} (h : Reads s e answer) :
    (ofElement s e).map (·.options) = answer := by
  cases h with
  | notClass hkind => simp [ofElement, header, hkind, Except.map]
  | notOutermost hkind hplace =>
      have hpackage : e.enclosingPackage? = none := by
        rw [Element.outermost_iff, ← Option.ne_none_iff_exists', not_not] at hplace
        exact hplace
      simp [ofElement, header, hkind, hpackage, Except.map]
  | refused hkind hplace hfirst hread =>
      obtain ⟨package, hpackage⟩ := Element.outermost_iff.mp hplace
      rw [← Element.annotation?_eq_some_iff] at hfirst
      simp [ofElement, header, hkind, hpackage, hfirst, hread, Functor.map, Except.map]
  | unresolved hkind hplace hoptions hparameter =>
      obtain ⟨package, hpackage⟩ := Element.outermost_iff.mp hplace
      rw [ofElement_of_header (header_of_given hkind hpackage hoptions),
        Element.firstUnresolved?_eq_some_iff.mpr hparameter]
  | accepted hkind hplace hoptions hresolved =>
      obtain ⟨package, hpackage⟩ := Element.outermost_iff.mp hplace
      rw [ofElement_of_header (header_of_given hkind hpackage hoptions),
        Element.firstUnresolved?_eq_none_iff.mpr hresolved]

theorem exists_reads (s : Settings) (e : Element) : ∃ answer, Reads s e answer := by
  by_cases hkind : e.kind = .classType
  · by_cases hplace : e.Outermost
    · -- Behind the first two stages, the options decide before the parameters do.
      have hgiven {options : TargetOptions} (hoptions : TargetOptions.Given s e options) :
          ∃ answer, Reads s e answer := by
        by_cases hresolved : e.AllResolved
        · exact ⟨_, .accepted hkind hplace hoptions hresolved⟩
        · obtain ⟨p, hp⟩ := Element.not_allResolved_iff.mp hresolved
          exact ⟨_, .unresolved hkind hplace hoptions hp⟩
      cases hmarker : e.annotation? s.factoryMarker with
      | none => exact hgiven (.byDefault (Element.annotation?_eq_none_iff.mp hmarker))
      | some use =>
          rw [Element.annotation?_eq_some_iff] at hmarker
          cases hread : TargetOptions.ofUse use with
          | error fault => exact ⟨_, .refused hkind hplace hmarker hread⟩
          | ok options => exact hgiven (.byMarker hmarker hread)
    · exact ⟨_, .notOutermost hkind hplace⟩
  · exact ⟨_, .notClass hkind⟩

/-- A class is read in the one way whose condition holds. -/
theorem reads_iff {answer : Except TargetFault TargetOptions} :
    (ofElement s e).map (·.options) = answer ↔ Reads s e answer := by
  constructor
  · rintro rfl
    obtain ⟨answer, h⟩ := exists_reads s e
    exact h.map_options_eq ▸ h
  · exact Reads.map_options_eq

theorem reads_error_iff {fault : TargetFault} :
    ofElement s e = .error fault ↔ Reads s e (.error fault) := by
  rw [← reads_iff]
  cases ofElement s e <;> simp [Except.map]

theorem reads_ok_iff {options : TargetOptions} :
    (∃ t, ofElement s e = .ok t ∧ t.options = options) ↔ Reads s e (.ok options) := by
  rw [← reads_iff]
  cases ofElement s e <;> simp [Except.map]

theorem reads_notClass_iff : Reads s e (.error .notClass) ↔ e.kind ≠ .classType := by
  constructor
  · intro h
    cases h with
    | notClass hkind => exact hkind
    | refused _ _ _ hread => cases TargetOptions.concernsOptions_of_ofUse hread
  · exact .notClass

theorem reads_notOutermost_iff :
    Reads s e (.error .notOutermost) ↔ e.kind = .classType ∧ ¬e.Outermost := by
  constructor
  · intro h
    cases h with
    | notOutermost hkind hplace => exact ⟨hkind, hplace⟩
    | refused _ _ _ hread => cases TargetOptions.concernsOptions_of_ofUse hread
  · rintro ⟨hkind, hplace⟩
    exact .notOutermost hkind hplace

theorem reads_concernsOptions_iff {fault : TargetFault} :
    Reads s e (.error fault) ∧ fault.concernsOptions = true ↔
      e.kind = .classType ∧ e.Outermost ∧
        ∃ use, e.FirstUse s.factoryMarker use ∧ TargetOptions.ofUse use = .error fault := by
  constructor
  · rintro ⟨h, hfault⟩
    cases h with
    | notClass | notOutermost | unresolved => cases hfault
    | refused hkind hplace hfirst hread => exact ⟨hkind, hplace, _, hfirst, hread⟩
  · rintro ⟨hkind, hplace, use, hfirst, hread⟩
    exact ⟨.refused hkind hplace hfirst hread, TargetOptions.concernsOptions_of_ofUse hread⟩

theorem reads_unresolvedType_iff {name : String} :
    Reads s e (.error (.unresolvedType name)) ↔
      e.kind = .classType ∧ e.Outermost ∧ (∃ options, TargetOptions.Given s e options) ∧
        ∃ p, e.FirstUnresolved p ∧ p.simpleName = name := by
  constructor
  · intro h
    cases h with
    | unresolved hkind hplace hoptions hparameter =>
        exact ⟨hkind, hplace, ⟨_, hoptions⟩, _, hparameter, rfl⟩
    | refused _ _ _ hread => cases TargetOptions.concernsOptions_of_ofUse hread
  · rintro ⟨hkind, hplace, ⟨options, hoptions⟩, p, hparameter, rfl⟩
    exact .unresolved hkind hplace hoptions hparameter

theorem reads_accepted_iff {options : TargetOptions} :
    Reads s e (.ok options) ↔
      e.kind = .classType ∧ e.Outermost ∧ TargetOptions.Given s e options ∧ e.AllResolved := by
  constructor
  · intro h
    cases h with
    | accepted hkind hplace hoptions hresolved => exact ⟨hkind, hplace, hoptions, hresolved⟩
  · rintro ⟨hkind, hplace, hoptions, hresolved⟩
    exact .accepted hkind hplace hoptions hresolved

/-- The four stages decide the answer for every element and all settings.  An element that is no
class is refused for that; else a class that is not declared directly in a package is refused for
that; else the first marker is refused with the fault of its options; else the first parameter that
is not resolved, in the order of constructors and parameters, is named; else the class is accepted,
with the options of its first marker, or the defaults without one.  So a class is deferred exactly
when an unresolved parameter, in whatever constructor, is all that is wrong with it. -/
theorem ofElement_faults (s : Settings) (e : Element) :
    (ofElement s e = .error .notClass ↔ e.kind ≠ .classType) ∧
    (ofElement s e = .error .notOutermost ↔ e.kind = .classType ∧ ¬e.Outermost) ∧
    (∀ fault, ofElement s e = .error fault ∧ fault.concernsOptions = true ↔
      e.kind = .classType ∧ e.Outermost ∧
        ∃ use, e.FirstUse s.factoryMarker use ∧ TargetOptions.ofUse use = .error fault) ∧
    (∀ name, ofElement s e = .error (.unresolvedType name) ↔
      e.kind = .classType ∧ e.Outermost ∧ (∃ options, TargetOptions.Given s e options) ∧
        ∃ p, e.FirstUnresolved p ∧ p.simpleName = name) ∧
    (∀ options, (∃ t, ofElement s e = .ok t ∧ t.options = options) ↔
      e.kind = .classType ∧ e.Outermost ∧ TargetOptions.Given s e options ∧ e.AllResolved) ∧
    ((∃ fault, ofElement s e = .error fault ∧ fault.isDeferrable = true) ↔
      e.kind = .classType ∧ e.Outermost ∧ (∃ options, TargetOptions.Given s e options) ∧
        ∃ k ∈ e.constructors, ∃ p ∈ k.parameters, ¬p.Resolved) := by
  simp only [reads_error_iff, reads_ok_iff]
  refine ⟨reads_notClass_iff, reads_notOutermost_iff, fun fault => reads_concernsOptions_iff,
    fun name => reads_unresolvedType_iff, fun options => reads_accepted_iff, ?_⟩
  have hunresolved : (∃ k ∈ e.constructors, ∃ p ∈ k.parameters, ¬p.Resolved) ↔
      ∃ p, e.FirstUnresolved p := by
    rw [← Element.not_allResolved_iff]
    simp [Element.AllResolved]
  rw [hunresolved]
  constructor
  · rintro ⟨fault, h, hdeferrable⟩
    -- An unresolved type is the only fault that can go away by itself.
    cases fault with
    | unresolvedType name =>
        obtain ⟨hkind, hplace, hoptions, p, hparameter, -⟩ := reads_unresolvedType_iff.mp h
        exact ⟨hkind, hplace, hoptions, p, hparameter⟩
    | notClass | notOutermost | unknownOption | malformedOption | unknownModifier =>
        cases hdeferrable
  · rintro ⟨hkind, hplace, ⟨options, hoptions⟩, p, hparameter⟩
    exact ⟨_, .unresolved hkind hplace hoptions hparameter, rfl⟩

end Target

end CompanionFactory
