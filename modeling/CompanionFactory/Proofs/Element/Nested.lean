import CompanionFactory.Element.Basic
import Mathlib.Data.List.Perm.Basic

/-!
# Built elements and the types nested in them

An element that was built step by step knows its qualified name twice: it carries the name, and the
name follows from the enclosing element.  `Built.qualifiedName_eq` says that the two agree.

A type nested in an element can be reached through types only.  `Within` is that relation;
`mem_outerFirst` says that the walk through an element meets exactly these types, and
`innerFirst_perm` that the two walks, outer types first and inner types first, differ in their
order only.
-/

namespace CompanionFactory

namespace Element

/-- What can be built: a package, a type, a constructor, a method or a parameter, and then one
annotation, parameter, thrown type or member after the other. -/
inductive Built : Element → Prop
  | package (name : String) : Built (Element.package name)
  | declaredIn {outer : Element} (houter : Built outer) (kind : ElementKind)
      (simpleName : String) : Built (outer.declaredIn kind simpleName)
  | constructor : Built Element.constructor
  | method (name : String) : Built (Element.method name)
  | parameter (name : String) (type : TypeRef) : Built (Element.parameter name type)
  | withAnnotation {e : Element} (he : Built e) (use : AnnotationUse) :
      Built (e.withAnnotation use)
  | withParameter {e p : Element} (he : Built e) (hp : Built p) : Built (e.withParameter p)
  | withThrown {e : Element} (he : Built e) (type : TypeRef) : Built (e.withThrown type)
  | withMember {e m : Element} (he : Built e) (hm : Built m) : Built (e.withMember m)

/-- `e` is the given element, or a type that can be reached from it through types. -/
inductive Within (e : Element) : Element → Prop
  | self : Within e e
  | nested {root member : Element} (hmember : member ∈ root.members)
      (htype : member.kind.isType = true) (hwithin : Within e member) : Within e root

namespace Built

variable {e outer member : Element}

theorem classIn (packageName simpleName : String) :
    Built (Element.classIn packageName simpleName) :=
  (package packageName).declaredIn .classType simpleName

/-- The qualified name of an enclosed element is the one that its place gives it. -/
theorem qualifiedName_eq (h : Built e) (houter : e.enclosing = some outer) :
    e.qualifiedName = Text.qualify outer.qualifiedName e.simpleName := by
  induction h with
  | package | constructor | method | parameter => cases houter
  | declaredIn =>
      obtain rfl := Option.some.inj houter
      rfl
  | withAnnotation _ _ ih | withParameter _ _ ih | withThrown _ _ ih | withMember _ _ ih =>
      exact ih houter

theorem of_mem_members (h : Built e) (hmember : member ∈ e.members) : Built member := by
  induction h with
  | package | declaredIn | constructor | method | parameter =>
      exact absurd hmember List.not_mem_nil
  | withAnnotation _ _ ih | withParameter _ _ ih | withThrown _ _ ih => exact ih hmember
  | withMember _ hm ih =>
      rcases List.mem_append.mp hmember with hearlier | hlast
      · exact ih hearlier
      · exact List.mem_singleton.mp hlast ▸ hm

theorem of_within {root : Element} (h : Built root) (hwithin : e.Within root) : Built e := by
  induction hwithin with
  | self => exact h
  | nested hmember _ _ ih => exact ih (h.of_mem_members hmember)

end Built

/-! ## The two walks -/

theorem nestedOuterFirst_eq (members : List Element) :
    nestedOuterFirst members = (members.filter (·.kind.isType)).flatMap outerFirst := by
  induction members with
  | nil => rfl
  | cons member rest ih =>
      rw [nestedOuterFirst, ih]
      cases htype : member.kind.isType <;> simp [htype]

mutual

theorem within_of_mem_outerFirst {e : Element} :
    (root : Element) → e ∈ root.outerFirst → e.Within root
  | ⟨_, _, _, _, _, _, _, _, members⟩, he => by
      rcases List.mem_cons.mp he with rfl | hnested
      · exact .self
      · obtain ⟨member, hmember, htype, hwithin⟩ :=
          exists_within_of_mem_nestedOuterFirst members hnested
        exact .nested hmember htype hwithin

theorem exists_within_of_mem_nestedOuterFirst {e : Element} :
    (members : List Element) → e ∈ nestedOuterFirst members →
      ∃ member ∈ members, member.kind.isType = true ∧ e.Within member
  | [], he => absurd he List.not_mem_nil
  | member :: rest, he => by
      have hrest (he : e ∈ nestedOuterFirst rest) :
          ∃ m ∈ member :: rest, m.kind.isType = true ∧ e.Within m := by
        obtain ⟨m, hm, hfound⟩ := exists_within_of_mem_nestedOuterFirst rest he
        exact ⟨m, List.mem_cons_of_mem member hm, hfound⟩
      rw [nestedOuterFirst] at he
      cases htype : member.kind.isType with
      | false => exact hrest (by simpa [htype] using he)
      | true =>
          rw [if_pos htype] at he
          rcases List.mem_append.mp he with hfirst | he
          · exact ⟨member, List.mem_cons_self, htype, within_of_mem_outerFirst member hfirst⟩
          · exact hrest he

end

/-- The walk through an element meets the element and the types nested in it, and nothing else. -/
theorem mem_outerFirst {e root : Element} : e ∈ root.outerFirst ↔ e.Within root := by
  constructor
  · exact within_of_mem_outerFirst root
  · intro hwithin
    induction hwithin with
    | self =>
        rw [outerFirst_eq]
        exact List.mem_cons_self
    | nested hmember htype _ ih =>
        rw [outerFirst_eq, nestedOuterFirst_eq]
        refine List.mem_cons_of_mem _ (List.mem_flatMap.mpr ⟨_, ?_, ih⟩)
        exact List.mem_filter.mpr ⟨hmember, htype⟩

mutual

theorem innerFirst_perm : (root : Element) → root.innerFirst.Perm root.outerFirst
  | ⟨_, _, _, _, _, _, _, _, members⟩ =>
      (List.perm_append_singleton _ _).trans ((nestedInnerFirst_perm members).cons _)

theorem nestedInnerFirst_perm :
    (members : List Element) → (nestedInnerFirst members).Perm (nestedOuterFirst members)
  | [] => .nil
  | member :: rest => by
      rw [nestedInnerFirst, nestedOuterFirst]
      cases htype : member.kind.isType with
      | false => simpa [htype] using nestedInnerFirst_perm rest
      | true => simpa [htype] using (innerFirst_perm member).append (nestedInnerFirst_perm rest)

end

end Element

end CompanionFactory
