import CompanionFactory.Proofs.Annotations.Unambiguous
import Mathlib.Algebra.GroupWithZero.Nat
import Mathlib.Data.List.Basic

/-!
# Carried annotations

The annotations of an element that are not the generator's own are joined to one text, and that
text is all that a parameter keeps of them.  For well-formed annotations nothing is lost:
`carriedAnnotations_unambiguous` gives back the annotations from the text.
-/

namespace CompanionFactory

namespace Element

/-- The annotations that are carried into a factory. -/
def carried (s : Settings) (e : Element) : List AnnotationUse :=
  e.annotations.filter fun use => !s.isOwn use.type

theorem carriedAnnotations_eq (s : Settings) (e : Element) :
    e.carriedAnnotations s = " ".intercalate ((e.carried s).map AnnotationUse.source) := rfl

variable {s : Settings} {e f : Element}

theorem carried_eq_of_carriedAnnotations_eq (he : ∀ use ∈ e.carried s, use.WellFormed)
    (hf : ∀ use ∈ f.carried s, use.WellFormed)
    (h : e.carriedAnnotations s = f.carriedAnnotations s) : e.carried s = f.carried s := by
  have hstart (use : AnnotationUse) (_ : use.WellFormed) :
      ∃ c chars, use.source.toList = c :: chars ∧ Text.isDelimiter c = false := by
    obtain ⟨chars, hsource⟩ := use.exists_toList_source
    exact ⟨'@', chars, hsource, rfl⟩
  have hcloses : Text.Closes " " [] := ⟨Text.delimited_nil, by simp⟩
  have hsame : (e.carriedAnnotations s).toList ++ [] = (f.carriedAnnotations s).toList ++ [] := by
    rw [h]
  exact (Text.intercalate_append_inj ⟨' ', by simp, rfl⟩ hstart
    (fun use huse => (he use huse).recoverable) he hf hcloses hcloses hsame).1

/-- Elements whose annotations are well-formed have the same carried text exactly when they have
the same carried annotations.  They declare the same parameter exactly when, besides, the texts of
their types and their names agree.  No two of their annotations have one source. -/
theorem carriedAnnotations_unambiguous (he : ∀ use ∈ e.annotations, use.WellFormed)
    (hf : ∀ use ∈ f.annotations, use.WellFormed) :
    (e.carriedAnnotations s = f.carriedAnnotations s ↔ e.carried s = f.carried s) ∧
      (Parameter.ofElement s e = Parameter.ofElement s f ↔
        (e.type.map (·.source)).getD "" = (f.type.map (·.source)).getD "" ∧
          e.simpleName = f.simpleName ∧ e.carried s = f.carried s) ∧
      ∀ a ∈ e.annotations, ∀ b ∈ f.annotations, a.source = b.source → a = b := by
  have hcarried : e.carriedAnnotations s = f.carriedAnnotations s ↔ e.carried s = f.carried s := by
    constructor
    · exact carried_eq_of_carriedAnnotations_eq
        (fun use huse => he use (List.mem_of_mem_filter huse))
        (fun use huse => hf use (List.mem_of_mem_filter huse))
    · intro h
      rw [carriedAnnotations_eq, h, carriedAnnotations_eq]
  refine ⟨hcarried, ?_, ?_⟩
  · rw [← hcarried, Parameter.ofElement, Parameter.ofElement, Parameter.mk.injEq]
  · intro a ha b hb h
    exact ((he a ha).recoverable b (hf b hb) [] [] Text.delimited_nil Text.delimited_nil
      (by rw [h])).1

end Element

/-- An annotation with two values under the key `value`: an annotation in short form with a given
value, and an array of literals and names. -/
def AnnotationUse.rich (value : AnnotationValue) : AnnotationUse :=
  ⟨"lang.Rich", [⟨"value", .nested ⟨"lang.Label", [⟨"value", value⟩]⟩⟩,
    ⟨"value", .array [.text "a\", 'b\\", .char '\'', .enumConstant "lang.Mode" "ON",
      .classLiteral "int"]⟩]⟩

theorem AnnotationUse.wellFormed_rich {value : AnnotationValue} (h : value.WellFormed) :
    (rich value).WellFormed := by
  have hkey : Text.isIdentifier "value" = true := by decide
  have hlabel : AnnotationUse.WellFormed ⟨"lang.Label", [⟨"value", value⟩]⟩ :=
    .mk (by decide) (by simpa using hkey) (by simpa using h)
  refine .mk (by decide) (by simpa using hkey) ?_
  simp only [List.forall_mem_cons]
  refine ⟨.nested hlabel, .array ?_, by simp⟩
  simp only [List.forall_mem_cons]
  exact ⟨.text _, .char _, .enumConstant (by decide) (by decide) (by decide),
    .classLiteral (by decide), by simp⟩

namespace Element

/-- A parameter with the generator's own marker and the annotation above. -/
def richlyAnnotated (value : AnnotationValue) : Element :=
  let marked := withAnnotation (parameter "topic" ⟨.declared, "String"⟩)
    ⟨"factoria.annotations.Unbound", []⟩
  withAnnotation marked (.rich value)

theorem wellFormed_richlyAnnotated {value : AnnotationValue} (h : value.WellFormed) :
    ∀ use ∈ (richlyAnnotated value).annotations, use.WellFormed := by
  show ∀ use ∈ [⟨"factoria.annotations.Unbound", []⟩, AnnotationUse.rich value], use.WellFormed
  simp only [List.forall_mem_cons]
  exact ⟨.mk (by decide) (by simp) (by simp), AnnotationUse.wellFormed_rich h, by simp⟩

theorem carried_richlyAnnotated (value : AnnotationValue) :
    (richlyAnnotated value).carried {} = [.rich value] := by
  have hmarker : ({} : Settings).isOwn "factoria.annotations.Unbound" = true := by decide
  have hrich : ({} : Settings).isOwn "lang.Rich" = false := by decide
  simp [carried, richlyAnnotated, withAnnotation, parameter, named, AnnotationUse.rich, hmarker,
    hrich]

theorem carriedAnnotations_unambiguous_int_long :
    (richlyAnnotated (.int 1)).carriedAnnotations {} =
        "@lang.Rich(value=@lang.Label(1), " ++
          "value=\x7b\"a\\\", 'b\\\\\", '\\'', lang.Mode.ON, int.class\x7d)" ∧
      (richlyAnnotated (.int 1)).carriedAnnotations {} ≠
        (richlyAnnotated (.long 1)).carriedAnnotations {} := by
  have hsame := (carriedAnnotations_unambiguous (s := {}) (wellFormed_richlyAnnotated (.int 1))
    (wellFormed_richlyAnnotated (.long 1))).1
  refine ⟨by decide, ?_⟩
  rw [ne_eq, hsame, carried_richlyAnnotated, carried_richlyAnnotated]
  simp [AnnotationUse.rich]

end Element

/-! ## Leaving annotations out -/

namespace Text

theorem length_join_blank (texts : List String) :
    (String.join (texts.map fun text => " " ++ text)).length =
      (texts.map fun text => text.length + 1).sum := by
  induction texts with
  | nil => rfl
  | cons text texts ih =>
      rw [List.map_cons, String.join_cons, String.length_append, ih, String.length_append,
        List.map_cons, List.sum_cons]
      have hblank : " ".length = 1 := rfl
      omega

theorem length_intercalate_blank (texts : List String) :
    (" ".intercalate texts).length = (texts.map fun text => text.length + 1).sum - 1 := by
  cases texts with
  | nil => rfl
  | cons text texts =>
      rw [intercalate_cons_eq_join, String.length_append, length_join_blank, List.map_cons,
        List.sum_cons]
      omega

end Text

namespace AnnotationUse

theorem length_source_pos (use : AnnotationUse) : 0 < use.source.length := by
  obtain ⟨chars, hsource⟩ := use.exists_toList_source
  rw [← String.length_toList, hsource]
  exact Nat.succ_pos _

/-- An annotation that is left out takes a blank and one more character with it. -/
theorem eq_or_sum_add_two_le {uses all : List AnnotationUse} (h : uses.Sublist all) :
    uses = all ∨ (uses.map fun use => use.source.length + 1).sum + 2 ≤
      (all.map fun use => use.source.length + 1).sum := by
  induction h with
  | slnil => exact .inl rfl
  | @cons uses all use _ ih =>
      have hpos := use.length_source_pos
      rw [List.map_cons, List.sum_cons]
      rcases ih with rfl | hless
      · right
        omega
      · right
        omega
  | @cons_cons uses all use _ ih =>
      rw [List.map_cons, List.map_cons, List.sum_cons, List.sum_cons]
      rcases ih with rfl | hless
      · exact .inl rfl
      · right
        omega

/-- No annotation can be left out of a text of annotations without changing it. -/
theorem eq_of_sublist_of_intercalate_eq {uses all : List AnnotationUse} (h : uses.Sublist all)
    (htext : " ".intercalate (uses.map source) = " ".intercalate (all.map source)) :
    uses = all := by
  have hlength := congrArg String.length htext
  rw [Text.length_intercalate_blank, Text.length_intercalate_blank, List.map_map, List.map_map]
    at hlength
  simp only [Function.comp_def] at hlength
  rcases eq_or_sum_add_two_le h with hsame | hless
  · exact hsame
  · omega

end AnnotationUse

namespace Element

theorem carriedAnnotations_eq_empty_iff {s : Settings} {e : Element} :
    e.carriedAnnotations s = "" ↔ e.carried s = [] := by
  rw [carriedAnnotations_eq]
  constructor
  · intro h
    exact (AnnotationUse.eq_of_sublist_of_intercalate_eq (List.nil_sublist _) (by rw [h]; rfl)).symm
  · intro h
    rw [h]
    rfl

end Element

end CompanionFactory
