import CompanionFactory.File.Path
import Mathlib.Data.List.DropRight

/-!
# The paths of names

The path of a name is put together part by part, and a file system takes it apart again at the
slashes.  Where the path begins and which components it has:

* `Path.startsWith_push`, `Path.components_push`: a part that does not begin with a slash adds its
  components to those of any path, and changes nothing else;
* `Path.startsWith_parent`, `Path.components_parent`: the parent begins where the path begins and
  has the components up to the last slash;
* `Path.components_ofName`: the components of a root, then those of the parts of a name, of which
  no part begins with a slash;
* `Path.Separable.components_ofName`, `Path.Separable.components_parent_ofName`: where no part has a
  slash, every part is one component;
* `Path.eq_of_parts_eq`: two names never have the same parts.
-/

namespace CompanionFactory

/-! ## Components -/

/-- The text stands for one component of a path, which leads down. -/
structure Path.IsComponent (part : String) : Prop where
  ne_empty : part ≠ ""
  ne_dot : part ≠ "."
  ne_up : part ≠ ".."
  slash_notMem : '/' ∉ part.toList

namespace Path

variable {path part : String}

theorem components_append (first second : List Char) :
    components (first ++ '/' :: second) = components first ++ components second := by
  rw [components, List.splitOn_append_cons_self, List.map_append, List.filter_append]
  rfl

theorem components_nil : components [] = [] := rfl

theorem components_append_slash (path : List Char) :
    components (path ++ ['/']) = components path := by
  rw [components_append, components_nil, List.append_nil]

theorem IsComponent.components_eq (h : IsComponent part) : components part.toList = [part] := by
  rw [components, List.splitOn_eq_singleton h.slash_notMem]
  simp [h.ne_empty, h.ne_dot]

/-- Slashes at the end of a path name nothing. -/
theorem components_rdropWhile (path : List Char) :
    components (path.rdropWhile (· = '/')) = components path := by
  induction path using List.reverseRecOn with
  | nil => rfl
  | append_singleton path c ih =>
      by_cases hc : c = '/'
      · subst hc
        rw [List.rdropWhile_concat_pos _ _ _ (by simp), ih, components_append_slash]
      · rw [List.rdropWhile_concat_neg _ _ _ (by simpa using hc)]

theorem startsWith_slash_iff {text : String} :
    Text.startsWith text "/" = true ↔ text.toList.head? = some '/' := by
  rw [Text.startsWith_iff]
  cases htext : text.toList with
  | nil => simp
  | cons c cs => simp [eq_comm]

theorem startsWith_congr {text other : String} (h : text.toList.head? = other.toList.head?) :
    Text.startsWith text "/" = Text.startsWith other "/" := by
  rw [Bool.eq_iff_iff, startsWith_slash_iff, startsWith_slash_iff, h]

theorem startsWith_of_slash_notMem (h : '/' ∉ part.toList) : Text.startsWith part "/" = false := by
  refine Bool.eq_false_iff.mpr fun hstarts => h ?_
  exact List.mem_of_mem_head? (startsWith_slash_iff.mp hstarts)

/-- Every character of a part is found again in the parts as they are joined by anything. -/
theorem mem_intercalate {separator : String} {parts : List String} {c : Char}
    (hpart : part ∈ parts) (hc : c ∈ part.toList) : c ∈ (separator.intercalate parts).toList := by
  induction parts with
  | nil => exact absurd hpart List.not_mem_nil
  | cons first rest ih =>
      cases rest with
      | nil =>
          obtain rfl := List.mem_singleton.mp hpart
          simpa using hc
      | cons second rest =>
          rw [String.intercalate_cons_cons, String.toList_append, List.mem_append,
            String.toList_append, List.mem_append]
          rcases List.mem_cons.mp hpart with rfl | hpart
          · exact .inl (.inl hc)
          · exact .inr (ih hpart)

/-! ## Joining -/

/-- The slash that joining puts between a path and a relative part, if any. -/
def separator (path : String) : String :=
  if path = "" ∨ path.toList.getLast? = some '/' then "" else "/"

theorem push_of_absolute (h : Text.startsWith part "/" = true) (path : String) :
    push path part = part := by
  simp [push, h]

theorem push_of_relative (h : Text.startsWith part "/" = false) (path : String) :
    push path part = path ++ separator path ++ part := by
  by_cases hends : path = "" ∨ path.toList.getLast? = some '/'
  · simp [push, separator, h, hends]
  · simp [push, separator, h, hends]

theorem push_empty_left (part : String) : push "" part = part := by
  cases h : Text.startsWith part "/" with
  | true => exact push_of_absolute h ""
  | false => simp [push_of_relative h, separator]

theorem startsWith_append (hpath : path ≠ "") (rest : String) :
    Text.startsWith (path ++ rest) "/" = Text.startsWith path "/" := by
  apply startsWith_congr
  rw [String.toList_append]
  cases hchars : path.toList with
  | nil => exact absurd (String.toList_eq_nil_iff.mp hchars) hpath
  | cons c cs => rfl

theorem startsWith_push (path part : String) :
    Text.startsWith (push path part) "/" =
      (Text.startsWith part "/" || Text.startsWith path "/") := by
  cases h : Text.startsWith part "/" with
  | true => rw [push_of_absolute h, h, Bool.true_or]
  | false =>
      by_cases hpath : path = ""
      · subst hpath
        rw [push_empty_left, h]
        rfl
      · rw [push_of_relative h, String.append_assoc, startsWith_append hpath, Bool.false_or]

/-- Behind a path and its separator no further one is needed. -/
theorem separator_append_separator (path : String) : separator (path ++ separator path) = "" := by
  by_cases hends : path = "" ∨ path.toList.getLast? = some '/'
  · simp [separator, hends]
  · simp [separator, hends]

theorem components_append_separator (path : String) :
    components (path ++ separator path).toList = components path.toList := by
  by_cases hends : path = "" ∨ path.toList.getLast? = some '/'
  · simp [separator, hends]
  · rw [separator, if_neg hends, String.toList_append]
    exact components_append_slash path.toList

theorem mem_push {c : Char} (h : c ∈ (push path part).toList) :
    c ∈ path.toList ∨ c ∈ part.toList ∨ c = '/' := by
  unfold push at h
  split at h
  · exact .inr (.inl h)
  · split at h
    · simpa [or_assoc] using (List.mem_append.mp (String.toList_append ▸ h)).imp id .inl
    · simp only [String.toList_append, List.mem_append, or_assoc] at h
      rcases h with h | h | h
      · exact .inl h
      · exact .inr (.inr (by simpa using h))
      · exact .inr (.inl h)

theorem mem_foldl_push {parts : List String} {path : String} {c : Char}
    (h : c ∈ (parts.foldl push path).toList) :
    c ∈ path.toList ∨ (∃ part ∈ parts, c ∈ part.toList) ∨ c = '/' := by
  induction parts generalizing path with
  | nil => exact .inl h
  | cons part parts ih =>
      rcases ih h with hpath | ⟨other, hother, hc⟩ | hslash
      · rcases mem_push hpath with hpath | hpart | hslash
        · exact .inl hpath
        · exact .inr (.inl ⟨part, List.mem_cons_self, hpart⟩)
        · exact .inr (.inr hslash)
      · exact .inr (.inl ⟨other, List.mem_cons_of_mem part hother, hc⟩)
      · exact .inr (.inr hslash)

theorem components_push (h : Text.startsWith part "/" = false) (path : String) :
    components (push path part).toList = components path.toList ++ components part.toList := by
  rw [push_of_relative h]
  by_cases hpath : path = ""
  · subst hpath
    rfl
  · by_cases hlast : path.toList.getLast? = some '/'
    · have hnone : separator path = "" := if_pos (.inr hlast)
      obtain ⟨trunk, htrunk⟩ := List.getLast?_eq_some_iff.mp hlast
      rw [hnone, String.append_empty, String.toList_append, htrunk, components_append_slash,
        List.append_assoc, List.singleton_append, components_append]
    · simp [separator, hpath, hlast, components_append]

theorem components_foldl_push {parts : List String}
    (h : ∀ part ∈ parts, Text.startsWith part "/" = false) (path : String) :
    components (parts.foldl push path).toList =
      components path.toList ++ parts.flatMap fun part => components part.toList := by
  induction parts generalizing path with
  | nil => simp
  | cons part parts ih =>
      obtain ⟨hpart, hparts⟩ := List.forall_mem_cons.mp h
      rw [List.foldl_cons, ih hparts, components_push hpart, List.append_assoc, List.flatMap_cons]

theorem startsWith_foldl_push (parts : List String) (path : String) :
    Text.startsWith (parts.foldl push path) "/" =
      (Text.startsWith path "/" || parts.any fun part => Text.startsWith part "/") := by
  induction parts generalizing path with
  | nil => simp
  | cons part parts ih =>
      rw [List.foldl_cons, ih, startsWith_push, List.any_cons, Bool.or_right_comm, Bool.or_comm,
        Bool.or_left_comm]

/-! ## The parent -/

theorem parent_eq (path : String) :
    parent path =
      if (path.toList.rdropWhile (· ≠ '/')).rdropWhile (· = '/') = [] ∧
          Text.startsWith path "/" = true then "/"
      else String.ofList ((path.toList.rdropWhile (· ≠ '/')).rdropWhile (· = '/')) := by
  simp [parent, List.rdropWhile]

/-- The parent is written with the beginning of the path. -/
theorem parent_prefix (path : String) : (parent path).toList <+: path.toList := by
  rw [parent_eq]
  split
  · next h => exact Text.startsWith_iff.mp h.2
  · rw [String.toList_ofList]
    exact (List.rdropWhile_prefix _ _).trans (List.rdropWhile_prefix _ _)

theorem startsWith_of_parent_eq_empty {path : String} (h : parent path = "") :
    Text.startsWith path "/" = false := by
  rw [parent_eq] at h
  split at h
  · exact absurd h (by decide)
  · next hrooted =>
      have hrest := congrArg String.toList h
      rw [String.toList_ofList] at hrest
      exact Bool.eq_false_iff.mpr fun hpath => hrooted ⟨hrest, hpath⟩

theorem startsWith_parent (path : String) :
    Text.startsWith (parent path) "/" = Text.startsWith path "/" := by
  cases hparent : (parent path).toList with
  | nil =>
      have hempty : parent path = "" := String.toList_eq_nil_iff.mp hparent
      rw [startsWith_of_parent_eq_empty hempty, hempty]
      rfl
  | cons c cs =>
      apply startsWith_congr
      obtain ⟨rest, hrest⟩ := parent_prefix path
      rw [← hrest, hparent]
      rfl

/-- The parent names what the path names up to its last slash. -/
theorem components_parent (path : String) :
    components (parent path).toList = components (path.toList.rdropWhile (· ≠ '/')) := by
  rw [parent_eq]
  split
  · next h =>
      rw [← components_rdropWhile (path.toList.rdropWhile (· ≠ '/')), h.1]
      rfl
  · rw [String.toList_ofList, components_rdropWhile]

theorem exists_components_eq_append (path : List Char) :
    ∃ rest, components path = components (path.rdropWhile (· ≠ '/')) ++ rest := by
  by_cases hkept : path.rdropWhile (· ≠ '/') = []
  · exact ⟨components path, by rw [hkept]; rfl⟩
  · -- What is kept ends at the last slash.
    obtain ⟨last, hlast⟩ := List.rdropWhile_prefix (· ≠ '/') path
    have hends := List.dropLast_concat_getLast hkept
    have hslash : (path.rdropWhile (· ≠ '/')).getLast hkept = '/' := by
      simpa using List.rdropWhile_last_not (· ≠ '/') path hkept
    rw [hslash] at hends
    refine ⟨components last, ?_⟩
    have hpath : path = (path.rdropWhile (· ≠ '/')).dropLast ++ '/' :: last := by
      rw [List.append_cons, hends, hlast]
    rw [← hends, components_append_slash, ← components_append, ← hpath]

/-- A path and its separator end with a slash, unless the path is empty. -/
theorem rdropWhile_append_separator (path : String) :
    (path ++ separator path).toList.rdropWhile (· ≠ '/') = (path ++ separator path).toList := by
  refine List.rdropWhile_eq_self_iff.mpr fun hne => ?_
  have hlast : (path ++ separator path).toList.getLast? = some '/' := by
    by_cases hends : path = "" ∨ path.toList.getLast? = some '/'
    · have hpath : path ≠ "" := by
        rintro rfl
        exact hne rfl
      simpa [separator, hends] using hends.resolve_left hpath
    · simp [separator, hends]
  rw [List.getLast?_eq_some_getLast hne] at hlast
  rw [Option.some.inj hlast]
  decide

/-- The parent of a path with one more component has the components of the path. -/
theorem components_parent_push (h : IsComponent part) (path : String) :
    components (parent (push path part)).toList = components path.toList := by
  have hpart : ∀ c ∈ part.toList.reverse, decide (c ≠ '/') = true := fun c hc =>
    decide_eq_true fun hslash => h.slash_notMem (hslash ▸ List.mem_reverse.mp hc)
  have hpush : (push path part).toList = (path ++ separator path).toList ++ part.toList := by
    rw [push_of_relative (startsWith_of_slash_notMem h.slash_notMem), String.toList_append]
  have hfront : (push path part).toList.rdropWhile (· ≠ '/') = (path ++ separator path).toList := by
    rw [hpush, List.rdropWhile, List.reverse_append, List.dropWhile_append_of_pos hpart]
    exact rdropWhile_append_separator path
  rw [components_parent, hfront, components_append_separator]

end Path

/-! ## Names -/

namespace Text

theorem segments_ne_nil (name : String) : segments name ≠ [] := by
  simp [segments, List.splitOn_ne_nil]

theorem notMem_of_mem_splitOn {c : Char} {text part : List Char} (h : part ∈ text.splitOn c) :
    c ∉ part := by
  induction text generalizing part with
  | nil =>
      obtain rfl : part = [] := by simpa using h
      exact List.not_mem_nil
  | cons d text ih =>
      rw [List.splitOn_cons_eq_if_modifyHead] at h
      split at h
      · rcases List.mem_cons.mp h with rfl | h
        · exact List.not_mem_nil
        · exact ih h
      · next hd =>
          obtain ⟨first, rest, hsplit⟩ := List.exists_cons_of_ne_nil (List.splitOn_ne_nil c text)
          rw [hsplit, List.modifyHead_cons] at h
          rcases List.mem_cons.mp h with rfl | h
          · have hne : c ≠ d := fun hcd => hd (beq_iff_eq.mpr hcd.symm)
            have hfirst : c ∉ first := ih (hsplit ▸ List.mem_cons_self)
            simpa [hne] using hfirst
          · exact ih (hsplit ▸ List.mem_cons_of_mem first h)

theorem dot_notMem_of_mem_segments {name segment : String} (h : segment ∈ segments name) :
    '.' ∉ segment.toList := by
  obtain ⟨part, hpart, rfl⟩ := List.mem_map.mp h
  rw [String.toList_ofList]
  exact notMem_of_mem_splitOn hpart

end Text

namespace Path

/-- The directories that a name leads through. -/
def directories (name : String) : List String :=
  (Text.segments name).dropLast

/-- The file that a name leads to. -/
def fileName (name : String) : String :=
  (Text.segments name).getLastD "" ++ ".java"

theorem ofName_eq (root name : String) :
    ofName root name = push ((directories name).foldl push root) (fileName name) := rfl

theorem mem_segments_of_mem_directories {name directory : String}
    (h : directory ∈ directories name) : directory ∈ Text.segments name :=
  List.dropLast_subset _ h

theorem dot_mem_fileName (name : String) : '.' ∈ (fileName name).toList := by
  simp [fileName]

theorem dot_notMem_directory {name directory : String} (h : directory ∈ directories name) :
    '.' ∉ directory.toList :=
  Text.dot_notMem_of_mem_segments (mem_segments_of_mem_directories h)

theorem directories_append_last (name : String) :
    directories name ++ [(Text.segments name).getLastD ""] = Text.segments name := by
  have hsegments := Text.segments_ne_nil name
  rw [directories, List.getLastD_eq_getLast?, List.getLast?_eq_getLast_of_ne_nil hsegments]
  exact List.dropLast_concat_getLast hsegments

theorem last_mem_segments (name : String) :
    (Text.segments name).getLastD "" ∈ Text.segments name := by
  have hlast := List.mem_append_right (directories name)
    (List.mem_singleton_self ((Text.segments name).getLastD ""))
  rwa [directories_append_last] at hlast

/-- A name is found again from its directories and its file. -/
theorem eq_of_parts_eq {name other : String}
    (h : directories name ++ [fileName name] = directories other ++ [fileName other]) :
    name = other := by
  obtain ⟨hdirectories, hfile⟩ := List.append_inj' h rfl
  have hlast : (Text.segments name).getLastD "" = (Text.segments other).getLastD "" := by
    have hchars := congrArg String.toList (List.cons.inj hfile).1
    simp only [fileName, String.toList_append] at hchars
    exact String.toList_injective (List.append_cancel_right hchars)
  rw [← Text.intercalate_segments name, ← Text.intercalate_segments other,
    ← directories_append_last name, ← directories_append_last other, hdirectories, hlast]

/-- No part of the name begins with a slash. -/
def Unrooted (name : String) : Prop :=
  ∀ segment ∈ Text.segments name, Text.startsWith segment "/" = false

/-- No part of the name is empty or has a slash in it. -/
def Separable (name : String) : Prop :=
  ∀ segment ∈ Text.segments name, segment ≠ "" ∧ '/' ∉ segment.toList

instance (name : String) : Decidable (Unrooted name) :=
  inferInstanceAs (Decidable (∀ segment ∈ Text.segments name, _))

instance (name : String) : Decidable (Separable name) :=
  inferInstanceAs (Decidable (∀ segment ∈ Text.segments name, _))

variable {name : String}

theorem startsWith_fileName (name : String) :
    Text.startsWith (fileName name) "/" =
      Text.startsWith ((Text.segments name).getLastD "") "/" := by
  by_cases hlast : (Text.segments name).getLastD "" = ""
  · rw [fileName, hlast]
    decide
  · rw [fileName, startsWith_append hlast]

theorem Unrooted.startsWith_directory (h : Unrooted name) {directory : String}
    (hdirectory : directory ∈ directories name) : Text.startsWith directory "/" = false :=
  h directory (mem_segments_of_mem_directories hdirectory)

theorem Unrooted.startsWith_fileName (h : Unrooted name) :
    Text.startsWith (fileName name) "/" = false := by
  rw [Path.startsWith_fileName]
  exact h _ (last_mem_segments name)

/-- The path of a name begins where its root begins. -/
theorem startsWith_ofName (h : Unrooted name) (root : String) :
    Text.startsWith (ofName root name) "/" = Text.startsWith root "/" := by
  have hnone : ((directories name).any fun part => Text.startsWith part "/") = false :=
    List.any_eq_false.mpr fun _ hdirectory => by simp [h.startsWith_directory hdirectory]
  rw [ofName_eq, startsWith_push, startsWith_foldl_push, h.startsWith_fileName, hnone,
    Bool.false_or, Bool.or_false]

theorem components_ofName (h : Unrooted name) (root : String) :
    components (ofName root name).toList = components root.toList ++
      (((directories name).flatMap fun directory => components directory.toList) ++
        components (fileName name).toList) := by
  rw [ofName_eq, components_push h.startsWith_fileName,
    components_foldl_push fun _ hdirectory => h.startsWith_directory hdirectory, List.append_assoc]

namespace Separable

theorem unrooted (h : Separable name) : Unrooted name :=
  fun segment hsegment => startsWith_of_slash_notMem (h segment hsegment).2

theorem isComponent_directory (h : Separable name) {directory : String}
    (hdirectory : directory ∈ directories name) : IsComponent directory := by
  obtain ⟨hne, hslash⟩ := h directory (mem_segments_of_mem_directories hdirectory)
  have hdot := dot_notMem_directory hdirectory
  refine ⟨hne, ?_, ?_, hslash⟩
  · rintro rfl
    exact hdot (by decide)
  · rintro rfl
    exact hdot (by decide)

theorem up_notMem_directories (h : Separable name) : ".." ∉ directories name :=
  fun hup => (h.isComponent_directory hup).ne_up rfl

theorem isComponent_fileName (h : Separable name) : IsComponent (fileName name) := by
  have hslash := (h _ (last_mem_segments name)).2
  have hlength : 5 ≤ (fileName name).toList.length := by simp [fileName]
  refine ⟨?_, ?_, ?_, by simpa [fileName] using hslash⟩
  · intro hempty
    simp [hempty] at hlength
  · intro hdot
    simp [hdot] at hlength
  · intro hup
    simp [hup] at hlength

theorem flatMap_components_directories (h : Separable name) :
    ((directories name).flatMap fun directory => components directory.toList) =
      directories name := by
  have hone : ∀ directory ∈ directories name, components directory.toList = [directory] :=
    fun directory hdirectory => (h.isComponent_directory hdirectory).components_eq
  rw [List.flatMap_congr hone, List.flatMap_singleton']

theorem components_ofName (h : Separable name) (root : String) :
    components (ofName root name).toList =
      components root.toList ++ (directories name ++ [fileName name]) := by
  rw [Path.components_ofName h.unrooted, h.flatMap_components_directories,
    h.isComponent_fileName.components_eq]

theorem components_parent_ofName (h : Separable name) (root : String) :
    components (parent (ofName root name)).toList =
      components root.toList ++ directories name := by
  rw [ofName_eq, components_parent_push h.isComponent_fileName,
    components_foldl_push fun _ hdirectory => h.unrooted.startsWith_directory hdirectory,
    h.flatMap_components_directories]

end Separable

end Path

end CompanionFactory
