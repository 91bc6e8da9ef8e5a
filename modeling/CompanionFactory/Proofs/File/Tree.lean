import CompanionFactory.File.Tree
import CompanionFactory.Proofs.File.Path
import Mathlib.Data.List.Induction

/-!
# Making directories

Where paths lead in a tree of files, and what making directories does to it.  It leaves the files
alone and adds directories only on the way of the path.  When it goes well, the way is there from
then on (`FileTree.Leads`), and to make it again changes nothing.

* `FileTree.ensure_spec` says all that making one directory does;
* `FileTree.makeBelow_append`: a way is made piece by piece;
* `FileTree.leads_makeBelow`, `FileTree.makeBelow_of_leads`: a way that was made once is there, and
  one that is there need not be made;
* `FileTree.makeBelow_answer`: what has to hold for a way down to be made;
* `FileTree.Sound.below_eq_none`: where there is no directory, there is nothing below.
-/

namespace CompanionFactory

/-! ## Locations -/

namespace Location

theorem down_nil (base : Location) : base.down [] = base := by
  simp [down]

theorem down_down (base : Location) (first second : List String) :
    (base.down first).down second = base.down (first ++ second) := by
  simp [down]

theorem down_inj {base : Location} {first second : List String} :
    base.down first = base.down second ↔ first = second := by
  simp [down]

theorem up_down_append_singleton (base : Location) (parts : List String) (part : String) :
    (base.down (parts ++ [part])).up = base.down parts := by
  simp [down, up, ← List.append_assoc]

theorem follow_append (here : Location) (first second : List String) :
    here.follow (first ++ second) = (here.follow first).follow second :=
  List.foldl_append

/-- Components of which none leads up lead down. -/
theorem follow_eq_down {parts : List String} (h : ".." ∉ parts) (here : Location) :
    here.follow parts = here.down parts := by
  induction parts generalizing here with
  | nil => exact (down_nil here).symm
  | cons part parts ih =>
      rw [List.mem_cons, not_or] at h
      obtain ⟨hpart, hparts⟩ := h
      rw [follow, List.foldl_cons, ← follow, ih hparts, enter, if_neg (Ne.symm hpart), down_down]
      rfl

theorem isSome_below?_iff {base location : Location} :
    (Location.below? base location).isSome = true ↔
      ∃ parts, parts ≠ [] ∧ location = base.down parts := by
  have hbelow : (Location.below? base location).isSome = true ↔
      base.components <+: location.components ∧ location.components ≠ base.components := by
    simp [Location.below?, List.isPrefixOf_iff_prefix]
  rw [hbelow]
  constructor
  · rintro ⟨⟨parts, hparts⟩, hne⟩
    refine ⟨parts, ?_, by rw [Location.down, hparts]⟩
    rintro rfl
    exact hne (by rw [← hparts, List.append_nil])
  · rintro ⟨parts, hne, rfl⟩
    exact ⟨List.prefix_append _ _, by simpa [Location.down] using hne⟩

theorem below?_eq_none_iff {base location : Location} :
    Location.below? base location = none ↔ ∀ parts, location = base.down parts → parts = [] := by
  rw [← Option.not_isSome_iff_eq_none, isSome_below?_iff]
  simp only [not_exists, not_and]
  exact forall_congr' fun parts => ⟨not_imp_not.mp, mt⟩

theorem below?_down (base : Location) {parts : List String} (h : parts ≠ []) :
    Location.below? base (base.down parts) = some ("/".intercalate parts) := by
  simp [Location.below?, down, h]

end Location

/-! ## Paths that can be used -/

theorem pathObstacle?_eq_none_iff {path : String} :
    pathObstacle? path = none ↔ '\x00' ∉ path.toList ∧ path.utf8ByteSize ≤ longestPath := by
  unfold pathObstacle?
  by_cases hzero : '\x00' ∈ path.toList
  · simp [hzero]
  · simp [hzero]

/-- What the system takes as a path it takes also without its end. -/
theorem pathObstacle?_of_prefix {path beginning : String} (h : pathObstacle? path = none)
    (hbeginning : beginning.toList <+: path.toList) : pathObstacle? beginning = none := by
  rw [pathObstacle?_eq_none_iff] at h ⊢
  obtain ⟨rest, hrest⟩ := hbeginning
  have hpath : path = beginning ++ String.ofList rest := by
    apply String.toList_injective
    simp [hrest]
  refine ⟨fun hzero => h.1 (hrest ▸ List.mem_append_left rest hzero), ?_⟩
  rw [hpath, String.utf8ByteSize_append] at h
  omega

namespace FileTree

/-! ## Where paths lead -/

theorem locate_congr {t other : FileTree} (h : t.workingDirectory = other.workingDirectory)
    {path : String} : t.locate path = other.locate path := by
  rw [locate, locate, origin, origin, h]

/-! ## Making one directory -/

/-- What holds of the tree `after` in which there is a directory where a component leads. -/
structure Ensured (t : FileTree) (here : Location) (component : String) (after : FileTree) :
    Prop where
  files_eq : after.files = t.files
  workingDirectory_eq : after.workingDirectory = t.workingDirectory
  directories_eq : after.directories = t.directories ∨
    after.directories = t.directories ++ [here.enter component]
  passes : component = ".." ∨ after.hasDirectory (here.enter component) = true

theorem hasDirectory_iff {t : FileTree} {location : Location} :
    t.hasDirectory location = true ↔ location.components = [] ∨ location ∈ t.directories := by
  simp [hasDirectory]

theorem hasFile_iff {t : FileTree} {location : Location} :
    t.hasFile location = true ↔ ∃ file ∈ t.files, file.1 = location := by
  simp [hasFile]

theorem ensure_spec {t after : FileTree} {here : Location} {component : String}
    (h : t.ensure here component = .ok after) : Ensured t here component after := by
  simp only [ensure] at h
  split at h
  · next hpasses =>
      cases h
      exact ⟨rfl, rfl, .inl rfl, hpasses⟩
  · split at h
    · cases h
    · split at h
      · cases h
      · cases h
        refine ⟨rfl, rfl, .inr rfl, .inr (hasDirectory_iff.mpr (.inr ?_))⟩
        exact List.mem_append_right _ (List.mem_singleton_self _)

theorem ensure_of_passes {t : FileTree} {here : Location} {component : String}
    (h : component = ".." ∨ t.hasDirectory (here.enter component) = true) :
    t.ensure here component = .ok t := by
  rw [ensure, if_pos h]

/-- A short component whose place no file has can be made a directory. -/
theorem exists_ensure_eq_ok {t : FileTree} {here : Location} {component : String}
    (hshort : component.utf8ByteSize ≤ longestComponent)
    (hfree : t.hasFile (here.enter component) = false) :
    ∃ after, t.ensure here component = .ok after := by
  simp only [ensure]
  split
  · exact ⟨_, rfl⟩
  · rw [if_neg (Nat.not_lt.mpr hshort), hfree]
    exact ⟨_, rfl⟩

theorem Ensured.hasDirectory {t after : FileTree} {here location : Location} {component : String}
    (h : Ensured t here component after) (hlocation : t.hasDirectory location = true) :
    after.hasDirectory location = true := by
  rw [hasDirectory_iff] at hlocation ⊢
  refine hlocation.imp_right fun hmem => ?_
  rcases h.directories_eq with hsame | hgrown
  · rwa [hsame]
  · rw [hgrown]
    exact List.mem_append_left _ hmem

/-! ## Making all directories on a way -/

theorem makeBelow_cons_ok {t grown : FileTree} {here : Location} {component : String}
    (h : t.ensure here component = .ok grown) (rest : List String) :
    t.makeBelow here (component :: rest) = grown.makeBelow (here.enter component) rest := by
  rw [makeBelow, h]

theorem makeBelow_cons_error {t : FileTree} {here : Location} {component : String}
    {fault : FileFault} (h : t.ensure here component = .error fault) (rest : List String) :
    t.makeBelow here (component :: rest) = (t, .error fault) := by
  rw [makeBelow, h]

/-- Making directories changes nothing but the directories. -/
theorem makeBelow_frame (t : FileTree) (here : Location) (parts : List String) :
    (t.makeBelow here parts).1.files = t.files ∧
      (t.makeBelow here parts).1.workingDirectory = t.workingDirectory := by
  induction parts generalizing t here with
  | nil => exact ⟨rfl, rfl⟩
  | cons part parts ih =>
      cases hensure : t.ensure here part with
      | error fault =>
          rw [makeBelow_cons_error hensure]
          exact ⟨rfl, rfl⟩
      | ok grown =>
          rw [makeBelow_cons_ok hensure, (ih grown _).1, (ih grown _).2]
          exact ⟨(ensure_spec hensure).files_eq, (ensure_spec hensure).workingDirectory_eq⟩

theorem makeDirectories_frame (t : FileTree) (path : String) :
    (t.makeDirectories path).1.files = t.files ∧
      (t.makeDirectories path).1.workingDirectory = t.workingDirectory := by
  unfold makeDirectories
  split
  · exact ⟨rfl, rfl⟩
  · exact makeBelow_frame _ _ _

/-- A directory is only made on the way. -/
theorem mem_directories_makeBelow {t : FileTree} {here location : Location} {parts : List String}
    (h : location ∈ (t.makeBelow here parts).1.directories) :
    location ∈ t.directories ∨ ∃ way, way <+: parts ∧ location = here.follow way := by
  induction parts generalizing t here with
  | nil => exact .inl h
  | cons part parts ih =>
      cases hensure : t.ensure here part with
      | error fault =>
          rw [makeBelow_cons_error hensure] at h
          exact .inl h
      | ok grown =>
          rw [makeBelow_cons_ok hensure] at h
          rcases ih h with hgrown | ⟨way, hway, rfl⟩
          · rcases (ensure_spec hensure).directories_eq with hsame | hnew
            · exact .inl (hsame ▸ hgrown)
            · rw [hnew, List.mem_append, List.mem_singleton] at hgrown
              exact hgrown.imp_right fun heq => ⟨[part], ⟨parts, rfl⟩, heq⟩
          · exact .inr ⟨part :: way, (List.prefix_cons_inj part).mpr hway, rfl⟩

/-- The path leads through the location. -/
def Passes (t : FileTree) (path : String) (location : Location) : Prop :=
  ∃ way, way <+: Path.components path.toList ∧ location = (t.origin path).follow way

theorem mem_directories_makeDirectories {t : FileTree} {path : String} {location : Location}
    (h : location ∈ (t.makeDirectories path).1.directories) :
    location ∈ t.directories ∨ t.Passes path location := by
  unfold makeDirectories at h
  split at h
  · exact .inl h
  · exact mem_directories_makeBelow h

/-- What the parent of a path leads through the path leads through. -/
theorem passes_of_passes_parent {t : FileTree} {path : String} {location : Location}
    (h : t.Passes (Path.parent path) location) : t.Passes path location := by
  obtain ⟨way, hway, rfl⟩ := h
  obtain ⟨rest, hrest⟩ := Path.exists_components_eq_append path.toList
  refine ⟨way, ?_, by rw [origin, origin, Path.startsWith_parent]⟩
  rw [hrest, ← Path.components_parent]
  exact hway.trans (List.prefix_append _ _)

theorem hasDirectory_makeBelow {t : FileTree} {location : Location}
    (h : t.hasDirectory location = true) (here : Location) (parts : List String) :
    (t.makeBelow here parts).1.hasDirectory location = true := by
  induction parts generalizing t here with
  | nil => exact h
  | cons part parts ih =>
      cases hensure : t.ensure here part with
      | error fault => rwa [makeBelow_cons_error hensure]
      | ok grown =>
          rw [makeBelow_cons_ok hensure]
          exact ih ((ensure_spec hensure).hasDirectory h) _

/-- Behind a first piece that could be made, the second piece is made. -/
theorem makeBelow_append {t : FileTree} {here : Location} {first : List String}
    (h : (t.makeBelow here first).2 = .ok ()) (second : List String) :
    t.makeBelow here (first ++ second) =
      (t.makeBelow here first).1.makeBelow (here.follow first) second := by
  induction first generalizing t here with
  | nil => rfl
  | cons part first ih =>
      cases hensure : t.ensure here part with
      | error fault =>
          rw [makeBelow_cons_error hensure] at h
          cases h
      | ok grown =>
          rw [makeBelow_cons_ok hensure] at h
          rw [List.cons_append, makeBelow_cons_ok hensure, makeBelow_cons_ok hensure, ih h]
          rfl

/-- Wherever the components lead, there is a directory. -/
def Leads (t : FileTree) (here : Location) : List String → Prop
  | [] => True
  | component :: rest =>
      (component = ".." ∨ t.hasDirectory (here.enter component) = true) ∧
        t.Leads (here.enter component) rest

theorem Leads.mono {t grown : FileTree} {here : Location} {parts : List String}
    (hgrown : ∀ location, t.hasDirectory location = true → grown.hasDirectory location = true)
    (h : t.Leads here parts) : grown.Leads here parts := by
  induction parts generalizing here with
  | nil => trivial
  | cons part parts ih => exact ⟨h.1.imp_right (hgrown _), ih h.2⟩

theorem leads_makeBelow {t : FileTree} {here : Location} {parts : List String}
    (h : (t.makeBelow here parts).2 = .ok ()) : (t.makeBelow here parts).1.Leads here parts := by
  induction parts generalizing t here with
  | nil => trivial
  | cons part parts ih =>
      cases hensure : t.ensure here part with
      | error fault =>
          rw [makeBelow_cons_error hensure] at h
          cases h
      | ok grown =>
          rw [makeBelow_cons_ok hensure] at h ⊢
          refine ⟨(ensure_spec hensure).passes.imp_right fun hpart => ?_, ih h⟩
          exact hasDirectory_makeBelow hpart _ _

theorem makeBelow_of_leads {t : FileTree} {here : Location} {parts : List String}
    (h : t.Leads here parts) : t.makeBelow here parts = (t, .ok ()) := by
  induction parts generalizing here with
  | nil => rfl
  | cons part parts ih => rw [makeBelow_cons_ok (ensure_of_passes h.1), ih h.2]

/-- A way down can be made when its components are short and no file stands on it. -/
theorem makeBelow_answer {t : FileTree} {here : Location} {parts : List String}
    (hshort : ∀ part ∈ parts, part.utf8ByteSize ≤ longestComponent) (hup : ".." ∉ parts)
    (hfree : ∀ way, way ≠ [] → way <+: parts → t.hasFile (here.down way) = false) :
    (t.makeBelow here parts).2 = .ok () := by
  induction parts generalizing t here with
  | nil => rfl
  | cons part parts ih =>
      obtain ⟨hpart, hparts⟩ := List.forall_mem_cons.mp hshort
      rw [List.mem_cons, not_or] at hup
      obtain ⟨hne, hup⟩ := hup
      have hnext : here.enter part = here.down [part] := if_neg (Ne.symm hne)
      have hfirst : t.hasFile (here.enter part) = false :=
        hnext ▸ hfree [part] (List.cons_ne_nil _ _) ⟨parts, rfl⟩
      obtain ⟨grown, hensure⟩ := exists_ensure_eq_ok hpart hfirst
      rw [makeBelow_cons_ok hensure]
      refine ih hparts hup fun way _ hway => ?_
      have hlonger := hfree (part :: way) (List.cons_ne_nil _ _)
        ((List.prefix_cons_inj part).mpr hway)
      rwa [hasFile, (ensure_spec hensure).files_eq, hnext, Location.down_down]

theorem directories_keep (t : FileTree) (path : String) (contents : Bytes) :
    (t.keep path contents).directories = t.directories := rfl

theorem workingDirectory_keep (t : FileTree) (path : String) (contents : Bytes) :
    (t.keep path contents).workingDirectory = t.workingDirectory := rfl

/-! ## Sound trees -/

/-- Everything lies in a directory. -/
structure Sound (t : FileTree) : Prop where
  directory_up : ∀ directory ∈ t.directories, t.hasDirectory directory.up = true
  file_up : ∀ file ∈ t.files, t.hasDirectory file.1.up = true

instance (t : FileTree) : Decidable t.Sound :=
  decidable_of_iff
    ((∀ directory ∈ t.directories, t.hasDirectory directory.up = true) ∧
      ∀ file ∈ t.files, t.hasDirectory file.1.up = true)
    ⟨fun ⟨directory, file⟩ => ⟨directory, file⟩, fun h => ⟨h.directory_up, h.file_up⟩⟩

theorem Sound.hasDirectory_of_down {t : FileTree} (h : t.Sound) {base : Location}
    {parts : List String} (hdown : t.hasDirectory (base.down parts) = true) :
    t.hasDirectory base = true := by
  induction parts using List.reverseRecOn with
  | nil => rwa [Location.down_nil] at hdown
  | append_singleton parts part ih =>
      have hmem : base.down (parts ++ [part]) ∈ t.directories :=
        (hasDirectory_iff.mp hdown).resolve_left (by simp [Location.down])
      have habove := h.directory_up _ hmem
      rw [Location.up_down_append_singleton] at habove
      exact ih habove

/-- Where there is no directory, there is nothing below. -/
theorem Sound.below_eq_none {t : FileTree} (h : t.Sound) {base : Location}
    (habsent : t.hasDirectory base = false) :
    (∀ directory ∈ t.directories, Location.below? base directory = none) ∧
      ∀ file ∈ t.files, Location.below? base file.1 = none := by
  have hnone {location : Location} (hup : t.hasDirectory location.up = true) :
      Location.below? base location = none := by
    refine Location.below?_eq_none_iff.mpr fun parts hparts => ?_
    by_contra hne
    rw [hparts, ← List.dropLast_concat_getLast hne, Location.up_down_append_singleton] at hup
    rw [h.hasDirectory_of_down hup] at habsent
    cases habsent
  exact ⟨fun directory hmem => hnone (h.directory_up directory hmem),
    fun file hmem => hnone (h.file_up file hmem)⟩

end FileTree

end CompanionFactory
