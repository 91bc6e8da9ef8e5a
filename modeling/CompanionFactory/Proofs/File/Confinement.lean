import CompanionFactory.Proofs.File.Mirror
import CompanionFactory.Target.Analysis

/-!
# Staying below the root

A part of a name that begins with a slash replaces the path in front of it, root and all.  Nothing
else leads out of the root: a part has no dot in it, so none of its components leads up, however
slashes stand in it, and an empty part leads nowhere.

* `Path.push_push`: joining is associative, so a name has one path of its own, and that is joined
  onto the root as a whole: `Path.ofName_eq_push`;
* `Path.descends_ofName_iff`: this path leads down exactly when no part of the name begins with a
  slash;
* `DirectoryStore.passes_or_holds`: on the way to a name, all that does not lie below the root is on
  the way to the root;
* `DirectoryStore.pathOf_below_root_iff` says for the factory of a target when its file stays below
  the root of every store, and what the store then makes;
* `DirectoryStore.not_forall_pathOf_below_root` is a target whose file does not.
-/

namespace CompanionFactory

/-! ## Pieces of a text -/

namespace Text

theorem sublist_of_mem_splitOn {c : Char} {text piece : List Char} (h : piece ∈ text.splitOn c) :
    piece.Sublist text := by
  induction text generalizing piece with
  | nil =>
      obtain rfl : piece = [] := by simpa using h
      exact .slnil
  | cons d text ih =>
      obtain ⟨first, rest, hsplit⟩ := List.exists_cons_of_ne_nil (List.splitOn_ne_nil c text)
      rw [List.splitOn_cons_eq_if_modifyHead] at h
      -- The new character either separates an empty piece or belongs to the first one.
      split at h
      · rcases List.mem_cons.mp h with rfl | h
        · exact List.nil_sublist _
        · exact (ih h).cons d
      · rw [hsplit, List.modifyHead_cons] at h
        rcases List.mem_cons.mp h with rfl | h
        · exact (ih (hsplit ▸ List.mem_cons_self)).cons_cons d
        · exact (ih (hsplit ▸ List.mem_cons_of_mem first h)).cons d

theorem exists_mem_splitOn {c d : Char} {text : List Char} (h : d ∈ text) (hne : d ≠ c) :
    ∃ piece ∈ text.splitOn c, d ∈ piece := by
  induction text with
  | nil => exact absurd h List.not_mem_nil
  | cons e text ih =>
      obtain ⟨first, rest, hsplit⟩ := List.exists_cons_of_ne_nil (List.splitOn_ne_nil c text)
      rw [List.splitOn_cons_eq_if_modifyHead]
      split
      · next he =>
          have hother : d ≠ e := fun hde => hne (hde.trans (beq_iff_eq.mp he))
          obtain ⟨piece, hpiece, hd⟩ := ih ((List.mem_cons.mp h).resolve_left hother)
          exact ⟨piece, List.mem_cons_of_mem _ hpiece, hd⟩
      · rw [hsplit, List.modifyHead_cons]
        rcases List.mem_cons.mp h with rfl | h
        · exact ⟨_, List.mem_cons_self, List.mem_cons_self⟩
        · obtain ⟨piece, hpiece, hd⟩ := ih h
          rcases List.mem_cons.mp (hsplit ▸ hpiece) with rfl | hpiece
          · exact ⟨_, List.mem_cons_self, List.mem_cons_of_mem e hd⟩
          · exact ⟨piece, List.mem_cons_of_mem _ hpiece, hd⟩

end Text

/-! ## Joining paths -/

namespace Path

variable {part : String}

theorem separator_append (path : String) (hpart : part ≠ "") :
    separator (path ++ part) = separator part := by
  have hchars : part.toList ≠ [] := fun h => hpart (String.toList_eq_nil_iff.mp h)
  have hlast : (path ++ part).toList.getLast? = part.toList.getLast? := by
    rw [String.toList_append, List.getLast?_append_of_ne_nil _ hchars]
  simp [separator, hlast, hpart, -String.toList_append]

/-- Two parts are joined on as one. -/
theorem push_push (path first second : String) :
    push (push path first) second = push path (push first second) := by
  cases hsecond : Text.startsWith second "/" with
  | true => simp only [push_of_absolute hsecond]
  | false =>
      cases hfirst : Text.startsWith first "/" with
      | true =>
          have hjoined : Text.startsWith (push first second) "/" = true := by
            rw [startsWith_push, hfirst, Bool.or_true]
          rw [push_of_absolute hfirst, push_of_absolute hjoined]
      | false =>
          have hjoined : Text.startsWith (push first second) "/" = false := by
            rw [startsWith_push, hsecond, hfirst, Bool.or_false]
          rw [push_of_relative hsecond, push_of_relative hfirst, push_of_relative hjoined,
            push_of_relative hsecond]
          -- An empty first part leaves a slash behind, and no second one is put there.
          by_cases hempty : first = ""
          · subst hempty
            rw [String.append_empty, separator_append_separator, String.append_empty]
            rfl
          · rw [separator_append _ hempty]
            simp only [String.append_assoc]

theorem foldl_push_push (path part : String) (parts : List String) :
    parts.foldl push (push path part) = push path (parts.foldl push part) := by
  induction parts generalizing part with
  | nil => rfl
  | cons next parts ih => rw [List.foldl_cons, List.foldl_cons, push_push, ih]

/-- The path of a name is joined onto the root as a whole. -/
theorem ofName_eq_push (root name : String) : ofName root name = push root (ofName "" name) := by
  rw [ofName_eq, ofName_eq]
  cases directories name with
  | nil => rw [List.foldl_nil, List.foldl_nil, push_empty_left]
  | cons first rest =>
      rw [List.foldl_cons, List.foldl_cons, push_empty_left, foldl_push_push, push_push]

/-! ## Components -/

/-- A path with one dot at the most has no component that leads up. -/
theorem up_notMem_components {path : List Char} (h : path.count '.' ≤ 1) :
    ".." ∉ components path := by
  intro hup
  obtain ⟨piece, hpiece, hdots⟩ := List.mem_map.mp (List.mem_of_mem_filter hup)
  have hcount : (".." : String).toList.count '.' ≤ path.count '.' := by
    rw [← hdots, String.toList_ofList]
    exact (Text.sublist_of_mem_splitOn hpiece).count_le '.'
  have htwo : (".." : String).toList.count '.' = 2 := by decide
  omega

/-- A path names something as soon as there is a character in it besides slashes and dots. -/
theorem components_ne_nil {path : List Char} {c : Char} (h : c ∈ path) (hslash : c ≠ '/')
    (hdot : c ≠ '.') : components path ≠ [] := by
  obtain ⟨piece, hpiece, hc⟩ := Text.exists_mem_splitOn h hslash
  have hne : String.ofList piece ≠ "" ∧ String.ofList piece ≠ "." := by
    constructor
    · intro hempty
      have hchars := congrArg String.toList hempty
      rw [String.toList_ofList] at hchars
      simp [hchars] at hc
    · intro hsingle
      have hchars := congrArg String.toList hsingle
      rw [String.toList_ofList] at hchars
      simp [hchars, hdot] at hc
  refine List.ne_nil_of_mem (List.mem_filter.mpr ⟨List.mem_map_of_mem hpiece, ?_⟩)
  simpa using hne

/-! ## The path of a name -/

/-- The path leads down from wherever it is joined on. -/
structure Descends (path : String) : Prop where
  relative : Text.startsWith path "/" = false
  components_ne_nil : components path.toList ≠ []
  up_notMem : ".." ∉ components path.toList

theorem unrooted_qualify_iff {outer simple : String} :
    Unrooted (Text.qualify outer simple) ↔ Unrooted outer ∧ Unrooted simple := by
  by_cases houter : outer = ""
  · subst houter
    have hempty : Unrooted "" := by decide
    rw [Text.qualify_empty, and_iff_right hempty]
  · have hsegments : Text.segments (Text.qualify outer simple) =
        Text.segments outer ++ Text.segments simple := by
      rw [Text.qualify_of_ne_empty houter, Text.segments]
      simp [Text.segments, List.splitOn_append_cons_self]
    rw [Unrooted, hsegments, List.forall_mem_append]
    rfl

theorem startsWith_ofName_eq_false_iff {name : String} :
    Text.startsWith (ofName "" name) "/" = false ↔ Unrooted name := by
  have hempty : Text.startsWith "" "/" = false := by decide
  have hall : Unrooted name ↔ (∀ directory ∈ directories name,
      Text.startsWith directory "/" = false) ∧
        Text.startsWith ((Text.segments name).getLastD "") "/" = false := by
    rw [← List.forall_mem_singleton (p := fun segment => Text.startsWith segment "/" = false),
      ← List.forall_mem_append, directories_append_last]
    rfl
  rw [ofName_eq, startsWith_push, startsWith_foldl_push, startsWith_fileName, hall, hempty,
    Bool.false_or, Bool.or_eq_false_iff, List.any_eq_false, and_comm]
  simp only [Bool.not_eq_true]

theorem components_ofName_empty {name : String} (h : Unrooted name) :
    components (ofName "" name).toList =
      ((directories name).flatMap fun directory => components directory.toList) ++
        components (fileName name).toList :=
  components_ofName h ""

theorem up_notMem_components_ofName {name : String} (h : Unrooted name) :
    ".." ∉ components (ofName "" name).toList := by
  rw [components_ofName_empty h, List.mem_append, List.mem_flatMap]
  -- A directory has no dot, and the only dot of the file is that of its ending.
  rintro (⟨directory, hdirectory, hup⟩ | hup)
  · have hnone : directory.toList.count '.' = 0 :=
      List.count_eq_zero.mpr (dot_notMem_directory hdirectory)
    exact up_notMem_components (by omega) hup
  · have hlast : ((Text.segments name).getLastD "").toList.count '.' = 0 :=
      List.count_eq_zero.mpr (Text.dot_notMem_of_mem_segments (last_mem_segments name))
    have hending : (".java" : String).toList.count '.' = 1 := by decide
    refine up_notMem_components ?_ hup
    rw [fileName, String.toList_append, List.count_append]
    omega

theorem descends_ofName_iff {name : String} : Descends (ofName "" name) ↔ Unrooted name := by
  rw [← startsWith_ofName_eq_false_iff]
  constructor
  · exact Descends.relative
  · intro h
    have hname := startsWith_ofName_eq_false_iff.mp h
    refine ⟨h, ?_, up_notMem_components_ofName hname⟩
    have hfile : components (fileName name).toList ≠ [] := by
      have hj : 'j' ∈ (fileName name).toList := by simp [fileName]
      exact Path.components_ne_nil hj (by decide) (by decide)
    rw [components_ofName_empty hname]
    exact List.append_ne_nil_of_right_ne_nil _ hfile

end Path

/-! ## Locations -/

namespace Location

/-- The location lies below the base, and the way there does not lead up. -/
def Holds (base location : Location) : Prop :=
  ∃ parts, parts ≠ [] ∧ ".." ∉ parts ∧ location = base.down parts

end Location

/-! ## What a store makes -/

namespace DirectoryStore

variable {d : DirectoryStore} {name : String}

/-- A store makes the directories above the file and at most this one file. -/
theorem tree_create {α : Type} (d : DirectoryStore) (name : String) (origins : List String)
    (session : Sink → Sink × α) :
    (SourceStore.create d name origins session).store.tree = d.prepared name ∨
      ∃ contents, (SourceStore.create d name origins session).store.tree =
        (d.prepared name).keep (d.pathOf name) contents := by
  simp only [SourceStore.create, prepared]
  -- No file is made when a directory cannot be made, nor when its place is taken.
  split
  · next hmade =>
      rw [hmade]
      exact .inl rfl
  · next hmade =>
      rw [hmade]
      split
      · exact .inl rfl
      · exact .inr ⟨_, rfl⟩

theorem mem_files_create {α : Type} {origins : List String} {session : Sink → Sink × α}
    {file : Location × Bytes}
    (h : file ∈ (SourceStore.create d name origins session).store.tree.files) :
    file ∈ d.tree.files ∨ file.1 = d.place name := by
  obtain ⟨hfiles, hworking⟩ := prepared_frame d name
  rcases tree_create d name origins session with htree | ⟨contents, htree⟩
  · rw [htree, hfiles] at h
    exact .inl h
  · rw [htree, FileTree.keep, hfiles, FileTree.locate_congr hworking, ← place] at h
    rcases List.mem_append.mp h with hold | hnew
    · exact .inl hold
    · exact .inr (by rw [List.mem_singleton.mp hnew])

theorem mem_directories_create {α : Type} {origins : List String} {session : Sink → Sink × α}
    {directory : Location}
    (h : directory ∈ (SourceStore.create d name origins session).store.tree.directories) :
    directory ∈ d.tree.directories ∨ d.tree.Passes (d.pathOf name) directory := by
  have hprepared : directory ∈ (d.prepared name).directories := by
    rcases tree_create d name origins session with htree | ⟨contents, htree⟩
    · rwa [htree] at h
    · rwa [htree, FileTree.directories_keep] at h
  rw [prepared] at hprepared
  have hmade := FileTree.mem_directories_makeDirectories hprepared
  exact hmade.imp_right FileTree.passes_of_passes_parent

/-- A name without rooted parts leads on from the root. -/
theorem pathOf_leads_on (h : Path.Unrooted name) (d : DirectoryStore) :
    d.tree.origin (d.pathOf name) = d.tree.origin d.root ∧
      Path.components (d.pathOf name).toList =
        Path.components d.root.toList ++ Path.components (Path.ofName "" name).toList := by
  have hdescends := Path.descends_ofName_iff.mpr h
  refine ⟨?_, ?_⟩
  · rw [FileTree.origin, FileTree.origin, pathOf, Path.startsWith_ofName h]
  · rw [pathOf, Path.ofName_eq_push, Path.components_push hdescends.relative]

theorem place_holds (h : Path.Unrooted name) (d : DirectoryStore) :
    (d.tree.locate d.root).Holds (d.place name) := by
  have hdescends := Path.descends_ofName_iff.mpr h
  obtain ⟨horigin, hcomponents⟩ := pathOf_leads_on h d
  refine ⟨_, hdescends.components_ne_nil, hdescends.up_notMem, ?_⟩
  rw [place, FileTree.locate, FileTree.locate, horigin, hcomponents, Location.follow_append,
    Location.follow_eq_down hdescends.up_notMem]

/-- What the path of a name leads through, the path of the root leads through, or it lies below. -/
theorem passes_or_holds (h : Path.Unrooted name) {location : Location}
    (hpasses : d.tree.Passes (d.pathOf name) location) :
    d.tree.Passes d.root location ∨ (d.tree.locate d.root).Holds location := by
  have hdescends := Path.descends_ofName_iff.mpr h
  obtain ⟨horigin, hcomponents⟩ := pathOf_leads_on h d
  obtain ⟨way, ⟨rest, hway⟩, rfl⟩ := hpasses
  rw [horigin]
  rw [hcomponents] at hway
  rcases List.append_eq_append_iff.mp hway with ⟨last, hroot, -⟩ | ⟨more, rfl, hmore⟩
  · exact .inl ⟨way, ⟨last, hroot.symm⟩, rfl⟩
  · have hup : ".." ∉ more := fun hmem =>
      hdescends.up_notMem (hmore ▸ List.mem_append_left rest hmem)
    by_cases hnone : more = []
    · subst hnone
      exact .inl ⟨_, List.prefix_rfl, by rw [List.append_nil]⟩
    · refine .inr ⟨more, hnone, hup, ?_⟩
      rw [Location.follow_append, Location.follow_eq_down hup, FileTree.locate]

/-- Under a name without rooted parts, all that is made lies below the root or on the way there. -/
theorem create_below_root {α : Type} (h : Path.Unrooted name) (d : DirectoryStore)
    (origins : List String) (session : Sink → Sink × α) :
    let tree := (SourceStore.create d name origins session).store.tree
    let root := d.tree.locate d.root
    (∀ file ∈ tree.files, file ∈ d.tree.files ∨ root.Holds file.1) ∧
      ∀ directory ∈ tree.directories,
        directory ∈ d.tree.directories ∨ d.tree.Passes d.root directory ∨ root.Holds directory :=
  ⟨fun _ hfile => (mem_files_create hfile).imp_right fun hplace => by
      rw [hplace]
      exact place_holds h d,
    fun _ hdirectory => (mem_directories_create hdirectory).imp_right (passes_or_holds h)⟩

/-- The factory of a target is kept below the root of every store exactly when no part of the
package name and of the factory's simple name begins with a slash.  The way down is then the same
from every root, never leads up, and whatever becomes of the file, a store makes nothing that does
not lie below its root or on the way there.  Otherwise all stores keep the file at one absolute
path, which has nothing to do with their roots. -/
theorem pathOf_below_root_iff (t : Target) :
    ((∀ d : DirectoryStore, ∃ rest, Path.Descends rest ∧
        d.pathOf t.qualifiedFactoryName = Path.push d.root rest) ↔
      Path.Unrooted t.package ∧ Path.Unrooted t.factoryName) ∧
    (Path.Unrooted t.package → Path.Unrooted t.factoryName →
      (∃ rest, Path.Descends rest ∧
        ∀ d : DirectoryStore, d.pathOf t.qualifiedFactoryName = Path.push d.root rest) ∧
      ∀ (α : Type) (d : DirectoryStore) (origins : List String) (session : Sink → Sink × α),
        let tree := (SourceStore.create d t.qualifiedFactoryName origins session).store.tree
        let root := d.tree.locate d.root
        (∀ file ∈ tree.files, file ∈ d.tree.files ∨ root.Holds file.1) ∧
          ∀ directory ∈ tree.directories,
            directory ∈ d.tree.directories ∨ d.tree.Passes d.root directory ∨
              root.Holds directory) ∧
    (¬(Path.Unrooted t.package ∧ Path.Unrooted t.factoryName) →
      ∃ path, Text.startsWith path "/" = true ∧
        ∀ d : DirectoryStore, d.pathOf t.qualifiedFactoryName = path) := by
  have hname : Path.Unrooted t.qualifiedFactoryName ↔
      Path.Unrooted t.package ∧ Path.Unrooted t.factoryName := Path.unrooted_qualify_iff
  have hpath : ∀ d : DirectoryStore, d.pathOf t.qualifiedFactoryName =
      Path.push d.root (Path.ofName "" t.qualifiedFactoryName) :=
    fun d => Path.ofName_eq_push d.root t.qualifiedFactoryName
  rw [← hname]
  refine ⟨⟨fun h => ?_, fun h d => ?_⟩, fun hpackage hsimple => ?_, fun hrooted => ?_⟩
  · -- A store without a root of its own shows where the name leads.
    obtain ⟨rest, hrest, heq⟩ := h ⟨"", {}⟩
    rw [hpath, Path.push_empty_left, Path.push_empty_left] at heq
    exact Path.descends_ofName_iff.mp (heq ▸ hrest)
  · exact ⟨_, Path.descends_ofName_iff.mpr h, hpath d⟩
  · have h := hname.mpr ⟨hpackage, hsimple⟩
    exact ⟨⟨_, Path.descends_ofName_iff.mpr h, hpath⟩, fun _ => create_below_root h⟩
  · have habsolute : Text.startsWith (Path.ofName "" t.qualifiedFactoryName) "/" = true :=
      (Bool.not_eq_false _).mp (mt Path.startsWith_ofName_eq_false_iff.mp hrooted)
    exact ⟨_, habsolute, fun d => (hpath d).trans (Path.push_of_absolute habsolute d.root)⟩

/-- Slashes inside the parts of a name lead further down, and one in front leads away. -/
theorem pathOf_below_root_iff_slashed :
    let nested : Target := ⟨"pkg", "Foo", { name := "a//..x.Maker" }, OrderedSet.ofList [], []⟩
    let rooted : Target := ⟨"pkg", "Foo", { name := "a./etc/Maker" }, OrderedSet.ofList [], []⟩
    let tree := (SourceStore.create (⟨"out", {}⟩ : DirectoryStore) nested.qualifiedFactoryName []
      fun sink => (sink, ())).store.tree
    (Path.Unrooted nested.package ∧ Path.Unrooted nested.factoryName) ∧
      (∀ file ∈ tree.files, (FileTree.locate {} "out").Holds file.1) ∧
      ¬(Path.Unrooted rooted.package ∧ Path.Unrooted rooted.factoryName) ∧
      ∃ path, Text.startsWith path "/" = true ∧
        ∀ d : DirectoryStore, d.pathOf rooted.qualifiedFactoryName = path := by
  intro nested rooted tree
  have hnested : Path.Unrooted nested.package ∧ Path.Unrooted nested.factoryName := by decide
  have hrooted : ¬(Path.Unrooted rooted.package ∧ Path.Unrooted rooted.factoryName) := by decide
  obtain ⟨-, hbelow⟩ := (pathOf_below_root_iff nested).2.1 hnested.1 hnested.2
  obtain ⟨hfiles, -⟩ := hbelow Unit ⟨"out", {}⟩ [] fun sink => (sink, ())
  refine ⟨hnested, fun file hfile => ?_, hrooted, (pathOf_below_root_iff rooted).2.2 hrooted⟩
  exact (hfiles file hfile).resolve_left List.not_mem_nil

/-- The name given to the marker on an accepted class can lead anywhere. -/
theorem not_forall_pathOf_below_root :
    ¬ ∀ (s : Settings) (e : Element) (t : Target) (d : DirectoryStore),
      Target.ofElement s e = .ok t →
      ∃ rest, Path.Descends rest ∧ d.pathOf t.qualifiedFactoryName = Path.push d.root rest := by
  intro h
  let named := Element.withAnnotation (Element.classIn "pkg" "Foo")
    ⟨"factoria.annotations.Factory", [⟨"name", .text "/etc/Maker"⟩]⟩
  obtain ⟨rest, hrest, hpath⟩ := h {} named _ ⟨"/out", {}⟩ rfl
  have hroot : (Path.push "/out" rest).toList.take 4 = "/out".toList := by
    rw [Path.push_of_relative hrest.relative, String.append_assoc, String.toList_append]
    rfl
  rw [← hpath] at hroot
  exact absurd hroot (by decide)

end DirectoryStore

end CompanionFactory
