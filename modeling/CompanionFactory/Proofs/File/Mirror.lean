import CompanionFactory.File.Directory
import CompanionFactory.Proofs.File.Memory
import CompanionFactory.Proofs.File.Tree

/-!
# The directory mirrors the memory

A store of files below a directory and a store in memory are given the same files one after the
other.  Each keeps the first file of every name and refuses all later ones, so they never differ
in what they accept.  On the side of the directory this needs four things: the root can be made, no
file lies below it then, every name leads to a place of its own, and no directory stands in the
place of a file.  The last one holds because a file always has a dot in its own name and a directory
made for a name never has.

* `DirectoryStore.vacant_of_absent`: what has to hold of a root that is not there yet;
* `DirectoryStore.Mirrors` is what the two stores have in common after every file;
* `Mirrors.save_of_kept`, `Mirrors.save_of_new`: what both make of one file, and `Mirrors.step`;
* `saved_as_in_memory` follows both through a whole list of files.
-/

namespace CompanionFactory

open SourceStore (save saveAll)

/-! ## Names that can be kept -/

/-- How many bytes the last part of a name may have, so that the ending fits behind it: 250. -/
def longestTypeName : Nat := longestComponent - ".java".utf8ByteSize

/-- The file of the name can be created below the root, as far as its path goes. -/
structure Path.Fits (root name : String) : Prop where
  separable : Separable name
  zero_notMem : ∀ segment ∈ Text.segments name, '\x00' ∉ segment.toList
  directory_le : ∀ directory ∈ directories name, directory.utf8ByteSize ≤ longestComponent
  last_le : ((Text.segments name).getLastD "").utf8ByteSize ≤ longestTypeName
  path_le : (ofName root name).utf8ByteSize ≤ longestPath

namespace Path

instance (root name : String) : Decidable (Fits root name) :=
  decidable_of_iff
    (Separable name ∧ (∀ segment ∈ Text.segments name, '\x00' ∉ segment.toList) ∧
      (∀ directory ∈ directories name, directory.utf8ByteSize ≤ longestComponent) ∧
      ((Text.segments name).getLastD "").utf8ByteSize ≤ longestTypeName ∧
      (ofName root name).utf8ByteSize ≤ longestPath)
    ⟨fun ⟨separable, zero, directory, last, path⟩ => ⟨separable, zero, directory, last, path⟩,
      fun h => ⟨h.separable, h.zero_notMem, h.directory_le, h.last_le, h.path_le⟩⟩

variable {root name : String}

theorem Fits.pathObstacle?_eq (h : Fits root name) (hroot : '\x00' ∉ root.toList) :
    pathObstacle? (ofName root name) = none := by
  rw [pathObstacle?_eq_none_iff]
  refine ⟨fun hzero => ?_, h.path_le⟩
  rw [ofName_eq] at hzero
  rcases mem_push hzero with hzero | hzero | hzero
  · rcases mem_foldl_push hzero with hzero | ⟨directory, hdirectory, hzero⟩ | hzero
    · exact hroot hzero
    · exact h.zero_notMem directory (mem_segments_of_mem_directories hdirectory) hzero
    · exact absurd hzero (by decide)
  · rw [fileName, String.toList_append, List.mem_append] at hzero
    rcases hzero with hzero | hzero
    · exact h.zero_notMem _ (last_mem_segments name) hzero
    · exact absurd hzero (by decide)
  · exact absurd hzero (by decide)

theorem Fits.fileName_le (h : Fits root name) :
    (fileName name).utf8ByteSize ≤ longestComponent := by
  have hlast := h.last_le
  have hending : ".java".utf8ByteSize ≤ longestComponent := by decide
  rw [fileName, String.utf8ByteSize_append]
  unfold longestTypeName at hlast
  omega

end Path

namespace DirectoryStore

/-- Where the root is. -/
def base (d : DirectoryStore) : Location :=
  d.tree.locate d.root

/-- Where the file of a name is kept. -/
def place (d : DirectoryStore) (name : String) : Location :=
  d.tree.locate (d.pathOf name)

/-- The tree in which the root has been made. -/
def opened (d : DirectoryStore) : FileTree :=
  (d.tree.makeDirectories d.root).1

/-- The root can be made, and then no file lies below it, and no directory that has a dot in its
name as a file has. -/
structure Vacant (d : DirectoryStore) : Prop where
  opens : (d.tree.makeDirectories d.root).2 = .ok ()
  dot_notMem : ∀ directory ∈ d.opened.directories,
    ∀ path ∈ Location.below? d.base directory, '.' ∉ path.toList
  file_not_below : ∀ file ∈ d.tree.files, Location.below? d.base file.1 = none

instance (d : DirectoryStore) : Decidable d.Vacant :=
  decidable_of_iff
    ((d.tree.makeDirectories d.root).2 = .ok () ∧
      (∀ directory ∈ d.opened.directories,
        ∀ path ∈ Location.below? d.base directory, '.' ∉ path.toList) ∧
      ∀ file ∈ d.tree.files, Location.below? d.base file.1 = none)
    ⟨fun ⟨opens, directories, files⟩ => ⟨opens, directories, files⟩,
      fun h => ⟨h.opens, h.dot_notMem, h.file_not_below⟩⟩

variable {start d : DirectoryStore}

theorem makeDirectories_root (hopens : (d.tree.makeDirectories d.root).2 = .ok ()) :
    pathObstacle? d.root = none ∧
      d.tree.makeDirectories d.root =
        d.tree.makeBelow (d.tree.origin d.root) (Path.components d.root.toList) := by
  unfold FileTree.makeDirectories at hopens ⊢
  cases hpath : pathObstacle? d.root with
  | some fault =>
      rw [hpath] at hopens
      cases hopens
  | none => exact ⟨rfl, rfl⟩

/-- A root that is not there yet and that can be made is vacant, if its path leads up out of
directories only that are there. -/
theorem vacant_of_absent (hsound : d.tree.Sound) {front back : List String}
    (hroot : Path.components d.root.toList = front ++ back)
    (hfront : d.tree.Leads (d.tree.origin d.root) front) (hback : ".." ∉ back)
    (habsent : d.tree.hasDirectory d.base = false)
    (hopens : (d.tree.makeDirectories d.root).2 = .ok ()) : d.Vacant := by
  obtain ⟨hdirectories, hfiles⟩ := hsound.below_eq_none habsent
  have hbase : d.base = ((d.tree.origin d.root).follow front).down back := by
    rw [base, FileTree.locate, hroot, Location.follow_append, Location.follow_eq_down hback]
  have hmade : d.opened = (d.tree.makeBelow ((d.tree.origin d.root).follow front) back).1 := by
    have hpassed := FileTree.makeBelow_of_leads hfront
    rw [opened, (makeDirectories_root hopens).2, hroot,
      FileTree.makeBelow_append (by rw [hpassed]), hpassed]
  have hnone : ∀ directory ∈ d.opened.directories, Location.below? d.base directory = none := by
    intro directory hmem
    rw [hmade] at hmem
    rcases FileTree.mem_directories_makeBelow hmem with hold | ⟨way, hway, rfl⟩
    · exact hdirectories directory hold
    · -- A directory that was made on the way to the root does not lie below it.
      have hway' : ".." ∉ way := fun h => hback (hway.subset h)
      refine Location.below?_eq_none_iff.mpr fun parts hparts => ?_
      rw [hbase, Location.follow_eq_down hway', Location.down_down, Location.down_inj] at hparts
      have hlength := hway.length_le
      rw [hparts, List.length_append] at hlength
      exact List.length_eq_zero_iff.mp (by omega)
  refine ⟨hopens, fun directory hmem path hpath => ?_, hfiles⟩
  rw [hnone directory hmem] at hpath
  cases hpath

/-- The way up out of a directory that has still to be made may come out where something is. -/
example :
    let store : DirectoryStore :=
      { root := "missing/.."
        tree := { directories := [⟨["pkg"]⟩], files := [(⟨["pkg", "Foo.java"]⟩, [])] } }
    ¬store.Vacant ∧ (save store ⟨"pkg.Foo", [], []⟩).answer = .error .pathTaken :=
  ⟨by decide, rfl⟩

theorem place_eq {name : String} (h : Path.Separable name) (d : DirectoryStore) :
    d.place name = d.base.down (Path.directories name ++ [Path.fileName name]) := by
  have hup : ".." ∉ Path.directories name ++ [Path.fileName name] := by
    rw [List.mem_append, List.mem_singleton]
    rintro (hdirectory | hfile)
    · exact h.up_notMem_directories hdirectory
    · exact h.isComponent_fileName.ne_up hfile.symm
  rw [place, base, FileTree.locate, FileTree.locate, FileTree.origin, FileTree.origin, pathOf,
    Path.startsWith_ofName h.unrooted, h.components_ofName, Location.follow_append,
    Location.follow_eq_down hup]

theorem isSome_below?_place {name : String} (h : Path.Separable name) (d : DirectoryStore) :
    (Location.below? d.base (d.place name)).isSome = true :=
  Location.isSome_below?_iff.mpr ⟨_, by simp, place_eq h d⟩

/-- The tree in which all directories above the file of a name have been made. -/
def prepared (d : DirectoryStore) (name : String) : FileTree :=
  (d.tree.makeDirectories (Path.parent (d.pathOf name))).1

theorem files_opened (d : DirectoryStore) : d.opened.files = d.tree.files := by
  rw [opened, (FileTree.makeDirectories_frame d.tree d.root).1]

theorem prepared_frame (d : DirectoryStore) (name : String) :
    (d.prepared name).files = d.tree.files ∧
      (d.prepared name).workingDirectory = d.tree.workingDirectory := by
  unfold prepared
  exact FileTree.makeDirectories_frame d.tree (Path.parent (d.pathOf name))

/-- Behind the root, the directories of a name are made below it. -/
theorem makeDirectories_pathOf (hopens : (d.tree.makeDirectories d.root).2 = .ok ())
    {name : String} (hfits : Path.Fits d.root name) :
    d.tree.makeDirectories (Path.parent (d.pathOf name)) =
      d.opened.makeBelow d.base (Path.directories name) := by
  obtain ⟨hpath, hroot⟩ := makeDirectories_root hopens
  have hzero : '\x00' ∉ d.root.toList := (pathObstacle?_eq_none_iff.mp hpath).1
  have hparent : pathObstacle? (Path.parent (d.pathOf name)) = none :=
    pathObstacle?_of_prefix (hfits.pathObstacle?_eq hzero) (Path.parent_prefix _)
  have horigin : d.tree.origin (Path.parent (d.pathOf name)) = d.tree.origin d.root := by
    rw [FileTree.origin, FileTree.origin, Path.startsWith_parent, pathOf,
      Path.startsWith_ofName hfits.separable.unrooted]
  have hcomponents : Path.components (Path.parent (d.pathOf name)).toList =
      Path.components d.root.toList ++ Path.directories name :=
    hfits.separable.components_parent_ofName d.root
  rw [hroot] at hopens
  rw [FileTree.makeDirectories, hparent, horigin, hcomponents]
  exact (FileTree.makeBelow_append hopens _).trans (by rw [opened, hroot, base, FileTree.locate])

theorem newFileObstacle?_pathOf (hopens : (d.tree.makeDirectories d.root).2 = .ok ())
    {name : String} (hfits : Path.Fits d.root name) {t : FileTree}
    (hplace : t.workingDirectory = d.tree.workingDirectory) :
    t.newFileObstacle? (d.pathOf name) =
      if t.isTaken (d.place name) then some .pathTaken else none := by
  have hzero : '\x00' ∉ d.root.toList :=
    (pathObstacle?_eq_none_iff.mp (makeDirectories_root hopens).1).1
  have hpath : pathObstacle? (d.pathOf name) = none := hfits.pathObstacle?_eq hzero
  have hlast : (Path.components (d.pathOf name).toList).getLastD "" = Path.fileName name := by
    rw [pathOf, hfits.separable.components_ofName, ← List.append_assoc,
      List.getLastD_eq_getLast?, List.getLast?_append]
    rfl
  rw [FileTree.newFileObstacle?, hpath, hlast, if_neg (Nat.not_lt.mpr hfits.fileName_le),
    FileTree.locate_congr hplace, place]

variable {file : StoredFile}

/-- What a store makes of a file when the directories above it can be made. -/
theorem save_of_prepared (hopens : (d.tree.makeDirectories d.root).2 = .ok ())
    (hfits : Path.Fits d.root file.name)
    (hmade : (d.tree.makeDirectories (Path.parent (d.pathOf file.name))).2 = .ok ()) :
    ((d.prepared file.name).isTaken (d.place file.name) = true →
      (save d file).store = { d with tree := d.prepared file.name } ∧
        (save d file).answer = .error .pathTaken) ∧
    (¬(d.prepared file.name).isTaken (d.place file.name) = true →
      (save d file).store =
          { d with tree := (d.prepared file.name).keep (d.pathOf file.name) file.contents } ∧
        (save d file).answer = .ok (.ok ())) := by
  have hprepared : d.tree.makeDirectories (Path.parent (d.pathOf file.name)) =
      (d.prepared file.name, .ok ()) := by rw [prepared, ← hmade]
  have hobstacle := newFileObstacle?_pathOf hopens hfits (prepared_frame d file.name).2
  refine ⟨fun htaken => ?_, fun hfree => ?_⟩
  · rw [if_pos htaken] at hobstacle
    simp only [save, SourceStore.create, hprepared, hobstacle]
    exact ⟨trivial, trivial⟩
  · rw [if_neg hfree] at hobstacle
    simp only [save, SourceStore.create, hprepared, hobstacle]
    exact ⟨by rw [Sink.write_of_limit_none rfl]; rfl, by rw [Sink.write_of_limit_none rfl]⟩

/-- What a store of files below a directory, which was `start` before, has in common with a store in
memory when both were given the same files. -/
structure Mirrors (start d : DirectoryStore) (m : MemoryStore) : Prop where
  root_eq : d.root = start.root
  workingDirectory_eq : d.tree.workingDirectory = start.tree.workingDirectory
  opens : (d.tree.makeDirectories d.root).2 = .ok ()
  files_eq : d.tree.files =
    start.tree.files ++ m.files.map fun file => (start.place file.name, file.contents)
  /-- Below the root, no directory has a dot in its name. -/
  dot_notMem : ∀ parts, start.base.down parts ∈ d.opened.directories →
    ∀ part ∈ parts, '.' ∉ part.toList
  fits : ∀ file ∈ m.files, Path.Fits start.root file.name
  distinct : m.NamesDistinct
  refused_eq : m.refused = []

namespace Mirrors

variable {m : MemoryStore}

theorem initial (h : start.Vacant) : Mirrors start start {} := by
  refine ⟨rfl, rfl, h.opens, by simp, ?_, by simp, List.nodup_nil, rfl⟩
  intro parts hparts part hpart hdot
  have hpath := Location.below?_down start.base (List.ne_nil_of_mem hpart)
  exact h.dot_notMem _ hparts _ hpath (Path.mem_intercalate hpart hdot)

theorem base_eq (h : Mirrors start d m) : d.base = start.base := by
  rw [base, base, h.root_eq, FileTree.locate_congr h.workingDirectory_eq]

theorem place_eq_start (h : Mirrors start d m) (name : String) :
    d.place name = start.place name := by
  rw [place, place, pathOf, pathOf, h.root_eq, FileTree.locate_congr h.workingDirectory_eq]

theorem hasFile_iff (h : Mirrors start d m) (hstart : start.Vacant) {parts : List String}
    (hparts : parts ≠ []) :
    d.tree.hasFile (start.base.down parts) = true ↔
      ∃ file ∈ m.files, start.base.down parts = start.place file.name := by
  rw [FileTree.hasFile_iff, h.files_eq]
  constructor
  · rintro ⟨kept, hkept, hsame⟩
    rcases List.mem_append.mp hkept with hbefore | hkept
    · -- No file lay below the root before.
      have hnone := Location.below?_eq_none_iff.mp (hstart.file_not_below kept hbefore)
      exact absurd (hnone parts hsame) hparts
    · obtain ⟨file, hfile, rfl⟩ := List.mem_map.mp hkept
      dsimp only at hsame
      exact ⟨file, hfile, hsame.symm⟩
  · rintro ⟨file, hfile, hsame⟩
    refine ⟨_, List.mem_append_right _ (List.mem_map_of_mem hfile), ?_⟩
    dsimp only
    exact hsame.symm

/-- The directories of a name can be made, since a file has a dot in its name. -/
theorem makeDirectories_answer (h : Mirrors start d m) (hstart : start.Vacant) {name : String}
    (hfits : Path.Fits start.root name) :
    (d.tree.makeDirectories (Path.parent (d.pathOf name))).2 = .ok () := by
  have hup := hfits.separable.up_notMem_directories
  rw [makeDirectories_pathOf h.opens (h.root_eq ▸ hfits), h.base_eq]
  refine FileTree.makeBelow_answer hfits.directory_le hup fun way hne hway => ?_
  refine Bool.eq_false_iff.mpr fun htaken => ?_
  have htaken : d.tree.hasFile (start.base.down way) = true := by
    rwa [FileTree.hasFile, files_opened, ← FileTree.hasFile] at htaken
  obtain ⟨file, hfile, hsame⟩ := (h.hasFile_iff hstart hne).mp htaken
  rw [place_eq (h.fits file hfile).separable, Location.down_inj] at hsame
  have hlast : Path.fileName file.name ∈ Path.directories name :=
    hway.subset (hsame ▸ List.mem_append_right _ (List.mem_singleton_self _))
  exact Path.dot_notMem_directory hlast (Path.dot_mem_fileName file.name)

theorem dot_notMem_prepared (h : Mirrors start d m) {name : String}
    (hfits : Path.Fits start.root name) {parts : List String}
    (hparts : start.base.down parts ∈ (d.prepared name).directories) :
    ∀ part ∈ parts, '.' ∉ part.toList := by
  rw [prepared, makeDirectories_pathOf h.opens (h.root_eq ▸ hfits), h.base_eq] at hparts
  rcases FileTree.mem_directories_makeBelow hparts with hold | ⟨way, hway, hdown⟩
  · exact h.dot_notMem parts hold
  · -- The directory is on the way to the file, so its parts begin those of the name.
    have hup : ".." ∉ way := fun hmem =>
      hfits.separable.up_notMem_directories (hway.subset hmem)
    rw [Location.follow_eq_down hup, Location.down_inj] at hdown
    exact fun part hpart => Path.dot_notMem_directory (hway.subset (hdown ▸ hpart))

/-- No directory stands in the place of a file. -/
theorem hasDirectory_prepared (h : Mirrors start d m) {name : String}
    (hfits : Path.Fits start.root name) :
    (d.prepared name).hasDirectory (start.place name) = false := by
  rw [Bool.eq_false_iff, place_eq hfits.separable, Ne, FileTree.hasDirectory_iff]
  rintro (hempty | hmade)
  · simp [Location.down] at hempty
  · refine h.dot_notMem_prepared hfits hmade (Path.fileName name) ?_ (Path.dot_mem_fileName name)
    exact List.mem_append_right _ (List.mem_singleton_self _)

/-- The place of a name is taken when a file of this name was kept. -/
theorem isTaken_iff (h : Mirrors start d m) (hstart : start.Vacant) {name : String}
    (hfits : Path.Fits start.root name) :
    (d.prepared name).isTaken (start.place name) = true ↔
      ∃ file ∈ m.files, file.name = name := by
  have hfile : (d.prepared name).hasFile (start.place name) = d.tree.hasFile (start.place name) :=
    by rw [FileTree.hasFile, FileTree.hasFile, (prepared_frame d name).1]
  rw [FileTree.isTaken, h.hasDirectory_prepared hfits, Bool.false_or, hfile,
    place_eq hfits.separable, h.hasFile_iff hstart (by simp)]
  refine exists_congr fun file => and_congr_right fun hmem => ⟨fun hsame => ?_, ?_⟩
  · rw [place_eq (h.fits file hmem).separable, Location.down_inj] at hsame
    exact (Path.eq_of_parts_eq hsame).symm
  · rintro rfl
    exact (place_eq hfits.separable start).symm

/-- A file of a name that was kept before is refused by both. -/
theorem save_of_kept (h : Mirrors start d m) (hstart : start.Vacant)
    (hfits : Path.Fits start.root file.name) (hkept : ∃ kept ∈ m.files, kept.name = file.name) :
    (save d file).store = { d with tree := d.prepared file.name } ∧
      (save d file).answer = .error .pathTaken ∧
      (save m file).store = m ∧ (save m file).answer = .error (.alreadyKept file.name) := by
  have htaken := (h.isTaken_iff hstart hfits).mpr hkept
  rw [← h.place_eq_start] at htaken
  obtain ⟨hrefused, -⟩ :=
    save_of_prepared h.opens (h.root_eq ▸ hfits) (h.makeDirectories_answer hstart hfits)
  obtain ⟨hdisk, hanswer⟩ := hrefused htaken
  exact ⟨hdisk, hanswer,
    MemoryStore.save_of_obstacle (MemoryStore.obstacle?_of_kept h.refused_eq hkept)⟩

/-- The first file of a name is kept by both. -/
theorem save_of_new (h : Mirrors start d m) (hstart : start.Vacant)
    (hfits : Path.Fits start.root file.name) (hnew : ¬∃ kept ∈ m.files, kept.name = file.name) :
    (save d file).store =
        { d with tree := (d.prepared file.name).keep (d.pathOf file.name) file.contents } ∧
      (save d file).answer = .ok (.ok ()) ∧
      (save m file).store = m.keep file ∧ (save m file).answer = .ok (.ok ()) := by
  have hfree := mt (h.isTaken_iff hstart hfits).mp hnew
  rw [← h.place_eq_start] at hfree
  obtain ⟨-, hsaved⟩ :=
    save_of_prepared h.opens (h.root_eq ▸ hfits) (h.makeDirectories_answer hstart hfits)
  obtain ⟨hdisk, hanswer⟩ := hsaved hfree
  exact ⟨hdisk, hanswer,
    MemoryStore.save_of_free (MemoryStore.obstacle?_of_new h.refused_eq hnew)⟩

/-- Once the root has been made it stays, and making it again changes nothing. -/
theorem makeDirectories_grown (h : Mirrors start d m) {grown : FileTree}
    (hplace : grown.workingDirectory = d.tree.workingDirectory)
    (hgrown : ∀ location, d.opened.hasDirectory location = true →
      grown.hasDirectory location = true) :
    grown.makeDirectories d.root = (grown, .ok ()) := by
  obtain ⟨hpath, hroot⟩ := makeDirectories_root h.opens
  have hopens := h.opens
  rw [hroot] at hopens
  have hleads : d.opened.Leads (d.tree.origin d.root) (Path.components d.root.toList) := by
    rw [opened, hroot]
    exact FileTree.leads_makeBelow hopens
  rw [FileTree.makeDirectories, hpath, FileTree.origin, hplace, ← FileTree.origin]
  exact FileTree.makeBelow_of_leads (hleads.mono hgrown)

/-- What the stores have in common is kept when the tree grows by directories on the way to a name
and both stores get the same files. -/
theorem grow (h : Mirrors start d m) {name : String} (hfits : Path.Fits start.root name)
    (grown : FileTree) {m' : MemoryStore}
    (hplace : grown.workingDirectory = d.tree.workingDirectory)
    (hdirectories : grown.directories = (d.prepared name).directories)
    (hfiles : grown.files =
      start.tree.files ++ m'.files.map fun file => (start.place file.name, file.contents))
    (hall : ∀ file ∈ m'.files, Path.Fits start.root file.name) (hdistinct : m'.NamesDistinct)
    (hrefused : m'.refused = []) : Mirrors start { d with tree := grown } m' := by
  have hgrown : ∀ location, d.opened.hasDirectory location = true →
      grown.hasDirectory location = true := fun location hlocation => by
    rw [FileTree.hasDirectory, hdirectories, ← FileTree.hasDirectory, prepared,
      makeDirectories_pathOf h.opens (h.root_eq ▸ hfits)]
    exact FileTree.hasDirectory_makeBelow hlocation d.base (Path.directories name)
  have hopened := h.makeDirectories_grown hplace hgrown
  have hopens : (grown.makeDirectories d.root).2 = .ok () := by rw [hopened]
  refine ⟨h.root_eq, hplace.trans h.workingDirectory_eq, hopens, hfiles, ?_, hall, hdistinct,
    hrefused⟩
  intro parts hparts
  rw [opened, hopened, hdirectories] at hparts
  exact h.dot_notMem_prepared hfits hparts

theorem step (h : Mirrors start d m) (hstart : start.Vacant)
    (hfits : Path.Fits start.root file.name) :
    Mirrors start (save d file).store (save m file).store := by
  obtain ⟨hfiles, hplace⟩ := prepared_frame d file.name
  by_cases hkept : ∃ kept ∈ m.files, kept.name = file.name
  · obtain ⟨hdisk, -, hmemory, -⟩ := h.save_of_kept hstart hfits hkept
    rw [hdisk, hmemory]
    exact h.grow hfits (d.prepared file.name) hplace rfl (hfiles.trans h.files_eq) h.fits
      h.distinct h.refused_eq
  · obtain ⟨hdisk, -, hmemory, -⟩ := h.save_of_new hstart hfits hkept
    rw [hdisk, hmemory]
    refine h.grow hfits _ ((FileTree.workingDirectory_keep _ _ _).trans hplace)
      (FileTree.directories_keep _ _ _) ?_ ?_ ?_ h.refused_eq
    · rw [FileTree.keep, FileTree.locate_congr hplace, ← place, h.place_eq_start, hfiles,
        h.files_eq, MemoryStore.keep, List.map_append, List.append_assoc]
      rfl
    · exact List.forall_mem_append.mpr ⟨h.fits, List.forall_mem_singleton.mpr hfits⟩
    · exact h.distinct.keep fun kept hmem hsame => hkept ⟨kept, hmem, hsame⟩

end Mirrors

theorem mirrors_saveAll (hstart : start.Vacant) {files : List StoredFile}
    (hfits : ∀ file ∈ files, Path.Fits start.root file.name) :
    Mirrors start (saveAll start files) (saveAll {} files) := by
  induction files using List.reverseRecOn with
  | nil => exact Mirrors.initial hstart
  | append_singleton files file ih =>
      obtain ⟨hfiles, hfile⟩ := List.forall_mem_append.mp hfits
      rw [SourceStore.saveAll_append_singleton, SourceStore.saveAll_append_singleton]
      exact (ih hfiles).step hstart (hfile file (List.mem_singleton_self file))

end DirectoryStore

end CompanionFactory
