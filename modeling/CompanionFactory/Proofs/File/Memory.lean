import CompanionFactory.File.Memory
import Mathlib.Data.List.Induction
import Mathlib.Data.List.Nodup

/-!
# What a store in memory holds

A store in memory keeps one file for every name and refuses a second one.  `SourceStore.save`
creates a file in any store and writes all of it; in memory that either adds the file or changes
nothing.
-/

namespace CompanionFactory

namespace MemoryStore

theorem file?_eq_none_iff {m : MemoryStore} {name : String} :
    m.file? name = none ↔ ∀ f ∈ m.files, f.name ≠ name := by
  simp [file?, List.find?_eq_none]

theorem obstacle?_eq_none_iff {m : MemoryStore} {name : String} :
    m.obstacle? name = none ↔ name ∉ m.refused ∧ ∀ f ∈ m.files, f.name ≠ name := by
  rw [← file?_eq_none_iff]
  unfold obstacle?
  by_cases hrefused : name ∈ m.refused
  · simp [hrefused]
  · cases hfile : m.file? name <;> simp [hrefused]

def keepAll (m : MemoryStore) (files : List StoredFile) : MemoryStore :=
  { m with files := m.files ++ files }

theorem keepAll_nil (m : MemoryStore) : m.keepAll [] = m := by
  simp [keepAll]

theorem keepAll_append (m : MemoryStore) (first second : List StoredFile) :
    m.keepAll (first ++ second) = (m.keepAll first).keepAll second := by
  simp [keepAll]

/-- No name is given out twice. -/
def NamesDistinct (m : MemoryStore) : Prop :=
  (m.files.map (·.name)).Nodup

theorem NamesDistinct.file?_eq {m : MemoryStore} (h : m.NamesDistinct) {f : StoredFile}
    (hf : f ∈ m.files) : m.file? f.name = some f := by
  cases hfound : m.file? f.name with
  | none => exact absurd rfl (file?_eq_none_iff.mp hfound f hf)
  | some g =>
      -- The file found has the same name, and no other file has it.
      have hg : g ∈ m.files := List.mem_of_find?_eq_some hfound
      have hname : g.name = f.name := by
        simpa using List.find?_some hfound
      rw [List.inj_on_of_nodup_map h hg hf hname]

theorem NamesDistinct.keep {m : MemoryStore} (h : m.NamesDistinct) {f : StoredFile}
    (hf : ∀ g ∈ m.files, g.name ≠ f.name) : (m.keep f).NamesDistinct := by
  unfold NamesDistinct MemoryStore.keep
  rw [List.map_append, List.nodup_append]
  refine ⟨h, List.nodup_singleton f.name, ?_⟩
  intro name hname other hother
  obtain ⟨g, hg, rfl⟩ := List.mem_map.mp hname
  obtain rfl := List.mem_singleton.mp hother
  exact hf g hg

end MemoryStore

/-! ## Saving -/

namespace SourceStore

variable {φ : Type} [SourceStore φ]

/-- Create a file and write all of it. -/
def save (store : φ) (file : StoredFile) : Filed φ (Except FileFault Unit) :=
  create store file.name file.origins fun sink => sink.write file.contents

/-- Save files one after the other, whatever becomes of each. -/
def saveAll (store : φ) (files : List StoredFile) : φ :=
  files.foldl (fun store file => (save store file).store) store

theorem saveAll_append_singleton (store : φ) (files : List StoredFile) (file : StoredFile) :
    saveAll store (files ++ [file]) = (save (saveAll store files) file).store := by
  simp [saveAll]

end SourceStore

namespace MemoryStore

open SourceStore (save saveAll)

variable {m : MemoryStore} {name : String}

theorem save_of_obstacle {file : StoredFile} {fault : FileFault}
    (h : m.obstacle? file.name = some fault) :
    (save m file).store = m ∧ (save m file).answer = .error fault := by
  simp [save, SourceStore.create, h]

theorem save_of_free {file : StoredFile} (h : m.obstacle? file.name = none) :
    (save m file).store = m.keep file ∧ (save m file).answer = .ok (.ok ()) := by
  simp [save, SourceStore.create, h, Sink.write_of_limit_none]

theorem obstacle?_of_kept (hrefused : m.refused = []) (h : ∃ kept ∈ m.files, kept.name = name) :
    m.obstacle? name = some (.alreadyKept name) := by
  obtain ⟨kept, hkept, rfl⟩ := h
  have hfound : m.file? kept.name ≠ none := fun hnone => file?_eq_none_iff.mp hnone kept hkept rfl
  simp [obstacle?, hrefused, Option.isSome_iff_ne_none.mpr hfound]

theorem obstacle?_of_new (hrefused : m.refused = []) (h : ¬∃ kept ∈ m.files, kept.name = name) :
    m.obstacle? name = none := by
  rw [obstacle?_eq_none_iff, hrefused]
  exact ⟨List.not_mem_nil, fun kept hkept hsame => h ⟨kept, hkept, hsame⟩⟩

theorem refused_save (m : MemoryStore) (file : StoredFile) :
    (save m file).store.refused = m.refused := by
  cases hobstacle : m.obstacle? file.name with
  | none => rw [(save_of_free hobstacle).1, keep]
  | some fault => rw [(save_of_obstacle hobstacle).1]

theorem exists_name_save (hrefused : m.refused = []) (file : StoredFile) :
    (∃ kept ∈ (save m file).store.files, kept.name = name) ↔
      (∃ kept ∈ m.files, kept.name = name) ∨ file.name = name := by
  by_cases h : ∃ kept ∈ m.files, kept.name = file.name
  · rw [(save_of_obstacle (obstacle?_of_kept hrefused h)).1]
    refine ⟨.inl, ?_⟩
    rintro (hkept | rfl)
    · exact hkept
    · exact h
  · rw [(save_of_free (obstacle?_of_new hrefused h)).1]
    simp [keep, or_and_right, exists_or]

theorem refused_saveAll (m : MemoryStore) (files : List StoredFile) :
    (saveAll m files).refused = m.refused := by
  induction files generalizing m with
  | nil => rfl
  | cons file files ih => exact (ih _).trans (refused_save m file)

/-- A name is kept as soon as it was tried. -/
theorem exists_name_saveAll (files : List StoredFile) :
    (∃ kept ∈ (saveAll ({} : MemoryStore) files).files, kept.name = name) ↔
      ∃ file ∈ files, file.name = name := by
  induction files using List.reverseRecOn with
  | nil => rfl
  | append_singleton files file ih =>
      rw [SourceStore.saveAll_append_singleton, exists_name_save (refused_saveAll {} files), ih]
      simp [or_and_right, exists_or]

end MemoryStore

end CompanionFactory
