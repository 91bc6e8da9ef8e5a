import CompanionFactory.File.Store

/-!
# Files in memory

A store that keeps every file in the order of creation.  A name can be refused beforehand, and
no name is given out twice; a refusal comes first when both hold.
-/

namespace CompanionFactory

structure MemoryStore where
  files : List StoredFile := []
  refused : List String := []
  deriving DecidableEq, Repr

namespace MemoryStore

/-- Let every later attempt to create `name` fail. -/
def refuse (m : MemoryStore) (name : String) : MemoryStore :=
  { m with refused := name :: m.refused }

def file? (m : MemoryStore) (name : String) : Option StoredFile :=
  m.files.find? fun file => file.name == name

/-- The names of all files, sorted. -/
def names (m : MemoryStore) : List String :=
  sortTexts (m.files.map (·.name))

def size (m : MemoryStore) : Nat :=
  m.files.length

def isEmpty (m : MemoryStore) : Bool :=
  m.files.isEmpty

/-- Why a file of this name cannot be created, if it cannot. -/
def obstacle? (m : MemoryStore) (name : String) : Option FileFault :=
  if name ∈ m.refused then some (.refused name)
  else if (m.file? name).isSome then some (.alreadyKept name)
  else none

/-- Keep one more file. -/
def keep (m : MemoryStore) (file : StoredFile) : MemoryStore :=
  { m with files := m.files ++ [file] }

end MemoryStore

instance : SourceStore MemoryStore where
  create m name origins session :=
    match m.obstacle? name with
    | some fault => { store := m, answer := .error fault }
    | none =>
        let written := session {}
        { store := m.keep ⟨name, origins, written.1.held⟩, answer := .ok written.2 }

end CompanionFactory
