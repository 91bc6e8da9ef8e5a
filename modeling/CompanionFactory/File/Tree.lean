import CompanionFactory.File.Sink
import CompanionFactory.File.Path
import CompanionFactory.File.Store

/-!
# Trees of directories and files

What a file system holds, as far as a store can see it: which directories and files there are, all
by location, and in which directory the store works.  The root of the file system is always there.

A path begins at the root of the file system or in the working directory, and every component leads
one directory further down, or up again if it is `..`.  There are no links.  A file on the way to a
directory counts as something that is there already; the text that a system keeps for this case is
left out.
-/

namespace CompanionFactory

/-- Where a file or directory is: the names on the way there from the root of the file system. -/
structure Location where
  components : List String := []
  deriving DecidableEq, Repr

namespace Location

/-- The location that the given names lead down to. -/
def down (base : Location) (parts : List String) : Location :=
  ⟨base.components ++ parts⟩

/-- The directory that the location lies in.  Above the root of the file system there is none. -/
def up (location : Location) : Location :=
  ⟨location.components.dropLast⟩

/-- Where a component of a path leads. -/
def enter (here : Location) (component : String) : Location :=
  if component = ".." then here.up else here.down [component]

/-- Where the components of a path lead, one after the other. -/
def follow (here : Location) (components : List String) : Location :=
  components.foldl enter here

/-- The path from `base` down to the location, if it lies below. -/
def below? (base location : Location) : Option String :=
  if base.components.isPrefixOf location.components ∧
      location.components ≠ base.components then
    some ("/".intercalate (location.components.drop base.components.length))
  else none

end Location

/-- How many bytes one component of a path may have. -/
def longestComponent : Nat := 255

/-- How many bytes a whole path may have. -/
def longestPath : Nat := 4095

/-- Why no path like this can be used, if none can. -/
def pathObstacle? (path : String) : Option FileFault :=
  if '\x00' ∈ path.toList then some .zeroInPath
  else if longestPath < path.utf8ByteSize then some .nameTooLong
  else none

structure FileTree where
  directories : List Location := []
  files : List (Location × Bytes) := []
  workingDirectory : Location := {}
  deriving DecidableEq, Repr

namespace FileTree

/-- Where a path begins. -/
def origin (t : FileTree) (path : String) : Location :=
  if Text.startsWith path "/" then {} else t.workingDirectory

/-- The location a path leads to. -/
def locate (t : FileTree) (path : String) : Location :=
  (t.origin path).follow (Path.components path.toList)

/-- Whether there is a directory at the location. -/
def hasDirectory (t : FileTree) (location : Location) : Bool :=
  location.components.isEmpty || decide (location ∈ t.directories)

/-- Whether there is a file at the location. -/
def hasFile (t : FileTree) (location : Location) : Bool :=
  t.files.any fun file => file.1 = location

/-- Whether there is a file or a directory at the location. -/
def isTaken (t : FileTree) (location : Location) : Bool :=
  t.hasDirectory location || t.hasFile location

/-- See to it that there is a directory where a component leads from `here`. -/
def ensure (t : FileTree) (here : Location) (component : String) : Except FileFault FileTree :=
  let next := here.enter component
  if component = ".." ∨ t.hasDirectory next then .ok t
  else if longestComponent < component.utf8ByteSize then .error .nameTooLong
  else if t.hasFile next then .error .pathTaken
  else .ok { t with directories := t.directories ++ [next] }

/-- Make the directories that `components` lead through from `here`, as far as that goes. -/
def makeBelow (t : FileTree) (here : Location) :
    List String → FileTree × Except FileFault Unit
  | [] => (t, .ok ())
  | component :: rest =>
      match t.ensure here component with
      | .error fault => (t, .error fault)
      | .ok grown => grown.makeBelow (here.enter component) rest

/-- Make the directory at `path` and all that the path leads through, as far as they are missing. -/
def makeDirectories (t : FileTree) (path : String) : FileTree × Except FileFault Unit :=
  match pathObstacle? path with
  | some fault => (t, .error fault)
  | none => t.makeBelow (t.origin path) (Path.components path.toList)

/-- Why no new file can be created at `path`, if none can. -/
def newFileObstacle? (t : FileTree) (path : String) : Option FileFault :=
  match pathObstacle? path with
  | some fault => some fault
  | none =>
      if longestComponent < ((Path.components path.toList).getLastD "").utf8ByteSize then
        some .nameTooLong
      else if t.isTaken (t.locate path) then some .pathTaken
      else none

/-- Keep one more file. -/
def keep (t : FileTree) (path : String) (contents : Bytes) : FileTree :=
  { t with files := t.files ++ [(t.locate path, contents)] }

/-- The files below a path with their paths from there, sorted by path. -/
def filesBelow (t : FileTree) (root : String) : List (String × Bytes) :=
  let found := t.files.filterMap fun file =>
    (Location.below? (t.locate root) file.1).map fun path => (path, file.2)
  found.mergeSort fun f g => !decide (g.1 < f.1)

/-- The directories below a path with their paths from there, sorted. -/
def directoriesBelow (t : FileTree) (root : String) : List String :=
  sortTexts (t.directories.filterMap (Location.below? (t.locate root)))

end FileTree

end CompanionFactory
