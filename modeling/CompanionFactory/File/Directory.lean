import CompanionFactory.File.Tree

/-!
# Files below a directory

A store that keeps every file at the path of its name below a root.  First the directories above
the file are made, then the path is logged, and then the file is created; it must not be there
yet.  Directories that were made stay, whatever happens after that.
-/

namespace CompanionFactory

structure DirectoryStore where
  root : String
  tree : FileTree := {}
  deriving DecidableEq, Repr

namespace DirectoryStore

/-- The path at which the source of the type `name` is kept. -/
def pathOf (d : DirectoryStore) (name : String) : String :=
  Path.ofName d.root name

end DirectoryStore

instance : SourceStore DirectoryStore where
  create d name _ session :=
    let path := d.pathOf name
    match d.tree.makeDirectories (Path.parent path) with
    | (tree, .error fault) => { store := { d with tree := tree }, answer := .error fault }
    | (tree, .ok ()) =>
        let log := Log.debug ("Creating source file " ++ path)
        match tree.newFileObstacle? path with
        | some fault => { store := { d with tree := tree }, log := log, answer := .error fault }
        | none =>
            let written := session {}
            { store := { d with tree := tree.keep path written.1.held }
              log := log
              answer := .ok written.2 }

end CompanionFactory
