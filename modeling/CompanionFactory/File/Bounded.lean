import CompanionFactory.File.Store

/-!
# Files of limited size

A store that creates every file, as often as it is asked, and gives each a fresh copy of one
sink.  It shows what becomes of files when there is too little room for them.
-/

namespace CompanionFactory

structure BoundedStore where
  /-- What every file is written into. -/
  fresh : Sink
  files : List StoredFile := []
  deriving DecidableEq, Repr

instance : SourceStore BoundedStore where
  create b name origins session :=
    let written := session b.fresh
    { store := { b with files := b.files ++ [⟨name, origins, written.1.held⟩] }
      answer := .ok written.2 }

end CompanionFactory
