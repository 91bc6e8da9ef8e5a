import CompanionFactory.File.Sink
import CompanionFactory.Log

/-!
# Stores of source files

A store keeps the generated files.  Creating a file and writing it is one step: the store opens
a fresh sink, a session writes into it, and the store keeps what the sink then holds, whether or
not the session went well.  Only the store can refuse a file, and then no session takes place.
-/

namespace CompanionFactory

universe u

/-- What came of creating a file: the store behind it, what was logged, and the answer of the
session. -/
structure Filed (φ : Type) (α : Type u) where
  store : φ
  log : Log := []
  answer : Except FileFault α

/-- Something that keeps source files; `φ` is its state. -/
class SourceStore (φ : Type) where
  /-- Create the file for the type `name`, generated from the elements shown as `origins`. -/
  create {α : Type} (store : φ) (name : String) (origins : List String)
    (session : Sink → Sink × α) : Filed φ α

/-- A file that a store keeps. -/
structure StoredFile where
  name : String
  /-- The elements it was generated from, as they are shown. -/
  origins : List String
  contents : Bytes
  deriving DecidableEq, Repr

namespace StoredFile

/-- The text of the file, when it is one. -/
def source? (f : StoredFile) : Option String :=
  Bytes.text? f.contents

end StoredFile

/-- Sort texts by their code points, which is also the order of their UTF-8 bytes. -/
def sortTexts (texts : List String) : List String :=
  texts.mergeSort fun s t => !decide (t < s)

end CompanionFactory
