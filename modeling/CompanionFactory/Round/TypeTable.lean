import CompanionFactory.Element.Basic

/-!
# Known types

The elements that a host can look up by name.  An element inserted under a name replaces the one
before.  Inserting a family also inserts the types nested in it, and the outer element last.
-/

namespace CompanionFactory

/-- Elements by name; of several entries for a name the first one counts. -/
structure TypeTable where
  entries : List (String × Element) := []

namespace TypeTable

def get? (t : TypeTable) (name : String) : Option Element :=
  (t.entries.find? fun entry => entry.1 == name).map (·.2)

def insert (t : TypeTable) (name : String) (e : Element) : TypeTable :=
  ⟨(name, e) :: t.entries⟩

/-- Insert an element and all types nested in it under their qualified names. -/
def insertFamily (t : TypeTable) (e : Element) : TypeTable :=
  e.innerFirst.foldl (fun table inner => table.insert inner.qualifiedName inner) t

/-- Forget whatever is known under a name. -/
def erase (t : TypeTable) (name : String) : TypeTable :=
  ⟨t.entries.filter fun entry => entry.1 != name⟩

theorem get?_insert (t : TypeTable) (name other : String) (e : Element) :
    (t.insert name e).get? other = if other = name then some e else t.get? other := by
  by_cases h : other = name
  · subst h
    simp [get?, insert]
  · have hne : ¬name = other := fun h' => h h'.symm
    simp [get?, insert, h, hne]

end TypeTable

end CompanionFactory
