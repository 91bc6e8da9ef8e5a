/-!
# Dotted names

Qualified names are texts whose parts are separated by dots.  This module joins an outer name
with a simple one and takes a name apart again.  Nothing here asks for the parts to be
identifiers: empty parts, blanks and slashes are parts like any other.
-/

namespace CompanionFactory.Text

/-- Put `simple` below `outer`; the empty outer name adds nothing, not even a dot. -/
def qualify (outer simple : String) : String :=
  if outer = "" then simple else outer ++ "." ++ simple

/-- The parts between the dots, in order.  The empty name has one empty part. -/
def segments (name : String) : List String :=
  (name.toList.splitOn '.').map String.ofList

/-- The part after the last dot, or the whole name when it has no dot. -/
def lastSegment (name : String) : String :=
  (segments name).getLastD ""

/-- Whether `text` begins with `head`, character by character. -/
def startsWith (text head : String) : Bool :=
  head.toList.isPrefixOf text.toList

@[simp] theorem qualify_empty (simple : String) : qualify "" simple = simple := by
  simp [qualify]

theorem qualify_of_ne_empty {outer : String} (h : outer ≠ "") (simple : String) :
    qualify outer simple = outer ++ "." ++ simple := by
  simp [qualify, h]

/-- The parts put back between dots give the name. -/
theorem intercalate_segments (name : String) : ".".intercalate (segments name) = name := by
  apply String.toList_injective
  simp [segments, String.toList_intercalate, Function.comp_def, List.intercalate_splitOn]

theorem startsWith_iff {text head : String} :
    startsWith text head = true ↔ head.toList <+: text.toList := by
  simp [startsWith]

end CompanionFactory.Text
