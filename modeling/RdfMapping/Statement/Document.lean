import RdfMapping.Text.TextSet

/-!
The document of a set of lines: the lines in ascending order, each ended by a line feed.
-/

namespace RdfMapping

/-- The document of a set of lines. -/
def TextSet.document (s : TextSet) : String := String.join (s.toList.map (· ++ "\n"))

end RdfMapping
