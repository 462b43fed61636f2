import RdfMapping.Mapping.Error

/-!
The subject maps of triples maps, which joins refer to.

The first rule of a triples map says what its subject map and its table are.
-/

namespace RdfMapping

/-- The subject map of a triples map, with the table it reads. -/
structure SubjectMap where
  triplesMapId : String
  sourceName : String
  logicalTable : LogicalTable
  subject : TermMap
deriving DecidableEq, Repr

namespace SubjectMap

def ofRule (r : MappingRule) : SubjectMap :=
  ⟨r.triplesMapId, r.sourceName, r.logicalTable, r.subject⟩

def columns (m : SubjectMap) : TextSet := TextSet.ofList m.subject.columns

end SubjectMap

/-- The subject maps of a rule table, one for each triples map. -/
structure SubjectIndex where
  entries : List SubjectMap
deriving DecidableEq, Repr

namespace SubjectIndex

def find? (index : SubjectIndex) (triplesMapId : String) : Option SubjectMap :=
  index.entries.find? (·.triplesMapId == triplesMapId)

/-- Adds the subject map of a rule, unless its triples map has one. -/
def add (index : SubjectIndex) (r : MappingRule) : SubjectIndex :=
  match index.find? r.triplesMapId with
  | some _ => index
  | none => ⟨index.entries ++ [SubjectMap.ofRule r]⟩

def ofRules (rules : List MappingRule) : SubjectIndex := rules.foldl add ⟨[]⟩

/-- The subject map of the parent that a join names. -/
def resolve (index : SubjectIndex) (triplesMapId : String) : Except MappingError SubjectMap :=
  match index.find? triplesMapId with
  | some m => .ok m
  | none => .error (.joinResolution triplesMapId)

def size (index : SubjectIndex) : Nat := index.entries.length

end SubjectIndex

end RdfMapping
