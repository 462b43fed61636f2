import RdfMapping.Mapping.SubjectIndex

/-!
The subject map that a join finds.

Of the rules of a triples map the first one says what its subject map is (`find?_ofRules`), so the
order of rules of different triples maps says nothing.
-/

namespace RdfMapping.SubjectIndex

/-- Adding a rule changes what is found for its triples map only, and only if there was nothing. -/
theorem find?_add (index : SubjectIndex) (r : MappingRule) (id : String) :
    (index.add r).find? id =
      (index.find? id).or (if r.triplesMapId = id then some (SubjectMap.ofRule r) else none) := by
  simp only [add]
  cases found : index.find? r.triplesMapId with
  | some m =>
    by_cases same : r.triplesMapId = id
    · rw [← same, found, Option.some_or]
    · rw [if_neg same, Option.or_none]
  | none =>
    have head : (SubjectMap.ofRule r).triplesMapId = r.triplesMapId := rfl
    by_cases same : r.triplesMapId = id <;>
      simp [find?, List.find?_append, head, same]

theorem find?_foldl_add (rules : List MappingRule) (index : SubjectIndex) (id : String) :
    (rules.foldl add index).find? id = (index.find? id).or
      ((rules.find? (·.triplesMapId == id)).map SubjectMap.ofRule) := by
  induction rules generalizing index with
  | nil => simp
  | cons r rest ih =>
    rw [List.foldl_cons, ih, find?_add, Option.or_assoc, List.find?_cons]
    by_cases same : r.triplesMapId = id
    · simp [same]
    · simp [same, beq_false_of_ne same]

theorem find?_ofRules (rules : List MappingRule) (id : String) :
    (ofRules rules).find? id =
      (rules.filter (·.triplesMapId == id)).head?.map SubjectMap.ofRule := by
  rw [ofRules, find?_foldl_add, List.head?_filter]
  exact Option.none_or

end RdfMapping.SubjectIndex
