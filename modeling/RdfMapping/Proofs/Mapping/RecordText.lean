import RdfMapping.Mapping.Record
import RdfMapping.Proofs.Json.Values
import RdfMapping.Proofs.Outcome

/-!
Rule records written and read back.

A record is written as an object of all its fields under their own names, with nulls for the options
that are absent, and reading that object gives the record (`RuleRecord.ofJson?_toJson`). The text of a
list of records is a text of these objects, so it gives the list back, whatever its strings hold
(`RuleRecord.listOfText?_listToText`).
-/

namespace RdfMapping

namespace Json

@[simp] theorem text?_text (s : String) : text? (text s) = some s := rfl

@[simp] theorem textOrNull?_textOrNull (s : Option String) : textOrNull? (textOrNull s) = some s := by
  cases s <;> rfl

theorem list?_map {α : Type} {read? : Json → Option α} {write : α → Json}
    (h : ∀ a, read? (write a) = some a) (l : List α) : list? read? (.array (l.map write)) = some l := by
  rw [list?, mapM_eq_some_iff, List.map_map]
  exact List.map_congr_left fun a _ => h a

end Json

open Json (WellFormed)

theorem TermMapRecord.ofJson?_toJson (r : TermMapRecord) : ofJson? r.toJson = some r := by
  have given : Json.fields? spellings r.toJson = some [
      some (.textOrNull r.template), some (.textOrNull r.reference), some (.textOrNull r.constant),
      some (.textOrNull r.termType), some (.textOrNull r.language), some (.textOrNull r.datatype)] :=
    rfl
  simp [ofJson?, given, Json.optional?]

theorem JoinCondition.ofJson?_toJson (c : JoinCondition) : ofJson? c.toJson = some c := by
  have given : Json.fields? spellings c.toJson =
      some [some (.text c.childColumn), some (.text c.parentColumn)] := rfl
  simp [ofJson?, given, Json.required?]

theorem ReferencingObjectMap.ofJson?_toJson (m : ReferencingObjectMap) :
    ofJson? m.toJson = some m := by
  have given : Json.fields? spellings m.toJson = some [some (.text m.parentTriplesMap),
      some (.array (m.joinConditions.map JoinCondition.toJson))] := rfl
  simp [ofJson?, given, Json.required?, Json.list?_map JoinCondition.ofJson?_toJson]

theorem RuleRecord.ofJson?_toJson (r : RuleRecord) : ofJson? r.toJson = some r := by
  have given : Json.fields? spellings r.toJson = some [
      some (.text r.ruleId), some (.text r.triplesMapId), some (.text r.sourceName),
      some (.textOrNull r.tableName), some (.textOrNull r.sqlQuery), some (.text r.partitionId),
      some r.subject.toJson, some r.predicate.toJson, some r.object.toJson,
      some (.textOrNull r.parentTriplesMap),
      some (.array (r.joinConditions.map JoinCondition.toJson)), some r.graph.toJson] := rfl
  simp [ofJson?, given, Json.optional?, Json.list?_map JoinCondition.ofJson?_toJson,
    TermMapRecord.ofJson?_toJson]

/-! ## Texts -/

@[simp] theorem TermMapRecord.wellFormed_toJson (r : TermMapRecord) : WellFormed r.toJson := by
  simp [toJson]

@[simp] theorem JoinCondition.wellFormed_toJson (c : JoinCondition) : WellFormed c.toJson := by
  simp [toJson]

@[simp] theorem ReferencingObjectMap.wellFormed_toJson (m : ReferencingObjectMap) :
    WellFormed m.toJson := by
  simp [toJson]

@[simp] theorem RuleRecord.wellFormed_toJson (r : RuleRecord) : WellFormed r.toJson := by
  simp [toJson]

theorem RuleRecord.isText_listToText (records : List RuleRecord) :
    (Json.array (records.map toJson)).IsText (listToText records) :=
  Json.isText_render (by simp)

theorem ReferencingObjectMap.isText_toJson (m : ReferencingObjectMap) :
    m.toJson.IsText m.toJson.render :=
  Json.isText_render m.wellFormed_toJson

/-- **Records survive their text.** What is written for a list of records is a JSON text of their
objects and is read as the same list, so it states the rules that the records state or fails as they do.
A referencing object map survives its text likewise. -/
theorem RuleRecord.listOfText?_listToText :
    (∀ records : List RuleRecord,
      (Json.array (records.map toJson)).IsText (listToText records) ∧
      listOfText? (listToText records) = some records ∧
      MappingRule.listOfText (listToText records) = MappingRule.listOfRecords records) ∧
    ∀ m : ReferencingObjectMap, m.toJson.IsText m.toJson.render ∧
      (Json.parse? m.toJson.render).bind ReferencingObjectMap.ofJson? = some m := by
  refine ⟨fun records => ?_, fun m => ?_⟩
  · have text := isText_listToText records
    have read : listOfText? (listToText records) = some records := by
      rw [listOfText?, Json.parse?_of_isText text, Option.bind_some,
        Json.list?_map ofJson?_toJson]
    refine ⟨text, read, ?_⟩
    rw [MappingRule.listOfText, read]
  · have text := m.isText_toJson
    refine ⟨text, ?_⟩
    rw [Json.parse?_of_isText text, Option.bind_some, m.ofJson?_toJson]

end RdfMapping
