import RdfMapping.Json.Fields
import RdfMapping.Json.Reader
import RdfMapping.Mapping.Error

/-!
Rule records in JSON: written with all their fields, and read in any of their spellings.

`MappingRule.listOfText` reads the rules of a text: it has to be a list of records, and the first
record that states no rule stops it.
-/

namespace RdfMapping

open Json (Spellings optional? required? text? textOrNull? list?)

namespace TermMapRecord

def spellings : List Spellings :=
  [["template"], ["reference", "column"], ["constant"], ["term_type", "termtype"], ["language"],
    ["datatype"]]

def ofJson? (j : Json) : Option TermMapRecord :=
  match Json.fields? spellings j with
  | some [template, reference, constant, termType, language, datatype] => do
    some {
      template := ← optional? none textOrNull? template
      reference := ← optional? none textOrNull? reference
      constant := ← optional? none textOrNull? constant
      termType := ← optional? none textOrNull? termType
      language := ← optional? none textOrNull? language
      datatype := ← optional? none textOrNull? datatype }
  | _ => none

def toJson (r : TermMapRecord) : Json :=
  .object [
    (some "template", .textOrNull r.template),
    (some "reference", .textOrNull r.reference),
    (some "constant", .textOrNull r.constant),
    (some "term_type", .textOrNull r.termType),
    (some "language", .textOrNull r.language),
    (some "datatype", .textOrNull r.datatype)]

end TermMapRecord

namespace JoinCondition

def spellings : List Spellings :=
  [["child_column", "child", "child_value"], ["parent_column", "parent", "parent_value"]]

def ofJson? (j : Json) : Option JoinCondition :=
  match Json.fields? spellings j with
  | some [child, parent] => do
    some {
      childColumn := ← required? text? child
      parentColumn := ← required? text? parent }
  | _ => none

def toJson (c : JoinCondition) : Json :=
  .object [(some "child_column", .text c.childColumn), (some "parent_column", .text c.parentColumn)]

end JoinCondition

namespace ReferencingObjectMap

def spellings : List Spellings := [["parent_triples_map"], ["join_conditions"]]

def ofJson? (j : Json) : Option ReferencingObjectMap :=
  match Json.fields? spellings j with
  | some [parent, conditions] => do
    some {
      parentTriplesMap := ← required? text? parent
      joinConditions := ← required? (list? JoinCondition.ofJson?) conditions }
  | _ => none

def toJson (m : ReferencingObjectMap) : Json :=
  .object [
    (some "parent_triples_map", .text m.parentTriplesMap),
    (some "join_conditions", .array (m.joinConditions.map JoinCondition.toJson))]

end ReferencingObjectMap

namespace RuleRecord

def spellings : List Spellings :=
  [["rule_id", "id"], ["triples_map_id"], ["source_name"], ["table_name"], ["sql_query"],
    ["partition_id"], ["subject"], ["predicate"], ["object"],
    ["parent_triples_map", "object_parent_triples_map"], ["join_conditions"], ["graph"]]

def ofJson? (j : Json) : Option RuleRecord :=
  match Json.fields? spellings j with
  | some [ruleId, triplesMapId, sourceName, tableName, sqlQuery, partitionId, subject, predicate,
      object, parentTriplesMap, joinConditions, graph] => do
    some {
      ruleId := ← optional? "" text? ruleId
      triplesMapId := ← optional? "" text? triplesMapId
      sourceName := ← optional? "" text? sourceName
      tableName := ← optional? none textOrNull? tableName
      sqlQuery := ← optional? none textOrNull? sqlQuery
      partitionId := ← optional? "" text? partitionId
      subject := ← optional? {} TermMapRecord.ofJson? subject
      predicate := ← optional? {} TermMapRecord.ofJson? predicate
      object := ← optional? {} TermMapRecord.ofJson? object
      parentTriplesMap := ← optional? none textOrNull? parentTriplesMap
      joinConditions := ← optional? [] (list? JoinCondition.ofJson?) joinConditions
      graph := ← optional? {} TermMapRecord.ofJson? graph }
  | _ => none

def toJson (r : RuleRecord) : Json :=
  .object [
    (some "rule_id", .text r.ruleId),
    (some "triples_map_id", .text r.triplesMapId),
    (some "source_name", .text r.sourceName),
    (some "table_name", .textOrNull r.tableName),
    (some "sql_query", .textOrNull r.sqlQuery),
    (some "partition_id", .text r.partitionId),
    (some "subject", r.subject.toJson),
    (some "predicate", r.predicate.toJson),
    (some "object", r.object.toJson),
    (some "parent_triples_map", .textOrNull r.parentTriplesMap),
    (some "join_conditions", .array (r.joinConditions.map JoinCondition.toJson)),
    (some "graph", r.graph.toJson)]

def listOfText? (s : String) : Option (List RuleRecord) :=
  (Json.parse? s).bind (list? ofJson?)

def listToText (records : List RuleRecord) : String :=
  (Json.array (records.map toJson)).render

/-- The rule that the record states, or what is wrong with it. -/
def toRule (r : RuleRecord) : Except MappingError MappingRule :=
  r.compile.mapError fun fault => .configuration (.rule r.ruleId fault)

end RuleRecord

namespace MappingRule

def listOfRecords (records : List RuleRecord) : Except MappingError (List MappingRule) :=
  records.mapM RuleRecord.toRule

def listOfText (s : String) : Except MappingError (List MappingRule) :=
  match RuleRecord.listOfText? s with
  | some records => listOfRecords records
  | none => .error (.configuration .unreadableRules)

end MappingRule

end RdfMapping
