import RdfMapping.Mapping.TermMap
import RdfMapping.Text.TextSet

/-!
Mapping rules: one combination of subject, predicate, object and graph maps over one logical table.

The object of a rule is made from the row itself, or is the subject of a parent triples map that a
join finds. A record states a rule as texts; `RuleRecord.compile` checks it.
-/

namespace RdfMapping

/-- Where the rows of a rule come from. -/
inductive LogicalTable where
  | table (name : String)
  | query (sql : String)
deriving DecidableEq, Repr

def LogicalTable.text : LogicalTable → String
  | table name => "table " ++ name
  | query sql => "query (" ++ sql ++ ")"

def LogicalTable.isQuery : LogicalTable → Bool
  | table _ => false
  | query _ => true

/-- A pair of columns whose values have to be equal. -/
structure JoinCondition where
  childColumn : String
  parentColumn : String
deriving DecidableEq, Repr

/-- An object that is the subject of another triples map. -/
structure ReferencingObjectMap where
  parentTriplesMap : String
  joinConditions : List JoinCondition
deriving DecidableEq, Repr

namespace ReferencingObjectMap

def childColumns (m : ReferencingObjectMap) : TextSet :=
  TextSet.ofList (m.joinConditions.map (·.childColumn))

def parentColumns (m : ReferencingObjectMap) : TextSet :=
  TextSet.ofList (m.joinConditions.map (·.parentColumn))

def hasConditions (m : ReferencingObjectMap) : Bool := !m.joinConditions.isEmpty

end ReferencingObjectMap

inductive ObjectMap where
  | term (m : TermMap)
  | reference (m : ReferencingObjectMap)
deriving DecidableEq, Repr

/-- A rule that has been checked. -/
structure MappingRule where
  ruleId : String
  triplesMapId : String
  sourceName : String
  logicalTable : LogicalTable
  partitionId : String
  subject : TermMap
  predicate : TermMap
  object : ObjectMap
  graph : Option TermMap
deriving DecidableEq, Repr

namespace MappingRule

def isJoin (r : MappingRule) : Bool :=
  match r.object with
  | .term _ => false
  | .reference _ => true

def objectColumns (r : MappingRule) : List String :=
  match r.object with
  | .term m => m.columns
  | .reference m => m.joinConditions.map (·.childColumn)

/-- The columns that a rule reads from its own table. -/
def columns (r : MappingRule) : TextSet :=
  TextSet.ofList (r.subject.columns ++ r.predicate.columns ++
    (r.graph.map TermMap.columns).getD [] ++ r.objectColumns)

end MappingRule

/-- Why a record is no rule. -/
inductive RuleFault where
  | noTriplesMapId
  | noLogicalTable
  | tableAndQuery
  | termMap (fault : TermMapFault)
  | termMapAndParent
  | noJoinConditions (parent : String)
  | noParent
deriving DecidableEq, Repr

def RuleFault.message : RuleFault → String
  | noTriplesMapId => "missing triples map id"
  | noLogicalTable => "missing logical table"
  | tableAndQuery => "logical table has both a table name and a query"
  | termMap fault => "Configuration error: " ++ fault.message
  | termMapAndParent => "object has both a term map and a parent triples map"
  | noJoinConditions parent => "reference to '" ++ parent ++ "' has no join conditions"
  | noParent => "join conditions without a parent triples map"

/-- A rule as a rule file states it. -/
structure RuleRecord where
  ruleId : String := ""
  triplesMapId : String := ""
  sourceName : String := ""
  tableName : Option String := none
  sqlQuery : Option String := none
  partitionId : String := ""
  subject : TermMapRecord := {}
  predicate : TermMapRecord := {}
  object : TermMapRecord := {}
  parentTriplesMap : Option String := none
  joinConditions : List JoinCondition := []
  graph : TermMapRecord := {}
deriving DecidableEq, Repr

namespace RuleRecord

def logicalTable (r : RuleRecord) : Except RuleFault LogicalTable :=
  match r.tableName, r.sqlQuery with
  | some name, none => .ok (.table name)
  | none, some sql => .ok (.query sql)
  | none, none => .error .noLogicalTable
  | some _, some _ => .error .tableAndQuery

def termMap (m : TermMapRecord) (position : TermPosition) : Except RuleFault TermMap :=
  (m.compile position).mapError .termMap

/-- The object map that the record states: a reference to a parent needs conditions and excludes a
term map, and conditions need a parent. -/
def objectMap (r : RuleRecord) : Except RuleFault ObjectMap :=
  match r.parentTriplesMap with
  | some parent =>
    if !r.object.isEmpty then .error .termMapAndParent
    else if r.joinConditions.isEmpty then .error (.noJoinConditions parent)
    else .ok (.reference ⟨parent, r.joinConditions⟩)
  | none =>
    if !r.joinConditions.isEmpty then .error .noParent
    else (termMap r.object .object).map .term

/-- The graph map that the record states; the default graph needs none. -/
def graphMap (r : RuleRecord) : Except RuleFault (Option TermMap) :=
  if r.graph.isEmpty then .ok none
  else (termMap r.graph .graph).map fun g => if g.isDefaultGraph then none else some g

def compile (r : RuleRecord) : Except RuleFault MappingRule :=
  if r.triplesMapId = "" then .error .noTriplesMapId
  else do
    let logicalTable ← r.logicalTable
    let subject ← termMap r.subject .subject
    let predicate ← termMap r.predicate .predicate
    let object ← r.objectMap
    let graph ← r.graphMap
    .ok { ruleId := r.ruleId, triplesMapId := r.triplesMapId, sourceName := r.sourceName,
          logicalTable, partitionId := r.partitionId, subject, predicate, object, graph }

end RuleRecord

end RdfMapping
