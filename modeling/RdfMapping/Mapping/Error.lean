import RdfMapping.Mapping.Rule
import RdfMapping.Table.Error

/-!
What can stop a rule, as causes grouped by kind, and the text of each cause.
-/

namespace RdfMapping

/-- A rule, or a column that it names, is wrong. -/
inductive ConfigurationFault where
  | columnNotFound (name : String)
  | termMap (fault : TermMapFault)
  | blankNode
  | rule (ruleId : String) (fault : RuleFault)
  | unreadableRules
  | needsJoinedBatch (ruleId : String)
  | noJoinConditions (ruleId parent : String)
  | columnNotInSource (column source : String)
  | joinColumnNotInSource (column source : String)
deriving DecidableEq

def ConfigurationFault.message : ConfigurationFault → String
  | columnNotFound name => "column not found: " ++ name
  | termMap fault => fault.message
  | blankNode => "blank node term maps are not supported"
  | rule ruleId fault => "rule '" ++ ruleId ++ "': " ++ fault.message
  | unreadableRules => "invalid mapping rule JSON"
  | needsJoinedBatch ruleId =>
    "rule '" ++ ruleId ++ "' references a parent triples map and needs a joined batch"
  | noJoinConditions ruleId parent =>
    "rule '" ++ ruleId ++ "': reference to '" ++ parent ++ "' has no join conditions"
  | columnNotInSource column source =>
    "column '" ++ column ++ "' not found in source '" ++ source ++ "'"
  | joinColumnNotInSource column source =>
    "join column '" ++ column ++ "' not found in source '" ++ source ++ "'"

/-- A source cannot be reached or cannot answer. -/
inductive DataSourceFault where
  | schema (fault : SchemaFault)
  | unknownSource (source : String)
  | unknownTable (table source : String)
  | queryText (source : String)
  | projection (source : String) (error : TableError)
  | noJoinConditions
  | acrossSources (ruleId child parent : String)
  | sides (error : TableError)
  | refused (source : String)
  | queryFailed
  | streamBroke
  | closeFailed
deriving DecidableEq

def DataSourceFault.message : DataSourceFault → String
  | schema fault => fault.message
  | unknownSource source => "unknown source '" ++ source ++ "'"
  | unknownTable table source => "table '" ++ table ++ "' not found in source '" ++ source ++ "'"
  | queryText source => "source '" ++ source ++ "' cannot run SQL queries"
  | projection source error => "source '" ++ source ++ "': " ++ error.message
  | noJoinConditions => "join request without join conditions"
  | acrossSources ruleId child parent =>
    "rule '" ++ ruleId ++ "': cannot join source '" ++ child ++ "' with parent source '" ++ parent ++
      "'"
  | sides error => error.message
  | refused source => "connection to '" ++ source ++ "' refused"
  | queryFailed => "query failed"
  | streamBroke => "stream broke"
  | closeFailed => "close failed"

/-- A cell has no text where one is needed. -/
inductive EncodingFault where
  | null (column : String) (row : Nat)
  | cell (column : String) (error : TableError)
  | key (row : Nat) (fault : CoercionFault)
deriving DecidableEq

def EncodingFault.message : EncodingFault → String
  | null column row => "column '" ++ column ++ "' row " ++ toString row ++ " is null"
  | cell column error => "column '" ++ column ++ "': " ++ error.message
  | key row fault => "row " ++ toString row ++ ": " ++ fault.message

/-- What stops a rule. -/
inductive MappingError where
  | configuration (fault : ConfigurationFault)
  | dataSource (fault : DataSourceFault)
  | joinResolution (triplesMapId : String)
  | encoding (fault : EncodingFault)
deriving DecidableEq

namespace MappingError

def message : MappingError → String
  | configuration fault => "Configuration error: " ++ fault.message
  | dataSource fault => "Data source error: " ++ fault.message
  | joinResolution triplesMapId =>
    "Join resolution error: parent triples map '" ++ triplesMapId ++ "' not found"
  | encoding fault => "Encoding error: " ++ fault.message

/-- What a failure of a table operation means for a rule. -/
def ofTableError : TableError → MappingError
  | .schema fault => .dataSource (.schema fault)
  | .columnNotFound name => .configuration (.columnNotFound name)
  | .notCoercible row fault => .encoding (.key row fault)

end MappingError

end RdfMapping
