import RdfMapping.Source.Join
import RdfMapping.Source.Query

/-!
Tables in memory, behind named sources.

A store holds the tables of each source and counts the connections that were opened and closed. A
connection keeps the tables that its source had when it was opened, so later changes of the store do
not reach it. A query is answered from these tables alone (`Connection.answer`).
-/

namespace RdfMapping

/-- The tables of a source, each name once. -/
abbrev Tables := List (String × Batch)

/-- Adds a table, or puts it in the place of the one with its name. -/
def Tables.put (tables : Tables) (name : String) (b : Batch) : Tables :=
  (name, b) :: tables.filter (·.1 != name)

/-- The sources with their tables, and the counts of connections. -/
structure Store where
  sources : List (String × Tables) := []
  opened : Nat := 0
  closed : Nat := 0

/-- A source as it was when the connection was opened. -/
structure Connection where
  source : String
  tables : Tables

namespace Store

def tables? (s : Store) (source : String) : Option Tables := s.sources.lookup source

/-- Adds or replaces a table, and the source if there is none of that name. -/
def insertTable (s : Store) (source table : String) (b : Batch) : Store :=
  let tables := ((s.tables? source).getD []).put table b
  { s with sources := (source, tables) :: s.sources.filter (·.1 != source) }

def openNow (s : Store) : Nat := s.opened - s.closed

/-- A connection to a source, without counting it. -/
def connect (s : Store) (source : String) : Except MappingError Connection :=
  match s.tables? source with
  | some tables => .ok ⟨source, tables⟩
  | none => .error (.dataSource (.unknownSource source))

/-- Opens a connection; only one that is opened is counted. -/
def openConnection (s : Store) (source : String) : Except MappingError (Connection × Store) :=
  (s.connect source).map fun c => (c, { s with opened := s.opened + 1 })

def closeConnection (s : Store) : Store := { s with closed := s.closed + 1 }

end Store

namespace Connection

/-- The table that a logical table names; texts of queries cannot be run. -/
def table (c : Connection) : LogicalTable → Except MappingError Batch
  | .table name =>
    match c.tables.lookup name with
    | some b => .ok b
    | none => .error (.dataSource (.unknownTable name c.source))
  | .query _ => .error (.dataSource (.queryText c.source))

/-- What a failed projection means to the one who asked. -/
def projectionError (c : Connection) : TableError → MappingError
  | .columnNotFound column => .configuration (.columnNotInSource column c.source)
  | error => .dataSource (.projection c.source error)

def project (c : Connection) (b : Batch) (columns : List String) : Except MappingError Batch :=
  (b.project columns).mapError c.projectionError

def keyColumns (c : Connection) (b : Batch) (names : List String) :
    Except MappingError (List Column) :=
  names.mapM fun name =>
    match b.column? name with
    | some column => .ok column
    | none => .error (.configuration (.joinColumnNotInSource name c.source))

/-- One side of a joined batch: the selected columns of the matched rows, under the prefix of the
role. -/
def side (c : Connection) (b : Batch) (columns : List String) (rows : List Nat) (role : Role) :
    Except MappingError Batch := do
  let selected ← c.project b columns
  .ok ((selected.pick rows).withLead role.lead)

/-- The pairs of rows of two tables that meet all conditions, side by side. -/
def join (c : Connection) (child parent : Selection) (conditions : List JoinCondition) :
    Except MappingError Batch :=
  if conditions.isEmpty then .error (.dataSource .noJoinConditions)
  else do
    let childTable ← c.table child.table
    let parentTable ← c.table parent.table
    let childColumns ← c.keyColumns childTable (conditions.map (·.childColumn))
    let parentColumns ← c.keyColumns parentTable (conditions.map (·.parentColumn))
    let parentKeys ← (rowKeys parentColumns parentTable.numRows).mapError .ofTableError
    let childKeys ← (rowKeys childColumns childTable.numRows).mapError .ofTableError
    -- the keys come first, so a cell without a text wins over a missing column of the answer
    let pairs := matchingPairs childKeys parentKeys
    let left ← c.side childTable child.columns (pairs.map (·.1)) .child
    let right ← c.side parentTable parent.columns (pairs.map (·.2)) .parent
    (left.beside right).mapError fun error => .dataSource (.sides error)

def select (c : Connection) : Request → Except MappingError Batch
  | .project selection => do
    let b ← c.table selection.table
    c.project b selection.columns
  | .join child parent conditions => c.join child parent conditions

def answer (c : Connection) (q : Query) : Except MappingError (List Batch) :=
  (c.select q.request).map fun b =>
    (if q.coerceFloat then b.decimalsToFloat else b).chunks q.chunkSize

end Connection

end RdfMapping
