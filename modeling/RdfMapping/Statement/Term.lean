import RdfMapping.Mapping.Error
import RdfMapping.Number.Power
import RdfMapping.Statement.Literal
import RdfMapping.Statement.Percent
import RdfMapping.Table.Batch

/-!
Rendering the terms of a term map over a batch, one term for each row.

The kind of term and the columns are settled once for the batch (`TermMap.kind`, `TermMap.parts`),
so a blank node map and a missing column fail on an empty batch too. Each row is then rendered on
its own (`renderRow`), and the first row that fails stops the term. A rendered term ends in a space.
-/

namespace RdfMapping

/-- How a value is wrapped. -/
inductive TermKind where
  | iri
  | literal (language datatype : Option String)
deriving DecidableEq, Repr

/-- The kind of term that a term map makes; blank nodes cannot be made. -/
def TermMap.kind (m : TermMap) : Except MappingError TermKind :=
  match m.termType with
  | .iri => .ok .iri
  | .literal => .ok (.literal m.language m.datatype)
  | .blankNode => .error (.configuration .blankNode)

def TermKind.wrap : TermKind → String → String
  | iri, value => "<" ++ value ++ "> "
  | literal language datatype, value => Literal.render language datatype value ++ " "

/-- The most terms that a column of equal terms can have: each takes 24 bytes, and all of them have to
have fewer than two to the power of 63. -/
def maxRepeats : Nat := (twoTo 63 - 1) / 24

/-- A column of one value, wrapped once and repeated for each row, if it has room for them. -/
def TermKind.column? (kind : TermKind) (value : String) (rows : Nat) : Option (List String) :=
  if rows ≤ maxRepeats then some (List.replicate rows (kind.wrap value)) else none

/-- How the text of a cell enters a value: in an IRI it is percent-encoded, and a cell that is the
whole IRI keeps its colons and slashes; in a literal it stays as it is. -/
def TermKind.cellEncoding : TermKind → TermValue → String → String
  | iri, .column _ => Percent.encode Percent.isUnreservedOrPath
  | iri, _ => Percent.encode Percent.isUnreserved
  | literal _ _, _ => id

/-- A part of a value: fixed text, or the cells of a column, known by its name in the batch. -/
inductive Part where
  | text (s : String)
  | cells (name : String) (column : Column)

def Part.ofColumn (b : Batch) (role : Role) (name : String) : Except MappingError Part :=
  match b.columnFor role name with
  | .ok column => .ok (.cells (role.qualify name) column)
  | .error error => .error (.ofTableError error)

def Part.ofSegment (b : Batch) (role : Role) : Segment → Except MappingError Part
  | .text s => .ok (.text s)
  | .column name => ofColumn b role name

def TermValue.parts (v : TermValue) (b : Batch) (role : Role) : Except MappingError (List Part) :=
  match v with
  | .template t => t.segments.mapM (Part.ofSegment b role)
  | .column name => (Part.ofColumn b role name).map ([·])
  | .constant text => .ok [.text text]

/-- The text of a cell, which has to be there. -/
def cellText (name : String) (column : Column) (row : Nat) : Except MappingError String :=
  match column.text? row with
  | .ok (some s) => .ok s
  | .ok none => .error (.encoding (.null name row))
  | .error error => .error (.encoding (.cell name error))

def Part.render (encode : String → String) (row : Nat) : Part → Except MappingError String
  | text s => .ok s
  | cells name column => (cellText name column row).map encode

def renderValue (encode : String → String) (parts : List Part) (row : Nat) :
    Except MappingError String :=
  (parts.mapM (Part.render encode row)).map String.join

def renderRow (kind : TermKind) (encode : String → String) (parts : List Part) (row : Nat) :
    Except MappingError String :=
  (renderValue encode parts row).map kind.wrap

/-- The terms of a batch, one for each row. -/
def TermMap.render (m : TermMap) (b : Batch) (role : Role) : Except MappingError (List String) := do
  let kind ← m.kind
  let parts ← m.value.parts b role
  (List.range b.numRows).mapM (renderRow kind (kind.cellEncoding m.value) parts)

end RdfMapping
