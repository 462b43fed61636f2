import RdfMapping.Mapping.Rule

/-!
Queries to a source: rows of one table, or pairs of rows of two tables.
-/

namespace RdfMapping

structure Selection where
  table : LogicalTable
  columns : List String
deriving DecidableEq, Repr

inductive Request where
  /-- The rows of a table. -/
  | project (selection : Selection)
  /-- The pairs of rows of a child and a parent table that meet the conditions. -/
  | join (child parent : Selection) (conditions : List JoinCondition)
deriving DecidableEq, Repr

/-- A request, the number of rows that a batch of the answer may have, and whether decimals are to be
delivered as doubles. -/
structure Query where
  request : Request
  chunkSize : Nat
  coerceFloat : Bool
deriving DecidableEq, Repr

end RdfMapping
