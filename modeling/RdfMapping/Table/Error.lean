import RdfMapping.Number.FixedPoint

/-!
What can go wrong with tables, as causes, and the text of each cause.
-/

namespace RdfMapping

/-- Why a cell has no text. -/
inductive CoercionFault where
  | decimalOutOfRange (unscaled : Int128) (scale : Int)
  | dateOutOfRange (days : Int)
  | timestampOutOfRange (micros : Int)
  /-- A reason given in words by whoever supplies the cell. -/
  | stated (reason : String)
deriving DecidableEq

def CoercionFault.message : CoercionFault → String
  | decimalOutOfRange unscaled scale =>
    "decimal " ++ toString unscaled.toInt ++ " with scale " ++ toString scale ++ " is out of range"
  | dateOutOfRange days => "date " ++ toString days ++ " days from epoch is out of range"
  | timestampOutOfRange micros => "timestamp " ++ toString micros ++ " us from epoch is out of range"
  | stated reason => reason

/-- How columns fail to make up one batch. -/
inductive SchemaFault where
  | columnCount (fields columns : Nat)
  | columnLength (column rows expected : Nat)
  | rowWidth (row cells expected : Nat)
  | rowCounts (left right : Nat)
  | duplicateColumn (name : String)
  /-- A fault given in words by whoever supplies the table. -/
  | stated (detail : String)
deriving DecidableEq

def SchemaFault.message : SchemaFault → String
  | columnCount fields columns =>
    "Column count mismatch: schema has " ++ toString fields ++ " fields, got " ++ toString columns ++
      " columns"
  | columnLength column rows expected =>
    "Row count mismatch: column " ++ toString column ++ " has " ++ toString rows ++
      " rows, expected " ++ toString expected
  | rowWidth row cells expected =>
    "Row " ++ toString row ++ " has " ++ toString cells ++ " cells, expected " ++ toString expected
  | rowCounts left right =>
    "Row count mismatch: left has " ++ toString left ++ " rows, right has " ++ toString right
  | duplicateColumn name => "Duplicate column name: " ++ name
  | stated detail => detail

/-- A failure of a table operation. -/
inductive TableError where
  | schema (fault : SchemaFault)
  | columnNotFound (name : String)
  | notCoercible (row : Nat) (fault : CoercionFault)
deriving DecidableEq

def TableError.message : TableError → String
  | schema fault => "Schema error: " ++ fault.message
  | columnNotFound name => "Column not found: " ++ name
  | notCoercible row fault =>
    "Value at row " ++ toString row ++ " cannot be rendered as a string: " ++ fault.message

end RdfMapping
