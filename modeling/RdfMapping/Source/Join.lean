import Std.Data.HashMap
import RdfMapping.Mapping.Error
import RdfMapping.Table.Batch

/-!
Matching the rows of two tables by key.

The key of a row is the list of the texts of its key cells; a row with a null among them has no key
and matches nothing. All keys of the parent are made first, then those of the child, and the first
cell without a text stops the join. The rows of the parent are then indexed by key (`RowIndex`), and
each row of the child is paired with the rows of its key (`matchingPairs`). `nestedPairs` compares
every row of the child with every row of the parent instead.
-/

namespace RdfMapping

/-- The texts that have to be equal for two rows to match. -/
abbrev RowKey := List String

/-- The key of a row; the first null cell or the first cell without a text decides. -/
def rowKey : List Column → Nat → Except TableError (Option RowKey)
  | [], _ => .ok (some [])
  | c :: rest, row =>
    match c.text? row with
    | .error error => .error error
    | .ok none => .ok none
    | .ok (some part) => (rowKey rest row).map (Option.map (part :: ·))

def rowKeys (columns : List Column) (rows : Nat) : Except TableError (List (Option RowKey)) :=
  (List.range rows).mapM (rowKey columns)

/-- The rows of each key, in ascending order. -/
abbrev RowIndex := Std.HashMap RowKey (List Nat)

namespace RowIndex

def rows (index : RowIndex) (key : RowKey) : List Nat := (index[key]?).getD []

/-- Puts a row in front of the rows of its key. -/
def add (index : RowIndex) (key : RowKey) (row : Nat) : RowIndex :=
  index.insert key (row :: index.rows key)

/-- Indexes a list of keys, whose first row has the number `first`. -/
def ofKeys : Nat → List (Option RowKey) → RowIndex
  | _, [] => ∅
  | first, none :: rest => ofKeys (first + 1) rest
  | first, some key :: rest => (ofKeys (first + 1) rest).add key first

end RowIndex

def rowsWithKey (key : RowKey) : Nat → List (Option RowKey) → List Nat
  | _, [] => []
  | first, k :: rest =>
    if k = some key then first :: rowsWithKey key (first + 1) rest
    else rowsWithKey key (first + 1) rest

def indexedRows (index : RowIndex) : Option RowKey → List Nat
  | some key => index.rows key
  | none => []

/-- The pairs of rows with equal keys, by child row and then by parent row. -/
def matchingPairs (child parent : List (Option RowKey)) : List (Nat × Nat) :=
  let index := RowIndex.ofKeys 0 parent
  child.zipIdx.flatMap fun (key, row) => (indexedRows index key).map fun other => (row, other)

/-- The pairs of rows with equal keys, found by comparing every two rows. -/
def nestedPairs (child parent : List (Option RowKey)) : List (Nat × Nat) :=
  child.zipIdx.flatMap fun (key, row) =>
    (parent.zipIdx.filter fun (other, _) => key.isSome && other == key).map fun (_, other) =>
      (row, other)

theorem rows_add (index : RowIndex) (key other : RowKey) (row : Nat) :
    (index.add key row).rows other =
      if key = other then row :: index.rows key else index.rows other := by
  simp only [RowIndex.rows, RowIndex.add, Std.HashMap.getElem?_insert, beq_iff_eq]
  split <;> simp

theorem rows_ofKeys (key : RowKey) (first : Nat) (keys : List (Option RowKey)) :
    (RowIndex.ofKeys first keys).rows key = rowsWithKey key first keys := by
  induction keys generalizing first with
  | nil => simp [RowIndex.ofKeys, RowIndex.rows, rowsWithKey]
  | cons k rest ih =>
    cases k with
    | none => simpa [RowIndex.ofKeys, rowsWithKey] using ih (first + 1)
    | some k =>
      simp only [RowIndex.ofKeys, rowsWithKey, rows_add, Option.some.injEq]
      split
      · rename_i h
        subst h
        simp [ih]
      · simp [ih]

end RdfMapping
