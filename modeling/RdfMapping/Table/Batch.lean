import RdfMapping.Table.Column
import RdfMapping.Table.Role

/-!
Batches of rows: named columns of one length.

A batch holds its fields and columns in pairs, so there are as many of the one as of the other, and
the number of its rows, which a batch without columns has too. `Batch.WellFormed` says that every
column has that number of rows. Names may repeat; a name then means the last field that carries it
(`Batch.indexOf?`).
-/

namespace RdfMapping

/-- The declaration of a column. Its type is declared, and not read off the column. -/
structure Field where
  name : String
  type : FieldType
  nullable : Bool
deriving DecidableEq

structure Entry where
  field : Field
  column : Column

/-- The position of the last occurrence of a name. -/
def lastIndexOf? (name : String) : List String → Option Nat
  | [] => none
  | n :: rest =>
    match lastIndexOf? name rest with
    | some i => some (i + 1)
    | none => if n = name then some 0 else none

/-- Named columns with a number of rows. -/
structure Batch where
  entries : List Entry
  numRows : Nat

namespace Batch

def WellFormed (b : Batch) : Prop := ∀ e ∈ b.entries, e.column.size = b.numRows

/-- Every column has the type that its field declares. -/
def WellTyped (b : Batch) : Prop := ∀ e ∈ b.entries, e.column.type = e.field.type

def fields (b : Batch) : List Field := b.entries.map (·.field)

def columns (b : Batch) : List Column := b.entries.map (·.column)

def names (b : Batch) : List String := b.entries.map (·.field.name)

def isEmpty (b : Batch) : Bool := b.numRows == 0

/-! ## Building -/

/-- The first column, counted from `index`, whose length is not `expected`. -/
def firstOfOtherSize? (expected : Nat) : Nat → List Column → Option (Nat × Nat)
  | _, [] => none
  | index, c :: rest =>
    if c.size = expected then firstOfOtherSize? expected (index + 1) rest
    else some (index, c.size)

/-- The batch of the given fields and columns, whose length is that of the first column. -/
def ofColumns (fields : List Field) (columns : List Column) : Except TableError Batch :=
  if fields.length ≠ columns.length then
    .error (.schema (.columnCount fields.length columns.length))
  else
    let numRows := (columns.head?.map Column.size).getD 0
    match firstOfOtherSize? numRows 0 columns with
    | some (index, rows) => .error (.schema (.columnLength index rows numRows))
    | none => .ok ⟨fields.zipWith Entry.mk columns, numRows⟩

def empty (fields : List Field) : Batch :=
  ⟨fields.map fun f => ⟨f, Column.empty f.type⟩, 0⟩

/-- The first row, counted from `index`, whose width is not `expected`. -/
def firstOfOtherWidth? (expected : Nat) : Nat → List (List (Option String)) → Option (Nat × Nat)
  | _, [] => none
  | index, row :: rest =>
    if row.length = expected then firstOfOtherWidth? expected (index + 1) rest
    else some (index, row.length)

/-- The batch of nullable text columns with the given rows; without names it has no rows. -/
def ofStringRows (names : List String) (rows : List (List (Option String))) :
    Except TableError Batch :=
  match firstOfOtherWidth? names.length 0 rows with
  | some (index, cells) => .error (.schema (.rowWidth index cells names.length))
  | none =>
    let entry := fun (name : String) (index : Nat) =>
      { field := ⟨name, .string, true⟩
        column := ⟨.string, (rows.map fun row => (row[index]?).join).toArray⟩ : Entry }
    .ok ⟨names.mapIdx fun index name => entry name index,
      if names.isEmpty then 0 else rows.length⟩

/-! ## Looking up columns -/

/-- The position of the column that a name means. -/
def indexOf? (b : Batch) (name : String) : Option Nat := lastIndexOf? name b.names

def entry? (b : Batch) (name : String) : Option Entry := (b.indexOf? name).bind (b.entries[·]?)

def column? (b : Batch) (name : String) : Option Column := (b.entry? name).map (·.column)

def require (b : Batch) (name : String) : Except TableError Entry :=
  match b.entry? name with
  | some e => .ok e
  | none => .error (.columnNotFound name)

def columnFor (b : Batch) (role : Role) (name : String) : Except TableError Column :=
  (b.require (role.qualify name)).map (·.column)

/-! ## Rows -/

/-- The rows at `indices`, in that order; a row past the end is null in every column. -/
def pick (b : Batch) (indices : List Nat) : Batch :=
  ⟨b.entries.map fun e => ⟨e.field, e.column.pick indices⟩, indices.length⟩

/-- The rows at `indices`, in that order; there is no such batch if a column lacks one of them. -/
def gather? (b : Batch) (indices : List Nat) : Option Batch :=
  if b.entries.all (·.column.covers indices) then some (b.pick indices) else none

/-- At most `length` rows from `offset` on. -/
def slice (b : Batch) (offset length : Nat) : Batch :=
  ⟨b.entries.map fun e => ⟨e.field, e.column.slice offset length⟩,
    min length (b.numRows - offset)⟩

/-- The number of rows of a chunk when at most `size` are asked for: at least one. -/
def chunkStep (size : Nat) : Nat := max size 1

def chunkCount (rows step : Nat) : Nat := (rows + step - 1) / step

/-- The rows in order, cut into chunks of at most `size` rows. -/
def chunks (b : Batch) (size : Nat) : List Batch :=
  let step := chunkStep size
  (List.range (chunkCount b.numRows step)).map fun k => b.slice (k * step) step

/-! ## Columns -/

def project (b : Batch) (names : List String) : Except TableError Batch :=
  (names.mapM b.require).map fun entries => ⟨entries, b.numRows⟩

/-- The same columns, with `lead` in front of every name. -/
def withLead (b : Batch) (lead : String) : Batch :=
  ⟨b.entries.map fun e => ⟨{ e.field with name := lead ++ e.field.name }, e.column⟩, b.numRows⟩

/-- The columns of both batches, row by row; the right one may repeat no name of the left one. -/
def beside (b other : Batch) : Except TableError Batch :=
  if b.numRows ≠ other.numRows then .error (.schema (.rowCounts b.numRows other.numRows))
  else
    match other.names.find? (b.names.contains ·) with
    | some name => .error (.schema (.duplicateColumn name))
    | none => .ok ⟨b.entries ++ other.entries, b.numRows⟩

/-- Decimal fields are declared as doubles, and decimal columns hold doubles. -/
def decimalsToFloat (b : Batch) : Batch :=
  ⟨b.entries.map fun e =>
    ⟨{ e.field with type := e.field.type.decimalsToFloat }, e.column.decimalsToFloat⟩, b.numRows⟩

@[simp] theorem length_columns (b : Batch) : b.columns.length = b.fields.length := by
  simp [columns, fields]

end Batch

end RdfMapping
