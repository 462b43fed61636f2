import RdfMapping.Calendar.Instant
import RdfMapping.Number.Shortest
import RdfMapping.Text.Hex
import RdfMapping.Table.Error

/-!
Typed columns of nullable cells.

The type of a column decides what its cells are (`FieldType.Cell`) and how a cell is written
(`FieldType.cellText`). Selecting rows (`pick`), cutting out rows (`slice`) and turning decimals
into doubles act on the cells alone; `getElem?_slice` and `size_slice` say what a cut holds.
-/

namespace RdfMapping

inductive FieldType where
  | boolean
  | int64
  | float64
  | decimal (scale : Int8)
  | string
  | bytes
  | date
  | timestamp
deriving DecidableEq, Repr

namespace FieldType

/-- The values of a type: dates count days and timestamps microseconds from 1970-01-01. -/
@[reducible] def Cell : FieldType → Type
  | boolean => Bool
  | int64 => Int64
  | float64 => Float
  | decimal _ => Int128
  | string => String
  | bytes => List UInt8
  | date => Int32
  | timestamp => Int64

def cellText : (t : FieldType) → t.Cell → Except CoercionFault String
  | boolean, b => .ok (if b then "true" else "false")
  | int64, n => .ok (toString n.toInt)
  | float64, x => .ok (Shortest.text x)
  | decimal scale, u =>
    match FixedPoint.text? u scale.toInt with
    | some s => .ok s
    | none => .error (.decimalOutOfRange u scale.toInt)
  | string, s => .ok s
  | bytes, bs => .ok (Hex.ofBytes bs)
  | date, days =>
    match Date.textOfDays? days.toInt with
    | some s => .ok s
    | none => .error (.dateOutOfRange days.toInt)
  | timestamp, micros =>
    match Instant.text? micros.toInt with
    | some s => .ok s
    | none => .error (.timestampOutOfRange micros.toInt)

/-- Whether two values are the same; doubles are compared as numbers. -/
def sameCell : (t : FieldType) → t.Cell → t.Cell → Bool
  | boolean, a, b => a == b
  | int64, a, b => a == b
  | float64, a, b => a == b
  | decimal _, a, b => decide (a = b)
  | string, a, b => a == b
  | bytes, a, b => a == b
  | date, a, b => a == b
  | timestamp, a, b => a == b

def decimalsToFloat : FieldType → FieldType
  | decimal _ => float64
  | t => t

end FieldType

/-- The double nearest to an unscaled value, divided by the power of ten of its scale. -/
def decimalToFloat (scale : Int8) (unscaled : Int128) : Float :=
  Binary64.nearest unscaled.toInt / Binary64.power 10 scale.toInt

/-- A column: cells of one type, each of them possibly null. -/
structure Column where
  type : FieldType
  cells : Array (Option type.Cell)

namespace Column

def empty (type : FieldType) : Column := ⟨type, #[]⟩

def size (c : Column) : Nat := c.cells.size

/-- Whether a row holds no value; rows past the end hold none. -/
def isNull (c : Column) (row : Nat) : Bool := (c.cells[row]?).join.isNone

/-- The text of a cell; a null and a row past the end have none. -/
def text? (c : Column) (row : Nat) : Except TableError (Option String) :=
  match (c.cells[row]?).join with
  | none => .ok none
  | some value =>
    match c.type.cellText value with
    | .ok s => .ok (some s)
    | .error fault => .error (.notCoercible row fault)

def string? (c : Column) (row : Nat) : Option String :=
  match c with
  | ⟨.string, cells⟩ => (cells[row]?).join
  | _ => none

/-- The rows at `indices`, in that order; a row past the end is null. -/
def pick (c : Column) (indices : List Nat) : Column :=
  ⟨c.type, (indices.map fun row => (c.cells[row]?).join).toArray⟩

def covers (c : Column) (indices : List Nat) : Bool := indices.all (· < c.size)

/-- The rows at `indices`, in that order; there is no such column if one of them is past the end. -/
def gather? (c : Column) (indices : List Nat) : Option Column :=
  if c.covers indices then some (c.pick indices) else none

/-- At most `length` rows from `offset` on. -/
def slice (c : Column) (offset length : Nat) : Column :=
  ⟨c.type, c.cells.extract offset (offset + length)⟩

/-- Decimal cells as doubles; nulls stay null, and columns of other types stay as they are. -/
def decimalsToFloat : Column → Column
  | ⟨.decimal scale, cells⟩ => ⟨.float64, cells.map (Option.map (decimalToFloat scale))⟩
  | c => c

def same (c d : Column) : Bool :=
  if h : d.type = c.type then
    let other : Array (Option c.type.Cell) := h ▸ d.cells
    c.cells.size == other.size &&
      (c.cells.zip other).all fun
        | (some a, some b) => c.type.sameCell a b
        | (none, none) => true
        | _ => false
  else false

@[simp] theorem size_pick (c : Column) (indices : List Nat) :
    (c.pick indices).size = indices.length := by
  simp [pick, size]

theorem size_slice (c : Column) (offset length : Nat) :
    (c.slice offset length).size = min length (c.size - offset) := by
  simp only [slice, size, Array.size_extract]
  omega

theorem getElem?_slice (c : Column) (offset length row : Nat) :
    (c.slice offset length).cells[row]? =
      if row < length then c.cells[offset + row]? else none := by
  obtain ⟨type, cells⟩ := c
  change (cells.extract offset (offset + length))[row]? =
    if row < length then cells[offset + row]? else none
  rw [Array.getElem?_extract]
  by_cases h : offset + row < cells.size
  · by_cases k : row < length
    · rw [if_pos (by omega), if_pos k]
    · rw [if_neg (by omega), if_neg k]
  · rw [Array.getElem?_eq_none (Nat.le_of_not_lt h)]
    split <;> simp

theorem type_decimalsToFloat (c : Column) :
    c.decimalsToFloat.type = c.type.decimalsToFloat := by
  obtain ⟨type, cells⟩ := c
  cases type <;> rfl

@[simp] theorem size_decimalsToFloat (c : Column) : c.decimalsToFloat.size = c.size := by
  obtain ⟨type, cells⟩ := c
  cases type <;> simp [decimalsToFloat, size]

end Column

end RdfMapping
