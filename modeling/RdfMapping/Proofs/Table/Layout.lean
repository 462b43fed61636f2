import Std.Data.HashMap
import RdfMapping.Number.Power
import RdfMapping.Proofs.Table.Cells

/-!
Batches as they lie in memory.

A batch holds its fields and columns in pairs, and its operations ask for no bounds. In a `Layout` the
fields, the index of their names, the columns and the number of rows lie apart: nothing but
`Layout.WellFormed` makes them agree. Fields and index are those of a `Schema`, which is taken as it is
when a layout is built. Counts are machine words, and each operation looks up and cuts with bounds that
are checked: it gives nothing where a position is out of range. On a well-formed layout no bound is missed
but that of a row that is asked for and not there (`exists_entries?`, `cut?_eq`, `gather?_eq_none_iff`),
and what is done is what is done on batches (`project?_layout`, `cut?_layout`, `chunks?_layout`,
`gather?_layout`, `withLead_layout`, `beside_layout`, `decimalsToFloat_layout`).
-/

namespace RdfMapping

def maxWord : Nat := twoTo 64 - 1

/-- The sum of two counts, but no more than the greatest. -/
def addWord (a b : Nat) : Nat := min (a + b) maxWord

namespace Column

/-- The cells from one position to another, which have to be positions in this order. -/
def range? (c : Column) (start stop : Nat) : Option Column :=
  if start ≤ stop ∧ stop ≤ c.size then some ⟨c.type, c.cells.extract start stop⟩ else none

/-- At most `length` rows from `offset` on, by their first and last position. -/
def cut? (c : Column) (offset length : Nat) : Option Column :=
  c.range? (min offset c.size) (min (addWord offset length) c.size)

theorem cut?_eq {c : Column} (fits : c.size ≤ maxWord) (offset length : Nat) :
    c.cut? offset length = some (c.slice offset length) := by
  -- as there are no more rows than words, the sum is cut off past the last row at the earliest
  have stop : min (addWord offset length) c.size = min (offset + length) c.size := by
    rw [addWord]
    omega
  rw [cut?, range?, stop, if_pos (by omega), slice]
  congr 2
  apply Array.ext_getElem?
  intro row
  rw [Array.getElem?_extract, Array.getElem?_extract]
  change (if row < min (min (offset + length) c.size) c.size - min offset c.size then _ else _) =
    if row < min (offset + length) c.size - offset then _ else _
  by_cases h : offset ≤ c.size
  · rw [Nat.min_eq_left h, Nat.min_assoc, Nat.min_self]
  · rw [if_neg (by omega), if_neg (by omega)]

end Column

abbrev NameIndex := Std.HashMap String Nat

/-- Notes the names of fields one after the other, the first of them at position `first`. -/
def NameIndex.note : Nat → List Field → NameIndex → NameIndex
  | _, [], known => known
  | first, f :: rest, known => note (first + 1) rest (known.insert f.name first)

theorem NameIndex.getElem?_note (first : Nat) (fields : List Field) (known : NameIndex)
    (name : String) : (note first fields known)[name]? =
      ((lastIndexOf? name (fields.map (·.name))).map (first + ·)).or known[name]? := by
  induction fields generalizing first known with
  | nil => rfl
  | cons f rest ih =>
    rw [note, ih, Std.HashMap.getElem?_insert, List.map_cons, lastIndexOf?]
    cases lastIndexOf? name (rest.map (·.name)) with
    | some i => simp [Nat.add_assoc, Nat.add_comm 1 i]
    | none => by_cases h : f.name = name <;> simp [h]

/-- Fields, and where their names are found. -/
structure Schema where
  fields : List Field
  positions : NameIndex

namespace Schema

def ofFields (fields : List Field) : Schema := ⟨fields, NameIndex.note 0 fields ∅⟩

def Noted (s : Schema) : Prop := s.positions = NameIndex.note 0 s.fields ∅

/-- No name is found past the fields. -/
def Bounded (s : Schema) : Prop :=
  ∀ (name : String) (i : Nat), s.positions[name]? = some i → i < s.fields.length

theorem noted_ofFields (fields : List Field) : (ofFields fields).Noted := rfl

theorem Noted.bounded {s : Schema} (h : s.Noted) : s.Bounded := by
  intro name i found
  rw [h, NameIndex.getElem?_note, Std.HashMap.getElem?_empty, Option.or_none,
    Option.map_eq_some_iff] at found
  obtain ⟨j, last, rfl⟩ := found
  have := Batch.lastIndexOf?_lt last
  rw [List.length_map] at this
  omega

end Schema

/-- Fields, where their names are found, columns, and a number of rows. -/
structure Layout where
  fields : List Field
  positions : NameIndex
  columns : List Column
  numRows : Nat

namespace Layout

/-- As many columns as fields, each with the number of rows; and no name is found past them. -/
structure WellFormed (t : Layout) : Prop where
  count : t.columns.length = t.fields.length
  rows : ∀ c ∈ t.columns, c.size = t.numRows
  positions : ∀ (name : String) (i : Nat), t.positions[name]? = some i → i < t.columns.length

def WellTyped (t : Layout) : Prop := t.columns.map (·.type) = t.fields.map (·.type)

def ofParts (fields : List Field) (columns : List Column) (numRows : Nat) : Layout :=
  ⟨fields, NameIndex.note 0 fields ∅, columns, numRows⟩

/-! ## Building under a schema

The schema is taken as it is, with its index; only the columns are checked against it. -/

def ofColumns (s : Schema) (columns : List Column) : Except TableError Layout :=
  if s.fields.length ≠ columns.length then
    .error (.schema (.columnCount s.fields.length columns.length))
  else
    let numRows := (columns.head?.map Column.size).getD 0
    match Batch.firstOfOtherSize? numRows 0 columns with
    | some (index, rows) => .error (.schema (.columnLength index rows numRows))
    | none => .ok ⟨s.fields, s.positions, columns, numRows⟩

def empty (s : Schema) : Layout :=
  ⟨s.fields, s.positions, s.fields.map fun f => Column.empty f.type, 0⟩

def ofStringRows (names : List String) (rows : List (List (Option String))) : Except TableError Layout :=
  match Batch.firstOfOtherWidth? names.length 0 rows with
  | some (index, cells) => .error (.schema (.rowWidth index cells names.length))
  | none =>
    ofColumns (.ofFields (names.map fun name => ⟨name, .string, true⟩))
      (names.mapIdx fun index _ => ⟨.string, (rows.map fun row => (row[index]?).join).toArray⟩)

/-! ## Operations, with their bounds checked

Each does what the operation of its name does on batches; `cut?` is a slice. -/

def entries? (t : Layout) : List String → Option (Except TableError (List Entry))
  | [] => some (.ok [])
  | name :: rest =>
    match t.positions[name]? with
    | none => some (.error (.columnNotFound name))
    | some i =>
      match t.fields[i]?, t.columns[i]? with
      | some f, some c => (t.entries? rest).map fun found => found.map (⟨f, c⟩ :: ·)
      | _, _ => none

def project? (t : Layout) (names : List String) : Option (Except TableError Layout) :=
  (t.entries? names).map fun found => found.map fun entries =>
    ofParts (entries.map (·.field)) (entries.map (·.column)) t.numRows

def cut? (t : Layout) (offset length : Nat) : Option Layout :=
  (t.columns.mapM fun c : Column => c.cut? offset length).map fun columns =>
    { t with columns := columns, numRows := min (t.numRows - offset) length }

def chunks? (t : Layout) (size : Nat) : Option (List Layout) :=
  let step := Batch.chunkStep size
  -- rows cannot be gone through in steps of none
  if step = 0 then none
  else (List.range (Batch.chunkCount t.numRows step)).mapM fun k => t.cut? (k * step) step

def gather? (t : Layout) (indices : List Nat) : Option Layout :=
  (t.columns.mapM fun c : Column => c.gather? indices).map fun columns =>
    { t with columns := columns, numRows := indices.length }

def withLead (t : Layout) (lead : String) : Layout :=
  ofParts (t.fields.map fun f => { f with name := lead ++ f.name }) t.columns t.numRows

def beside (t other : Layout) : Except TableError Layout :=
  if t.numRows ≠ other.numRows then .error (.schema (.rowCounts t.numRows other.numRows))
  else
    match (other.fields.map (·.name)).find? (t.positions.contains ·) with
    | some name => .error (.schema (.duplicateColumn name))
    | none => .ok (ofParts (t.fields ++ other.fields) (t.columns ++ other.columns) t.numRows)

def decimalsToFloat (t : Layout) : Layout :=
  ofParts (t.fields.map fun f => { f with type := f.type.decimalsToFloat })
    (t.columns.map (·.decimalsToFloat)) t.numRows

/-! ## Bounds that are kept -/

section Bounds

variable {t other : Layout}

theorem ofParts_wellFormed {fields : List Field} {columns : List Column} {numRows : Nat}
    (count : columns.length = fields.length) (rows : ∀ c ∈ columns, c.size = numRows) :
    (ofParts fields columns numRows).WellFormed where
  count := count
  rows := rows
  positions name i h := count ▸ (Schema.noted_ofFields fields).bounded name i h

/-- Names are looked up without fail, and what they mean is in the layout. -/
theorem exists_entries? (h : t.WellFormed) (names : List String) :
    ∃ found, t.entries? names = some found ∧
      ∀ entries, found = .ok entries → ∀ e ∈ entries, ∃ i : Nat,
        t.fields[i]? = some e.field ∧ t.columns[i]? = some e.column := by
  induction names with
  | nil => exact ⟨.ok [], rfl, by simp⟩
  | cons name rest ih =>
    rw [entries?]
    cases hp : t.positions[name]? with
    | none => exact ⟨_, rfl, by simp⟩
    | some i =>
      have bound := h.positions name i hp
      have bound' : i < t.fields.length := h.count ▸ bound
      obtain ⟨found, all, members⟩ := ih
      have hf := List.getElem?_eq_getElem bound'
      have hc := List.getElem?_eq_getElem bound
      simp only [hf, hc, all, Option.map_some]
      refine ⟨_, rfl, ?_⟩
      intro entries he e member
      cases found with
      | error error => cases he
      | ok others =>
        cases he
        rcases List.mem_cons.mp member with rfl | member
        · exact ⟨i, hf, hc⟩
        · exact members others rfl e member

theorem chunks?_eq (t : Layout) (size : Nat) : t.chunks? size =
    (List.range (Batch.chunkCount t.numRows (Batch.chunkStep size))).mapM fun k =>
      t.cut? (k * Batch.chunkStep size) (Batch.chunkStep size) := by
  have step : Batch.chunkStep size ≠ 0 := by
    rw [Batch.chunkStep]
    omega
  rw [chunks?, if_neg step]

theorem cut?_eq (h : t.WellFormed) (fits : t.numRows ≤ maxWord) (offset length : Nat) :
    t.cut? offset length = some { t with
      columns := t.columns.map (·.slice offset length)
      numRows := min (t.numRows - offset) length } := by
  have cuts : ∀ c ∈ t.columns, c.cut? offset length = some (c.slice offset length) :=
    fun c hc => Column.cut?_eq (h.rows c hc ▸ fits) offset length
  rw [cut?, mapM_eq_map cuts, Option.map_some]

theorem gather?_eq (h : t.WellFormed) {indices : List Nat} (there : ∀ i ∈ indices, i < t.numRows) :
    t.gather? indices = some { t with
      columns := t.columns.map (·.pick indices)
      numRows := indices.length } := by
  have picks : ∀ c ∈ t.columns, c.gather? indices = some (c.pick indices) := by
    intro c hc
    have covers : c.covers indices = true := by
      simpa [Column.covers, h.rows c hc] using there
    rw [Column.gather?, if_pos covers]
  rw [gather?, mapM_eq_map picks, Option.map_some]

/-- Rows can be gathered unless there is a column and one of them is past the end. -/
theorem gather?_eq_none_iff (h : t.WellFormed) (indices : List Nat) :
    t.gather? indices = none ↔ t.columns ≠ [] ∧ ∃ i ∈ indices, t.numRows ≤ i := by
  by_cases there : ∀ i ∈ indices, i < t.numRows
  · have none : ¬∃ i ∈ indices, t.numRows ≤ i := by
      rintro ⟨i, hi, le⟩
      have := there i hi
      omega
    simp [gather?_eq h there, none]
  · have some_ : ∃ i ∈ indices, t.numRows ≤ i := by simpa using there
    cases hc : t.columns with
    | nil => simp [gather?, hc]
    | cons c rest =>
      have past : c.gather? indices = none := by
        have rows : c.size = t.numRows := h.rows c (hc ▸ List.mem_cons_self)
        rw [Column.gather?, if_neg]
        simpa [Column.covers, rows] using some_
      simp [gather?, hc, past, some_]

-- the layout says that there is a row, and its column has none
example : (Layout.mk [] ∅ [⟨.string, #[]⟩] 1).gather? [0] = none := rfl

end Bounds

end Layout

/-! ## The layouts of batches -/

namespace Batch

def layout (b : Batch) : Layout := .ofParts b.fields b.columns b.numRows

section Layouts

variable {b : Batch}

theorem layout_wellFormed (h : b.WellFormed) : b.layout.WellFormed := by
  refine Layout.ofParts_wellFormed b.length_columns fun c hc => ?_
  obtain ⟨e, he, rfl⟩ := List.mem_map.mp hc
  exact h e he

theorem getElem?_positions (b : Batch) (name : String) :
    b.layout.positions[name]? = b.indexOf? name := by
  have carried : b.fields.map (·.name) = b.names := by
    rw [fields, names, List.map_map]
    rfl
  rw [layout, Layout.ofParts, NameIndex.getElem?_note, Std.HashMap.getElem?_empty, Option.or_none,
    carried, indexOf?]
  simp

theorem isSome_lastIndexOf? (name : String) (names : List String) :
    (lastIndexOf? name names).isSome = names.contains name := by
  induction names with
  | nil => rfl
  | cons n rest ih =>
    rw [lastIndexOf?, List.contains_cons, ← ih]
    cases lastIndexOf? name rest with
    | some i => simp
    | none =>
      by_cases h : n = name
      · simp [h]
      · simp [h, Ne.symm h]

theorem entries?_layout (b : Batch) (names : List String) :
    b.layout.entries? names = some (names.mapM b.require) := by
  induction names with
  | nil => rfl
  | cons name rest ih =>
    rw [Layout.entries?, getElem?_positions, ih, List.mapM_cons, require, entry?]
    cases hi : b.indexOf? name with
    | none => rfl
    | some i =>
      have bound := indexOf?_lt hi
      have field : b.layout.fields[i]? = some b.entries[i].field := by
        simp [layout, Layout.ofParts, fields, bound]
      have column : b.layout.columns[i]? = some b.entries[i].column := by
        simp [layout, Layout.ofParts, columns, bound]
      simp only [field, column, Option.bind_some, List.getElem?_eq_getElem bound]
      cases rest.mapM b.require <;> rfl

theorem project?_layout (b : Batch) (names : List String) :
    b.layout.project? names = some ((b.project names).map layout) := by
  rw [Layout.project?, entries?_layout, project]
  cases names.mapM b.require <;> rfl

/-- Other rows of the same columns. -/
theorem layout_rows (b : Batch) (g : Column → Column) (numRows : Nat) :
    (Batch.mk (b.entries.map fun e => ⟨e.field, g e.column⟩) numRows).layout =
      { b.layout with columns := b.layout.columns.map g, numRows := numRows } := by
  simp only [layout, Layout.ofParts, fields, columns, List.map_map]
  rfl

theorem cut?_layout (h : b.WellFormed) (fits : b.numRows ≤ maxWord) (offset length : Nat) :
    b.layout.cut? offset length = some (b.slice offset length).layout := by
  rw [Layout.cut?_eq (layout_wellFormed h) fits, slice, b.layout_rows (·.slice offset length),
    Nat.min_comm]
  rfl

theorem chunks?_layout (h : b.WellFormed) (fits : b.numRows ≤ maxWord) (size : Nat) :
    b.layout.chunks? size = some ((b.chunks size).map layout) := by
  rw [Layout.chunks?_eq, chunks, List.map_map]
  exact mapM_eq_map fun k _ => cut?_layout h fits _ _

theorem gather?_layout (b : Batch) (indices : List Nat) :
    b.layout.gather? indices = (b.gather? indices).map layout := by
  by_cases covered : b.entries.all (·.column.covers indices)
  · have picks : ∀ c ∈ b.layout.columns, c.gather? indices = some (c.pick indices) := by
      intro c hc
      obtain ⟨e, he, rfl⟩ := List.mem_map.mp hc
      rw [Column.gather?, if_pos (List.all_eq_true.mp covered e he)]
    rw [Layout.gather?, mapM_eq_map picks, gather?, if_pos covered]
    exact congrArg some (b.layout_rows (·.pick indices) indices.length).symm
  · have missed : b.layout.columns.mapM (fun c : Column => c.gather? indices) = none := by
      rw [← Option.not_isSome_iff_eq_none, isSome_mapM_iff]
      intro all
      refine covered (List.all_eq_true.mpr fun e he => ?_)
      have picked := all e.column (List.mem_map_of_mem he)
      simpa [Column.gather?] using picked
    rw [Layout.gather?, missed, gather?, if_neg covered]
    rfl

theorem withLead_layout (b : Batch) (lead : String) :
    b.layout.withLead lead = (b.withLead lead).layout := by
  simp only [layout, Layout.withLead, Layout.ofParts, withLead, fields, columns, List.map_map]
  rfl

theorem decimalsToFloat_layout (b : Batch) : b.layout.decimalsToFloat = b.decimalsToFloat.layout := by
  simp only [layout, Layout.decimalsToFloat, Layout.ofParts, decimalsToFloat, fields, columns,
    List.map_map]
  rfl

theorem beside_layout (b other : Batch) :
    b.layout.beside other.layout = (b.beside other).map layout := by
  have carried : other.layout.fields.map (·.name) = other.names := by
    simp [layout, Layout.ofParts, fields, names]
  have found : (fun name => b.layout.positions.contains name) = fun name => b.names.contains name := by
    funext name
    rw [Std.HashMap.contains_eq_isSome_getElem?, getElem?_positions, indexOf?, isSome_lastIndexOf?]
  rw [Layout.beside, beside, carried, found]
  show (if b.numRows ≠ other.numRows then _ else _) = _
  split
  · rfl
  · cases other.names.find? fun name => b.names.contains name with
    | some name => rfl
    | none => simp [Except.map, layout, Layout.ofParts, fields, columns]

end Layouts

end Batch

end RdfMapping
