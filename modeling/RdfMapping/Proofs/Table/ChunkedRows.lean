import Mathlib.Algebra.Order.Floor.Div
import RdfMapping.Proofs.Table.Layout

/-!
Batches cut into chunks.

Chunks start at the positions that are reached in steps from the first row on, while there are rows
(`steppedFrom_eq`). Each of them is a run of rows that follow each other (`Batch.gather?_eq_slice`), none is
empty (`mul_lt_of_lt_chunkCount`), and together they hold all rows in order (`flatMap_piece`). So the cells
of a column, chunk after chunk, are the cells of the column (`Column.concat?_slices`), and cutting a batch
into chunks loses, repeats and reorders nothing (`chunks_partition`).
-/

namespace RdfMapping

/-! ## The rows of chunks -/

def piece (rows step k : Nat) : List Nat :=
  (List.range (min step (rows - k * step))).map (k * step + ·)

theorem flatMap_piece_take (rows step m : Nat) :
    (List.range m).flatMap (piece rows step) = List.range (min (m * step) rows) := by
  induction m with
  | zero => simp
  | succ m ih =>
    rw [List.range_succ, List.flatMap_append, ih, List.flatMap_singleton, piece]
    have next : (m + 1) * step = m * step + step := Nat.succ_mul m step
    -- the next piece starts where the rows so far end, unless they are all there
    by_cases h : m * step ≤ rows
    · rw [Nat.min_eq_left h, ← List.range_add]
      congr 1
      omega
    · have none : rows - m * step = 0 := by omega
      rw [none, Nat.min_zero, List.range_zero, List.map_nil, List.append_nil]
      congr 1
      omega

theorem le_chunkCount_mul {rows step : Nat} (h : 0 < step) :
    rows ≤ Batch.chunkCount rows step * step := by
  have total := Nat.div_add_mod (rows + step - 1) step
  have rest := Nat.mod_lt (rows + step - 1) h
  rw [Batch.chunkCount, Nat.mul_comm]
  omega

theorem flatMap_piece {rows step : Nat} (h : 0 < step) :
    (List.range (Batch.chunkCount rows step)).flatMap (piece rows step) = List.range rows := by
  rw [flatMap_piece_take, Nat.min_eq_right (le_chunkCount_mul h)]

theorem mul_lt_of_lt_chunkCount {rows step k : Nat} (h : 0 < step)
    (hk : k < Batch.chunkCount rows step) : k * step < rows := by
  have := (Nat.le_div_iff_mul_le h).mp (Nat.succ_le_of_lt hk)
  rw [Nat.succ_mul] at this
  omega

theorem chunkCount_eq_ceilDiv (rows step : Nat) : Batch.chunkCount rows step = rows ⌈/⌉ step :=
  (Nat.ceilDiv_eq_add_pred_div rows step).symm

theorem chunkStep_pos (size : Nat) : 0 < Batch.chunkStep size :=
  Nat.lt_of_lt_of_le Nat.one_pos (Nat.le_max_right size 1)

theorem length_chunks_step (b : Batch) (size : Nat) :
    (b.chunks size).length = Batch.chunkCount b.numRows (Batch.chunkStep size) := by
  rw [Batch.chunks, List.length_map, List.length_range]

theorem length_chunks (b : Batch) {size : Nat} (h : 0 < size) :
    (b.chunks size).length = b.numRows ⌈/⌉ size := by
  have step : Batch.chunkStep size = size := Nat.max_eq_left h
  rw [length_chunks_step, step, chunkCount_eq_ceilDiv]

theorem getElem?_chunks_eq_some_iff {b c : Batch} {size k : Nat} : (b.chunks size)[k]? = some c ↔
    k < Batch.chunkCount b.numRows (Batch.chunkStep size) ∧
      b.slice (k * Batch.chunkStep size) (Batch.chunkStep size) = c := by
  rw [Batch.chunks, List.getElem?_map, Option.map_eq_some_iff]
  simp only [List.getElem?_eq_some_iff, List.length_range, List.getElem_range]
  refine ⟨?_, ?_⟩
  · rintro ⟨j, ⟨bound, rfl⟩, same⟩
    exact ⟨bound, same⟩
  · rintro ⟨bound, same⟩
    exact ⟨k, ⟨bound, rfl⟩, same⟩

theorem sum_numRows_chunks (b : Batch) (size : Nat) :
    ((b.chunks size).map (·.numRows)).sum = b.numRows := by
  have total : ((List.range (Batch.chunkCount b.numRows (Batch.chunkStep size))).map fun k =>
      (piece b.numRows (Batch.chunkStep size) k).length).sum = b.numRows := by
    rw [← List.length_flatMap, flatMap_piece (chunkStep_pos size), List.length_range]
  refine Eq.trans ?_ total
  rw [Batch.chunks, List.map_map]
  congr 1
  apply List.map_congr_left
  intro k _
  simp [piece, Batch.slice]

/-! ## Where chunks start -/

/-- The positions from `start` on that are reached in steps and lie before `stop`. A position past the
greatest count is not reached. -/
def steppedFrom (step stop start : Nat) : List Nat :=
  if start < stop ∧ 0 < step then
    start :: if start + step ≤ maxWord then steppedFrom step stop (start + step) else []
  else []
termination_by stop - start

/-- From the start of a chunk, the starts of this chunk and of the later ones are reached. -/
theorem steppedFrom_eq {step stop : Nat} (pos : 0 < step) (fits : stop ≤ maxWord) (k : Nat) :
    steppedFrom step stop (k * step) =
      (List.range' k (Batch.chunkCount stop step - k)).map (· * step) := by
  generalize left : Batch.chunkCount stop step - k = n
  induction n generalizing k with
  | zero =>
    have all : stop ≤ k * step :=
      Nat.le_trans (le_chunkCount_mul pos) (Nat.mul_le_mul_right step (by omega))
    rw [steppedFrom, if_neg (by omega)]
    rfl
  | succ n ih =>
    have here : k * step < stop := mul_lt_of_lt_chunkCount pos (by omega)
    have next : (k + 1) * step = k * step + step := Nat.succ_mul k step
    rw [steppedFrom, if_pos ⟨here, pos⟩, List.range'_succ, List.map_cons, ← next, ← ih (k + 1) (by omega)]
    split
    · rfl
    · -- a step past the greatest count leads past the last row
      rw [steppedFrom, if_neg (by omega)]

/-- The chunks of a layout, cut at the positions that are reached in steps. -/
def Layout.stepwise? (t : Layout) (size : Nat) : Option (List Layout) :=
  (steppedFrom (Batch.chunkStep size) t.numRows 0).mapM fun start => t.cut? start (Batch.chunkStep size)

theorem Layout.stepwise?_eq {t : Layout} (fits : t.numRows ≤ maxWord) (size : Nat) :
    t.stepwise? size = t.chunks? size := by
  have starts := steppedFrom_eq (chunkStep_pos size) fits 0
  rw [Nat.zero_mul, Nat.sub_zero, ← List.range_eq_range'] at starts
  rw [stepwise?, starts, List.mapM_map, chunks?_eq]
  rfl

/-! ## Columns of chunks -/

namespace Column

def append? (c d : Column) : Option Column :=
  if same : d.type = c.type then some ⟨c.type, c.cells ++ same ▸ d.cells⟩ else none

/-- The cells of columns of a type, one column after the other. -/
def concat? (type : FieldType) (columns : List Column) : Option Column :=
  columns.foldlM append? (empty type)

theorem append?_mk {type : FieldType} (cells others : Array (Option type.Cell)) :
    append? ⟨type, cells⟩ ⟨type, others⟩ = some ⟨type, cells ++ others⟩ := dif_pos rfl

theorem append?_slice (c : Column) (n length : Nat) :
    (c.slice 0 n).append? (c.slice n length) = some (c.slice 0 (n + length)) := by
  refine (append?_mk (c.cells.extract 0 (0 + n)) (c.cells.extract n (n + length))).trans ?_
  rw [slice, Nat.zero_add, Nat.zero_add, Array.extract_append_extract, Nat.zero_min,
    Nat.max_eq_right (Nat.le_add_right n length)]

theorem slice_zero (c : Column) : c.slice 0 0 = empty c.type := by
  simp [slice, empty]

theorem slice_all {c : Column} {n : Nat} (h : c.size ≤ n) : c.slice 0 n = c := by
  simp only [slice, Nat.zero_add]
  rw [Array.extract_eq_self_of_le h]

/-- The first cuts of a column, one after the other, are its first rows. -/
theorem concat?_slices (c : Column) (step count : Nat) :
    concat? c.type ((List.range count).map fun k => c.slice (k * step) step) =
      some (c.slice 0 (count * step)) := by
  induction count with
  | zero =>
    rw [Nat.zero_mul, slice_zero]
    rfl
  | succ count ih =>
    rw [concat?] at ih
    rw [List.range_succ, List.map_append, concat?, List.foldlM_append, ih, Nat.succ_mul, ← append?_slice]
    simp

theorem slice_eq_pick (c : Column) (offset length : Nat) :
    c.slice offset length = c.pick (List.range' offset (min length (c.size - offset))) := by
  obtain ⟨type, cells⟩ := c
  simp only [slice, pick, size]
  congr 1
  apply Array.ext_getElem?
  intro row
  simp only [Array.getElem?_extract, List.getElem?_toArray, List.getElem?_map]
  by_cases h : row < min length (cells.size - offset)
  · have bound : offset + row < cells.size := by omega
    rw [if_pos (by omega), List.getElem?_range' h]
    simp [bound]
  · rw [if_neg (by omega), List.getElem?_eq_none (by simp; omega)]
    rfl

end Column

namespace Batch

theorem gather?_eq_slice {b : Batch} (h : b.WellFormed) (offset length : Nat) :
    b.gather? (List.range' offset (min length (b.numRows - offset))) = some (b.slice offset length) := by
  have covered : b.entries.all (·.column.covers (List.range' offset (min length (b.numRows - offset)))) := by
    simp only [List.all_eq_true, Column.covers, decide_eq_true_eq, List.mem_range'_1]
    intro e he i hi
    rw [h e he]
    omega
  rw [gather?, if_pos covered, pick, slice, List.length_range']
  congr 2
  apply List.map_congr_left
  intro e he
  rw [Column.slice_eq_pick, h e he]

theorem slice_wellFormed {b : Batch} (h : b.WellFormed) (offset length : Nat) :
    (b.slice offset length).WellFormed := by
  intro e he
  obtain ⟨d, hd, rfl⟩ := List.mem_map.mp he
  rw [Column.size_slice, h d hd]
  rfl

theorem fields_slice (b : Batch) (offset length : Nat) : (b.slice offset length).fields = b.fields := by
  simp [slice, fields]

theorem concat?_columns {b : Batch} (h : b.WellFormed) (size : Nat) {i : Nat} {column : Column}
    (there : b.columns[i]? = some column) :
    ∃ parts, (b.chunks size).mapM (fun c : Batch => c.columns[i]?) = some parts ∧
      Column.concat? column.type parts = some column := by
  have cut : ∀ offset length, (b.slice offset length).columns[i]? = some (column.slice offset length) := by
    intro offset length
    have moved : (b.slice offset length).columns = b.columns.map (·.slice offset length) := by
      simp [slice, columns]
    rw [moved, List.getElem?_map, there, Option.map_some]
  have rows : column.size = b.numRows := by
    obtain ⟨e, he, rfl⟩ := List.mem_map.mp (List.mem_of_getElem? there)
    exact h e he
  refine ⟨(List.range (chunkCount b.numRows (chunkStep size))).map fun k =>
    column.slice (k * chunkStep size) (chunkStep size), ?_, ?_⟩
  · rw [chunks, List.mapM_map]
    exact mapM_eq_map fun k _ => cut _ _
  · rw [Column.concat?_slices, Column.slice_all]
    exact rows ▸ le_chunkCount_mul (chunkStep_pos size)

end Batch

/-- **Chunks partition the rows.** A well-formed batch with as many rows as can be counted is cut where
steps of the size that is asked for, but of one row at least, lead. There are as many chunks as steps are
needed for the rows. Each has the fields of the batch and is well formed, is not empty, and gathers the rows
from where it starts to where the next one does, or to the last row; all but the last have as many rows as
the step, and the last has those that are left. Chunk after chunk, the cells of a column are the cells of
the column, and the rows are as many as those of the batch. -/
theorem chunks_partition {b : Batch} (h : b.WellFormed) (fits : b.numRows ≤ maxWord) (size : Nat) :
    b.layout.stepwise? size = some ((b.chunks size).map Batch.layout) ∧
    (b.chunks size).length = b.numRows ⌈/⌉ max size 1 ∧
    (∀ (k : Nat) (c : Batch), (b.chunks size)[k]? = some c →
      c.WellFormed ∧ c.fields = b.fields ∧ 0 < c.numRows ∧
      (k + 1 < (b.chunks size).length → c.numRows = max size 1) ∧
      (k + 1 = (b.chunks size).length → c.numRows = b.numRows - k * max size 1 ∧ c.numRows ≤ max size 1) ∧
      b.gather? (List.range' (k * max size 1)
        (min ((k + 1) * max size 1) b.numRows - k * max size 1)) = some c) ∧
    (∀ (i : Nat) (column : Column), b.columns[i]? = some column →
      ∃ parts, (b.chunks size).mapM (fun c : Batch => c.columns[i]?) = some parts ∧
        Column.concat? column.type parts = some column) ∧
    ((b.chunks size).map (·.numRows)).sum = b.numRows := by
  refine ⟨?_, ?_, ?_, fun i column there => Batch.concat?_columns h size there, sum_numRows_chunks b size⟩
  · rw [Layout.stepwise?_eq fits, Batch.chunks?_layout h fits]
  · rw [length_chunks_step, chunkCount_eq_ceilDiv, Batch.chunkStep]
  · intro k c found
    rw [length_chunks_step]
    obtain ⟨bound, rfl⟩ := getElem?_chunks_eq_some_iff.mp found
    have pos := chunkStep_pos size
    have step : max size 1 = Batch.chunkStep size := rfl
    have start := mul_lt_of_lt_chunkCount pos bound
    have next : (k + 1) * Batch.chunkStep size = k * Batch.chunkStep size + Batch.chunkStep size :=
      Nat.succ_mul k _
    have rows : (b.slice (k * Batch.chunkStep size) (Batch.chunkStep size)).numRows =
        min (Batch.chunkStep size) (b.numRows - k * Batch.chunkStep size) := rfl
    rw [step, rows]
    refine ⟨Batch.slice_wellFormed h _ _, b.fields_slice _ _, by omega, ?_, ?_, ?_⟩
    · intro later
      have after := mul_lt_of_lt_chunkCount pos later
      omega
    · intro last
      have all := last ▸ @le_chunkCount_mul b.numRows _ pos
      omega
    · have length : min ((k + 1) * Batch.chunkStep size) b.numRows - k * Batch.chunkStep size =
          min (Batch.chunkStep size) (b.numRows - k * Batch.chunkStep size) := by omega
      rw [length]
      exact Batch.gather?_eq_slice h _ _

def fiveRows : Batch :=
  ⟨[⟨⟨"id", .string, true⟩, ⟨.string, #[some "1", none, some "3", some "4", some "5"]⟩⟩], 5⟩

/-- In chunks of two, the last one is the fifth row; rows without columns are one chunk of the greatest
size. -/
theorem chunks_partition_five :
    (fiveRows.chunks 2).length = 3 ∧
      (∀ last, (fiveRows.chunks 2)[2]? = some last → last.numRows = 1 ∧ fiveRows.gather? [4] = some last) ∧
      ((Batch.mk [] 5).chunks maxWord).length = 1 ∧
      (((Batch.mk [] 5).chunks maxWord).map (·.numRows)).sum = 5 := by
  have room : 5 ≤ maxWord := by decide
  have formed : fiveRows.WellFormed := by simp [fiveRows, Batch.WellFormed, Column.size]
  have empty : (Batch.mk [] 5).WellFormed := by simp [Batch.WellFormed]
  obtain ⟨-, count, chunk, -, -⟩ := chunks_partition formed room 2
  obtain ⟨-, single, -, -, rows⟩ := chunks_partition empty room maxWord
  have three : (fiveRows.chunks 2).length = 3 := count.trans (by decide)
  refine ⟨three, ?_, ?_, rows⟩
  · intro last found
    obtain ⟨-, -, -, -, ends, gathered⟩ := chunk 2 last found
    exact ⟨(ends (by rw [three])).1, gathered⟩
  · rw [single, ← chunkCount_eq_ceilDiv]
    decide

end RdfMapping
