import RdfMapping.Proofs.Source.Answer

/-!
Joining by an index of keys is joining by comparing every two rows.

The rows of the parent are indexed one after the other, each behind the rows of its key
(`RowIndex.fill`), and the rows of the child then look up theirs (`RowIndex.probe`). This finds the pairs
that a nested loop over the rows finds, in the order of that loop, and fails as it does
(`hashedPairs_eq_nestedPairs`). The first cell without a text ends the key of its row, which fails with it
or, if it is a null, has no key (`Batch.KeyedBy`). The failures of a join are those of a key of the
parent, of a key of the child and of a column that is asked for, in this order (`Connection.JoinFault`),
and there is none of putting the two sides together.
-/

namespace RdfMapping

/-! ## Filling and probing an index -/

namespace RowIndex

/-- Puts a row behind the rows of its key. -/
def push (index : RowIndex) (key : RowKey) (row : Nat) : RowIndex :=
  index.insert key (index.rows key ++ [row])

/-- Indexes rows one after the other, until a key fails. -/
def fill (columns : List Column) : List Nat → RowIndex → Except TableError RowIndex
  | [], index => .ok index
  | row :: rest, index =>
    match rowKey columns row with
    | .error error => .error error
    | .ok none => fill columns rest index
    | .ok (some key) => fill columns rest (index.push key row)

/-- Pairs rows one after the other with the rows of their keys, until a key fails. -/
def probe (index : RowIndex) (columns : List Column) :
    List Nat → List (Nat × Nat) → Except TableError (List (Nat × Nat))
  | [], found => .ok found
  | row :: rest, found =>
    match rowKey columns row with
    | .error error => .error error
    | .ok none => probe index columns rest found
    | .ok (some key) => probe index columns rest (found ++ (index.rows key).map (row, ·))

/-- Indexes a row that has been given its key, or has none. -/
def note (index : RowIndex) : Option RowKey × Nat → RowIndex
  | (none, _) => index
  | (some key, row) => index.push key row

theorem rows_empty (key : RowKey) : (∅ : RowIndex).rows key = [] := by
  simp [rows]

theorem rows_push (index : RowIndex) (key other : RowKey) (row : Nat) :
    (index.push key row).rows other =
      if key = other then index.rows key ++ [row] else index.rows other := by
  simp only [rows, push, Std.HashMap.getElem?_insert, beq_iff_eq]
  split <;> simp

theorem rows_foldl_note (key : RowKey) (numbered : List (Option RowKey × Nat)) (index : RowIndex) :
    (numbered.foldl note index).rows key =
      index.rows key ++ (numbered.filter (·.1 == some key)).map (·.2) := by
  induction numbered generalizing index with
  | nil => simp
  | cons k rest ih =>
    obtain ⟨own, row⟩ := k
    rw [List.foldl_cons, ih]
    cases own with
    | none => simp [note]
    | some own =>
      show (index.push own row).rows key ++ _ = _
      rw [rows_push]
      by_cases same : own = key
      · simp [same]
      · simp [same]

theorem fill_eq (columns : List Column) (rows : List Nat) (index : RowIndex) :
    fill columns rows index =
      (rows.mapM (rowKey columns)).map fun keys => (keys.zip rows).foldl note index := by
  -- on the rows that are still to be indexed, whatever the index holds
  induction rows generalizing index with
  | nil => rfl
  | cons row rest ih =>
    unfold fill
    rw [List.mapM_cons]
    cases rowKey columns row with
    | error e => rfl
    | ok key =>
      cases key with
      | none =>
        show fill columns rest index = _
        rw [ih]
        cases rest.mapM (rowKey columns) <;> rfl
      | some key =>
        show fill columns rest (index.push key row) = _
        rw [ih]
        cases rest.mapM (rowKey columns) <;> rfl

theorem probe_eq (index : RowIndex) (columns : List Column) (rows : List Nat)
    (found : List (Nat × Nat)) :
    index.probe columns rows found = (rows.mapM (rowKey columns)).map fun keys =>
      found ++ (keys.zip rows).flatMap fun (key, row) => (indexedRows index key).map (row, ·) := by
  -- on the rows that are still to be looked up, whatever pairs were found before
  induction rows generalizing found with
  | nil => exact congrArg Except.ok (List.append_nil found).symm
  | cons row rest ih =>
    unfold probe
    rw [List.mapM_cons]
    cases rowKey columns row with
    | error e => rfl
    | ok key =>
      cases key with
      | none =>
        show index.probe columns rest found = _
        rw [ih]
        cases rest.mapM (rowKey columns) <;> rfl
      | some key =>
        show index.probe columns rest (found ++ (index.rows key).map (row, ·)) = _
        rw [ih]
        cases rest.mapM (rowKey columns) with
        | error e => rfl
        | ok keys => exact congrArg Except.ok (List.append_assoc ..)

end RowIndex

/-- The pairs of rows with equal keys, found by an index of the parent that the child looks its keys up
in. -/
def hashedPairs (child parent : List Column) (childRows parentRows : Nat) :
    Except TableError (List (Nat × Nat)) := do
  let index ← RowIndex.fill parent (List.range parentRows) ∅
  index.probe child (List.range childRows) []

theorem rowsWithKey_eq_filter (key : RowKey) (first : Nat) (keys : List (Option RowKey)) :
    rowsWithKey key first keys = ((keys.zipIdx first).filter (·.1 == some key)).map (·.2) := by
  induction keys generalizing first with
  | nil => rfl
  | cons k rest ih =>
    unfold rowsWithKey
    rw [List.zipIdx_cons, ih]
    by_cases same : k = some key
    · simp [same]
    · simp [same]

theorem nestedPairs_eq_flatMap {index : RowIndex} {parent : List (Option RowKey)}
    (knows : ∀ key, index.rows key = (parent.zipIdx.filter (·.1 == some key)).map (·.2))
    (child : List (Option RowKey)) :
    nestedPairs child parent =
      child.zipIdx.flatMap fun (key, row) => (indexedRows index key).map (row, ·) := by
  unfold nestedPairs
  congr 1
  funext ⟨key, row⟩
  cases key with
  | none => simp [indexedRows]
  | some key => simp [indexedRows, knows, Function.comp_def]

theorem matchingPairs_eq_nestedPairs (child parent : List (Option RowKey)) :
    matchingPairs child parent = nestedPairs child parent := by
  symm
  apply nestedPairs_eq_flatMap
  intro key
  rw [rows_ofKeys, rowsWithKey_eq_filter]

theorem zip_range_of_rowKeys {columns : List Column} {rows : Nat} {keys : List (Option RowKey)}
    (h : rowKeys columns rows = .ok keys) : keys.zip (List.range rows) = keys.zipIdx := by
  have traversed : (List.range rows).mapM (fun row => (rowKey columns row).toOption) = some keys := by
    rw [← toOption_mapM, toOption_eq_some_iff]
    exact h
  have length : keys.length = rows := by simpa using length_of_mapM traversed
  rw [List.zipIdx_eq_zip_range', length, List.range_eq_range']

/-- An index that is filled and probed while the keys are made finds the pairs of the nested loop, once
all keys of the parent and then all keys of the child have been made. -/
theorem hashedPairs_eq_nestedPairs (child parent : List Column) (childRows parentRows : Nat) :
    hashedPairs child parent childRows parentRows =
      (rowKeys parent parentRows >>= fun parentKeys =>
        (rowKeys child childRows).map fun childKeys => nestedPairs childKeys parentKeys) := by
  unfold hashedPairs
  rw [RowIndex.fill_eq]
  simp only [RowIndex.probe_eq]
  show ((rowKeys parent parentRows).map _ >>= fun index => (rowKeys child childRows).map _) = _
  cases parents : rowKeys parent parentRows with
  | error e => rfl
  | ok parentKeys =>
    cases children : rowKeys child childRows with
    | error e => rfl
    | ok childKeys =>
      have knows : ∀ key, (((parentKeys.zip (List.range parentRows)).foldl RowIndex.note ∅).rows key) =
          (parentKeys.zipIdx.filter (·.1 == some key)).map (·.2) := by
        intro key
        rw [RowIndex.rows_foldl_note, RowIndex.rows_empty, zip_range_of_rowKeys parents,
          List.nil_append]
      refine congrArg Except.ok ?_
      show [] ++ (childKeys.zip (List.range childRows)).flatMap _ = nestedPairs childKeys parentKeys
      rw [nestedPairs_eq_flatMap knows, zip_range_of_rowKeys children, List.nil_append]

/-! ## Keys that end early -/

namespace Batch

/-- The key of a row ends at a cell with the given reading, an error or a null: in the order of the
names, every cell in front of it holds a text. -/
def KeyEnds (b : Batch) (names : List String) (row : Nat)
    (reading : Except TableError (Option String)) : Prop :=
  ∃ before name after c, names = before ++ name :: after ∧
    (∀ n ∈ before, (b.cell? n row).isSome) ∧ b.column? name = some c ∧ c.text? row = reading

/-- The key of a row cannot be made: the first cell that holds no text is not a null, and it is for this
error that it has no text. -/
def KeyFails (b : Batch) (names : List String) (row : Nat) (error : TableError) : Prop :=
  b.KeyEnds names row (.error error)

/-- The columns give a row its key, or none, or fail as the first cell that holds no text says; what is
behind this cell is not read. -/
structure KeyedBy (b : Batch) (names : List String) (columns : List Column) (row : Nat) : Prop where
  fails : ∀ error, rowKey columns row = .error error ↔ b.KeyFails names row error
  without : rowKey columns row = .ok none ↔ b.KeyEnds names row (.ok none)
  made : ∀ key, rowKey columns row = .ok (some key) ↔ b.key? names row = some key

theorem keyEnds_cons {b : Batch} {name : String} {rest : List String} {row : Nat}
    {reading : Except TableError (Option String)} :
    b.KeyEnds (name :: rest) row reading ↔
      (∃ c, b.column? name = some c ∧ c.text? row = reading) ∨
        (b.cell? name row).isSome ∧ b.KeyEnds rest row reading := by
  refine ⟨?_, ?_⟩
  · intro h
    obtain ⟨before, n, after, c, split, cells, found, ends⟩ := h
    cases before with
    | nil =>
      obtain ⟨rfl, -⟩ := List.cons.inj split
      exact .inl ⟨c, found, ends⟩
    | cons m before =>
      obtain ⟨rfl, parts⟩ := List.cons.inj split
      obtain ⟨first, cells⟩ := List.forall_mem_cons.mp cells
      exact .inr ⟨first, before, n, after, c, parts, cells, found, ends⟩
  · intro h
    rcases h with ⟨c, found, ends⟩ | ⟨first, before, n, after, c, rfl, cells, found, ends⟩
    · exact ⟨[], name, rest, c, rfl, by simp, found, ends⟩
    · exact ⟨name :: before, n, after, c, rfl, List.forall_mem_cons.mpr ⟨first, cells⟩, found, ends⟩

end Batch

section Columns

variable {b : Batch} {names : List String} {columns : List Column}

theorem rowKey_eq_iff_keyEnds (h : names.mapM b.column? = some columns) {row : Nat}
    (reading : Except TableError (Option String)) (no_text : ∀ text, reading ≠ .ok (some text)) :
    rowKey columns row = reading.map (fun _ => none) ↔ b.KeyEnds names row reading := by
  induction names generalizing columns with
  | nil =>
    cases h
    refine iff_of_false (by cases reading <;> simp [rowKey, Except.map]) ?_
    rintro ⟨before, name, after, c, split, -⟩
    simp at split
  | cons name rest ih =>
    have maps := mapM_eq_some_iff.mp h
    cases columns with
    | nil => simp at maps
    | cons c columns =>
      simp only [List.map_cons, List.cons.injEq] at maps
      obtain ⟨hc, maps⟩ := maps
      have tail := ih (mapM_eq_some_iff.mpr maps)
      rw [Batch.keyEnds_cons, ← tail, Batch.cell?_of_column? hc, Column.cell?, rowKey, hc]
      simp only [Option.some.injEq, exists_eq_left']
      cases c.text? row with
      | error e => cases reading <;> simp [Except.map]
      | ok text =>
        cases text with
        | none =>
          cases reading with
          | error e => simp [Except.map]
          | ok own =>
            cases own with
            | none => simp [Except.map]
            | some text => exact absurd rfl (no_text text)
        | some part =>
          have not_here : (Except.ok (some part) : Except TableError (Option String)) ≠ reading :=
            fun same => no_text part same.symm
          -- a part in front changes neither an error nor the lack of a key
          have behind : (rowKey columns row).map (Option.map (part :: ·)) = reading.map (fun _ => none) ↔
              rowKey columns row = reading.map fun _ => none := by
            cases reading <;> cases rowKey columns row <;> simp [Except.map]
          simp [behind, not_here]

theorem rowKey_eq_error_iff (h : names.mapM b.column? = some columns) {row : Nat}
    {error : TableError} : rowKey columns row = .error error ↔ b.KeyFails names row error :=
  rowKey_eq_iff_keyEnds h (.error error) (by simp)

theorem keyedBy (h : names.mapM b.column? = some columns) (row : Nat) :
    b.KeyedBy names columns row where
  fails _ := rowKey_eq_error_iff h
  without := rowKey_eq_iff_keyEnds h (.ok none) (by simp)
  made key := by
    rw [← key?_of_columns h row, ← rowKey_join, Option.join_eq_some_iff, toOption_eq_some_iff]

theorem rowKeys_eq_error_iff (h : names.mapM b.column? = some columns) {rows : Nat}
    {error : TableError} :
    rowKeys columns rows = .error error ↔
      ∃ row < rows, (∀ earlier < row, b.KeyReadable names earlier) ∧ b.KeyFails names row error := by
  simp only [rowKeys, mapM_range_eq_error_iff, rowKey_ok_iff h, rowKey_eq_error_iff h]

end Columns

theorem not_keyFails {b : Batch} {names : List String} {row : Nat} (h : b.KeyReadable names row)
    (error : TableError) : ¬b.KeyFails names row error := by
  intro fails
  obtain ⟨before, name, after, c, split, cells, found, fails⟩ := fails
  obtain ⟨text, readable⟩ := h before name after split cells c found
  cases readable.symm.trans fails

/-! ## Sides -/

/-- The entry is the one of a name, under the prefix of a role and with the given rows. -/
def Entry.Shows (e : Entry) (b : Batch) (role : Role) (rows : List Nat) (name : String) : Prop :=
  ∃ own, b.entry? name = some own ∧ e.field = { own.field with name := role.qualify name } ∧
    e.column = own.column.pick rows

/-- A projection that is picked from and prefixed shows its names, in their order. -/
theorem shows_of_project {b p : Batch} {names : List String} (h : b.project names = .ok p)
    (role : Role) (rows : List Nat) :
    List.Forall₂ (fun name e => Entry.Shows e b role rows name) names
      ((p.pick rows).withLead role.lead).entries := by
  obtain ⟨entries, found, rfl⟩ := Batch.project_eq_ok_iff.mp h
  simp only [Batch.withLead, Batch.pick, List.map_map, List.forall₂_map_right_iff]
  refine (mapM_eq_some_iff_forall₂.mp found).imp ?_
  intro name own there
  refine ⟨own, there, ?_, rfl⟩
  show { own.field with name := role.lead ++ own.field.name } = _
  rw [Batch.entry?_name there, Role.qualify]

namespace Connection

variable {k : Connection} {b : Batch} {e : MappingError}

theorem project_eq_error_iff {names : List String} :
    k.project b names = .error e ↔ ∃ before name after, names = before ++ name :: after ∧
      (∀ n ∈ before, (b.column? n).isSome) ∧ b.column? name = none ∧
      e = .configuration (.columnNotInSource name k.source) := by
  have found : ∀ name, (∃ own, b.require name = .ok own) ↔ (b.column? name).isSome := by
    intro name
    rw [exists_eq_ok_iff, Batch.toOption_require, Batch.column?, Option.isSome_map]
  have absent : ∀ name error, b.require name = .error error ↔
      b.column? name = none ∧ error = .columnNotFound name := by
    intro name error
    unfold Batch.require
    rw [Batch.column?, Option.map_eq_none_iff]
    cases b.entry? name <;> simp [eq_comm]
  simp only [project, mapError_eq_error_iff, Batch.project, map_eq_error_iff, mapM_eq_error_iff,
    found, absent]
  refine ⟨?_, ?_⟩
  · intro h
    obtain ⟨_, ⟨before, name, after, names, earlier, none, rfl⟩, rfl⟩ := h
    exact ⟨before, name, after, names, earlier, none, rfl⟩
  · intro h
    obtain ⟨before, name, after, names, earlier, none, rfl⟩ := h
    exact ⟨_, ⟨before, name, after, names, earlier, none, rfl⟩, rfl⟩

theorem side_eq_error_iff {names : List String} {rows : List Nat} {role : Role} :
    k.side b names rows role = .error e ↔ k.project b names = .error e := by
  unfold side
  rw [bind_eq_error_iff]
  simp

theorem pairwise_matchedPairs (C P : Batch) (conditions : List JoinCondition) :
    (matchedPairs C P conditions).Pairwise fun a b => a.1 < b.1 ∨ a.1 = b.1 ∧ a.2 < b.2 := by
  unfold matchedPairs
  rw [List.pairwise_flatMap]
  refine ⟨?_, ?_⟩
  · intro c _
    rw [List.pairwise_map]
    refine (List.pairwise_lt_range.filter _).imp ?_
    intro p q below
    exact .inr ⟨rfl, below⟩
  · refine List.pairwise_lt_range.imp ?_
    intro c d below x hx y hy
    obtain ⟨p, -, rfl⟩ := List.mem_map.mp hx
    obtain ⟨q, -, rfl⟩ := List.mem_map.mp hy
    exact .inl below

/-! ## Joins that fail -/

/-- Why two tables cannot be joined, although the columns that are compared are there: the first key of
the parent that fails, else the first key of the child, else the first column that is asked for and
missing, those of the child before those of the parent. -/
inductive JoinFault (k : Connection) (C P : Batch) (child parent : List String)
    (conditions : List JoinCondition) : MappingError → Prop
  | parentKey {row error} (there : row < P.numRows)
      (earlier : ∀ p < row, P.KeyReadable (conditions.map (·.parentColumn)) p)
      (fails : P.KeyFails (conditions.map (·.parentColumn)) row error) :
      JoinFault k C P child parent conditions (.ofTableError error)
  | childKey {row error}
      (parents : ∀ p < P.numRows, P.KeyReadable (conditions.map (·.parentColumn)) p)
      (there : row < C.numRows)
      (earlier : ∀ c < row, C.KeyReadable (conditions.map (·.childColumn)) c)
      (fails : C.KeyFails (conditions.map (·.childColumn)) row error) :
      JoinFault k C P child parent conditions (.ofTableError error)
  | childColumn {before name after}
      (parents : ∀ p < P.numRows, P.KeyReadable (conditions.map (·.parentColumn)) p)
      (children : ∀ c < C.numRows, C.KeyReadable (conditions.map (·.childColumn)) c)
      (names : child = before ++ name :: after) (earlier : ∀ n ∈ before, (C.column? n).isSome)
      (absent : C.column? name = none) :
      JoinFault k C P child parent conditions (.configuration (.columnNotInSource name k.source))
  | parentColumn {before name after}
      (parents : ∀ p < P.numRows, P.KeyReadable (conditions.map (·.parentColumn)) p)
      (children : ∀ c < C.numRows, C.KeyReadable (conditions.map (·.childColumn)) c)
      (columns : ∀ n ∈ child, (C.column? n).isSome)
      (names : parent = before ++ name :: after) (earlier : ∀ n ∈ before, (P.column? n).isSome)
      (absent : P.column? name = none) :
      JoinFault k C P child parent conditions (.configuration (.columnNotInSource name k.source))

section Join

variable {child parent : Selection} {conditions : List JoinCondition} {C P : Batch}
  {cs ps : List Column}

/-- What is left of a join when its tables and the columns that it compares have been looked up. -/
theorem join_of_columns (some_condition : conditions ≠ [])
    (childTable : k.table child.table = .ok C) (parentTable : k.table parent.table = .ok P)
    (hcs : (conditions.map (·.childColumn)).mapM C.column? = some cs)
    (hps : (conditions.map (·.parentColumn)).mapM P.column? = some ps) :
    k.join child parent conditions =
      ((hashedPairs cs ps C.numRows P.numRows).mapError MappingError.ofTableError >>= fun pairs =>
        k.side C child.columns (pairs.map (·.1)) .child >>= fun left =>
          k.side P parent.columns (pairs.map (·.2)) .parent >>= fun right =>
            (left.beside right).mapError fun error => .dataSource (.sides error)) := by
  have nonempty : conditions.isEmpty = false := by simpa using some_condition
  have goes_on : ∀ {α β : Type} (a : α) (f : α → Except MappingError β), (.ok a >>= f) = f a :=
    fun _ _ => rfl
  rw [hashedPairs_eq_nestedPairs]
  simp only [join, nonempty, Bool.false_eq_true, if_false, childTable, parentTable, goes_on,
    keyColumns_eq_ok_iff.mpr hcs, keyColumns_eq_ok_iff.mpr hps, matchingPairs_eq_nestedPairs]
  cases rowKeys ps P.numRows with
  | error error => rfl
  | ok parentKeys => cases rowKeys cs C.numRows <;> rfl

theorem hashedPairs_eq_ok_iff (hcs : (conditions.map (·.childColumn)).mapM C.column? = some cs)
    (hps : (conditions.map (·.parentColumn)).mapM P.column? = some ps) {pairs : List (Nat × Nat)} :
    hashedPairs cs ps C.numRows P.numRows = .ok pairs ↔
      (∀ p < P.numRows, P.KeyReadable (conditions.map (·.parentColumn)) p) ∧
        (∀ c < C.numRows, C.KeyReadable (conditions.map (·.childColumn)) c) ∧
        pairs = matchedPairs C P conditions := by
  simp only [hashedPairs_eq_nestedPairs, bind_eq_ok_iff, map_eq_ok_iff, rowKeys_eq_ok_iff hps,
    rowKeys_eq_ok_iff hcs]
  refine ⟨?_, ?_⟩
  · intro h
    obtain ⟨_, ⟨parents, rfl⟩, _, ⟨children, rfl⟩, rfl⟩ := h
    refine ⟨parents, children, ?_⟩
    rw [← matchingPairs_eq_nestedPairs, matchingPairs_keys]
  · intro h
    obtain ⟨parents, children, rfl⟩ := h
    refine ⟨_, ⟨parents, rfl⟩, _, ⟨children, rfl⟩, ?_⟩
    rw [← matchingPairs_eq_nestedPairs, matchingPairs_keys]

theorem hashedPairs_eq_error_iff (hcs : (conditions.map (·.childColumn)).mapM C.column? = some cs)
    (hps : (conditions.map (·.parentColumn)).mapM P.column? = some ps) {error : TableError} :
    hashedPairs cs ps C.numRows P.numRows = .error error ↔
      (∃ row < P.numRows, (∀ p < row, P.KeyReadable (conditions.map (·.parentColumn)) p) ∧
        P.KeyFails (conditions.map (·.parentColumn)) row error) ∨
      (∀ p < P.numRows, P.KeyReadable (conditions.map (·.parentColumn)) p) ∧
        ∃ row < C.numRows, (∀ c < row, C.KeyReadable (conditions.map (·.childColumn)) c) ∧
          C.KeyFails (conditions.map (·.childColumn)) row error := by
  rw [hashedPairs_eq_nestedPairs, bind_eq_error_iff]
  simp only [rowKeys_eq_error_iff hps, rowKeys_eq_ok_iff hps, map_eq_error_iff,
    rowKeys_eq_error_iff hcs, exists_and_right]
  refine or_congr_right (and_congr_left fun _ => ?_)
  exact ⟨fun h => h.choose_spec.1, fun parents => ⟨_, parents, rfl⟩⟩

theorem beside_sides {pairs : List (Nat × Nat)} {left right : Batch}
    (hl : k.side C child.columns (pairs.map (·.1)) .child = .ok left)
    (hr : k.side P parent.columns (pairs.map (·.2)) .parent = .ok right) :
    ∃ b, left.beside right = .ok b := by
  obtain ⟨own, -, rfl⟩ := side_eq_ok_iff.mp hl
  obtain ⟨other, -, rfl⟩ := side_eq_ok_iff.mp hr
  exact ⟨_, Batch.beside_paired own other pairs⟩

section There

variable (some_condition : conditions ≠ [])
  (childTable : k.table child.table = .ok C) (parentTable : k.table parent.table = .ok P)
  (childKeys : ∀ j ∈ conditions, (C.column? j.childColumn).isSome)
  (parentKeys : ∀ j ∈ conditions, (P.column? j.parentColumn).isSome)

include some_condition childTable parentTable childKeys parentKeys

theorem exists_join_of_columns : ∃ cs ps,
    (conditions.map (·.childColumn)).mapM C.column? = some cs ∧
      (conditions.map (·.parentColumn)).mapM P.column? = some ps ∧
      k.join child parent conditions =
        ((hashedPairs cs ps C.numRows P.numRows).mapError MappingError.ofTableError >>= fun pairs =>
          k.side C child.columns (pairs.map (·.1)) .child >>= fun left =>
            k.side P parent.columns (pairs.map (·.2)) .parent >>= fun right =>
              (left.beside right).mapError fun error => .dataSource (.sides error)) := by
  obtain ⟨cs, hcs⟩ : ∃ cs, (conditions.map (·.childColumn)).mapM C.column? = some cs :=
    Option.isSome_iff_exists.mp (isSome_mapM_iff.mpr (by simpa using childKeys))
  obtain ⟨ps, hps⟩ : ∃ ps, (conditions.map (·.parentColumn)).mapM P.column? = some ps :=
    Option.isSome_iff_exists.mp (isSome_mapM_iff.mpr (by simpa using parentKeys))
  exact ⟨cs, ps, hcs, hps, join_of_columns some_condition childTable parentTable hcs hps⟩

theorem join_eq_error_iff :
    k.join child parent conditions = .error e ↔
      k.JoinFault C P child.columns parent.columns conditions e := by
  obtain ⟨cs, ps, hcs, hps, same⟩ :=
    exists_join_of_columns some_condition childTable parentTable childKeys parentKeys
  rw [same, bind_eq_error_iff]
  -- the checks one after the other: keys of the parent, keys of the child, columns of either side
  refine ⟨?_, ?_⟩
  · intro h
    rcases h with keys | ⟨pairs, made, h⟩
    · obtain ⟨error, first, rfl⟩ := mapError_eq_error_iff.mp keys
      rcases (hashedPairs_eq_error_iff hcs hps).mp first with ⟨row, there, earlier, fails⟩ | later
      · exact .parentKey there earlier fails
      · obtain ⟨parents, row, there, earlier, fails⟩ := later
        exact .childKey parents there earlier fails
    · obtain ⟨parents, children, -⟩ :=
        (hashedPairs_eq_ok_iff hcs hps).mp (mapError_eq_ok_iff.mp made)
      rcases bind_eq_error_iff.mp h with fails | ⟨left, hl, h⟩
      · obtain ⟨before, name, after, names, earlier, absent, rfl⟩ :=
          project_eq_error_iff.mp (side_eq_error_iff.mp fails)
        exact .childColumn parents children names earlier absent
      have columns : ∀ n ∈ child.columns, (C.column? n).isSome := by
        obtain ⟨own, projected, -⟩ := side_eq_ok_iff.mp hl
        exact Batch.project_ok_iff.mp ⟨own, projected⟩
      rcases bind_eq_error_iff.mp h with fails | ⟨right, hr, fails⟩
      · obtain ⟨before, name, after, names, earlier, absent, rfl⟩ :=
          project_eq_error_iff.mp (side_eq_error_iff.mp fails)
        exact .parentColumn parents children columns names earlier absent
      -- both sides are there, and then putting them together cannot fail
      · obtain ⟨b, together⟩ := beside_sides hl hr
        rw [together] at fails
        cases fails
  · intro h
    have pairs_of : ∀ parents children, (hashedPairs cs ps C.numRows P.numRows).mapError
        MappingError.ofTableError = .ok (matchedPairs C P conditions) := fun parents children =>
      mapError_eq_ok_iff.mpr ((hashedPairs_eq_ok_iff hcs hps).mpr ⟨parents, children, rfl⟩)
    cases h with
    | @parentKey row error there earlier fails =>
      refine .inl (mapError_eq_error_iff.mpr ⟨error, ?_, rfl⟩)
      exact (hashedPairs_eq_error_iff hcs hps).mpr (.inl ⟨row, there, earlier, fails⟩)
    | @childKey row error parents there earlier fails =>
      refine .inl (mapError_eq_error_iff.mpr ⟨error, ?_, rfl⟩)
      exact (hashedPairs_eq_error_iff hcs hps).mpr (.inr ⟨parents, row, there, earlier, fails⟩)
    | childColumn parents children names earlier absent =>
      refine .inr ⟨_, pairs_of parents children, bind_eq_error_iff.mpr (.inl ?_)⟩
      exact side_eq_error_iff.mpr (project_eq_error_iff.mpr ⟨_, _, _, names, earlier, absent, rfl⟩)
    | parentColumn parents children columns names earlier absent =>
      obtain ⟨own, projected⟩ := Batch.project_ok_iff.mpr columns
      have left : k.side C child.columns ((matchedPairs C P conditions).map (·.1)) .child = .ok _ :=
        side_eq_ok_iff.mpr ⟨own, projected, rfl⟩
      refine .inr ⟨_, pairs_of parents children, bind_eq_error_iff.mpr (.inr ⟨_, left, ?_⟩)⟩
      refine bind_eq_error_iff.mpr (.inl (side_eq_error_iff.mpr ?_))
      exact project_eq_error_iff.mpr ⟨_, _, _, names, earlier, absent, rfl⟩

/-- **A join is a nested loop.** The pairs that the index finds are those of a nested loop, which is run
once the keys of the parent and then those of the child have been made, each up to its first cell without
a text, where a null leaves the row without a key. The join fails exactly if a key
fails or a column that is asked for is missing, and with its fault, never with one of putting the two
sides together. Otherwise its rows are the matched pairs, each once, in the order of the loop. Each row
has the columns that are asked for of its child row and its parent row, under the prefixes of their
roles. -/
theorem join_eq_nested_loop :
    (∃ cs ps, (conditions.map (·.childColumn)).mapM C.column? = some cs ∧
      (conditions.map (·.parentColumn)).mapM P.column? = some ps ∧
      k.join child parent conditions =
        ((hashedPairs cs ps C.numRows P.numRows).mapError MappingError.ofTableError >>= fun pairs =>
          k.side C child.columns (pairs.map (·.1)) .child >>= fun left =>
            k.side P parent.columns (pairs.map (·.2)) .parent >>= fun right =>
              (left.beside right).mapError fun error => .dataSource (.sides error)) ∧
      hashedPairs cs ps C.numRows P.numRows =
        (rowKeys ps P.numRows >>= fun parentKeys =>
          (rowKeys cs C.numRows).map fun childKeys => nestedPairs childKeys parentKeys) ∧
      ∀ row, C.KeyedBy (conditions.map (·.childColumn)) cs row ∧
        P.KeyedBy (conditions.map (·.parentColumn)) ps row) ∧
    (∀ e, k.join child parent conditions = .error e ↔
      k.JoinFault C P child.columns parent.columns conditions e) ∧
    ((∃ e, k.join child parent conditions = .error e) ↔
      (∃ row < P.numRows, ∃ error, P.KeyFails (conditions.map (·.parentColumn)) row error) ∨
      (∃ row < C.numRows, ∃ error, C.KeyFails (conditions.map (·.childColumn)) row error) ∨
      (∃ n ∈ child.columns, C.column? n = none) ∨ ∃ n ∈ parent.columns, P.column? n = none) ∧
    (∀ b, k.join child parent conditions = .ok b → ∃ pairs : List (Nat × Nat),
      (∀ c p, (c, p) ∈ pairs ↔ c < C.numRows ∧ p < P.numRows ∧ Matched C P conditions c p) ∧
      (pairs.Pairwise fun a b => a.1 < b.1 ∨ a.1 = b.1 ∧ a.2 < b.2) ∧ b.numRows = pairs.length ∧
      ∃ left right, b.entries = left ++ right ∧
        List.Forall₂ (fun name e => Entry.Shows e C .child (pairs.map (·.1)) name) child.columns left ∧
        List.Forall₂ (fun name e => Entry.Shows e P .parent (pairs.map (·.2)) name) parent.columns
          right) ∧
    ∀ (pairs : List (Nat × Nat)) (left right : Batch),
      k.side C child.columns (pairs.map (·.1)) .child = .ok left →
        k.side P parent.columns (pairs.map (·.2)) .parent = .ok right →
          ∃ b, left.beside right = .ok b := by
  refine ⟨?_, ?_, ?_, ?_, fun pairs left right hl hr => beside_sides hl hr⟩
  · obtain ⟨cs, ps, hcs, hps, same⟩ :=
      exists_join_of_columns some_condition childTable parentTable childKeys parentKeys
    exact ⟨cs, ps, hcs, hps, same, hashedPairs_eq_nestedPairs .., fun row =>
      ⟨keyedBy hcs row, keyedBy hps row⟩⟩
  · intro e
    exact join_eq_error_iff some_condition childTable parentTable childKeys parentKeys
  · refine ⟨?_, ?_⟩
    · intro h
      obtain ⟨e, failed⟩ := h
      cases (join_eq_error_iff some_condition childTable parentTable childKeys parentKeys).mp failed with
      | parentKey there _ fails => exact .inl ⟨_, there, _, fails⟩
      | childKey _ there _ fails => exact .inr (.inl ⟨_, there, _, fails⟩)
      | childColumn _ _ names _ absent => exact .inr (.inr (.inl ⟨_, by simp [names], absent⟩))
      | parentColumn _ _ _ names _ absent => exact .inr (.inr (.inr ⟨_, by simp [names], absent⟩))
    · intro h
      cases answered : k.join child parent conditions with
      | error e => exact ⟨e, rfl⟩
      | ok b =>
        exfalso
        obtain ⟨-, C', P', hC, hP, there, -⟩ := join_eq_ok_iff.mp answered
        cases (table_eq_ok_iff.mpr hC).symm.trans childTable
        cases (table_eq_ok_iff.mpr hP).symm.trans parentTable
        rcases h with ⟨row, hr, error, fails⟩ | ⟨row, hr, error, fails⟩ | missing | missing
        · exact not_keyFails (there.parentKeys row hr) error fails
        · exact not_keyFails (there.childKeys row hr) error fails
        · obtain ⟨n, hn, absent⟩ := missing
          exact Option.isSome_iff_ne_none.mp (there.childColumns n hn) absent
        · obtain ⟨n, hn, absent⟩ := missing
          exact Option.isSome_iff_ne_none.mp (there.parentColumns n hn) absent
  · intro b answered
    obtain ⟨-, C', P', hC, hP, -, left, right, hl, hr, rfl⟩ := join_eq_ok_iff.mp answered
    cases (table_eq_ok_iff.mpr hC).symm.trans childTable
    cases (table_eq_ok_iff.mpr hP).symm.trans parentTable
    refine ⟨matchedPairs C P conditions, fun c p => mem_matchedPairs, pairwise_matchedPairs C P conditions,
      rfl, _, _, rfl, shows_of_project hl .child _, shows_of_project hr .parent _⟩

end There

end Join

/-- Loans of books, one of them to nobody known. -/
def loans : Batch :=
  ⟨[⟨⟨"book", .string, false⟩, ⟨.string, #[some "a", some "b", some "c"]⟩⟩,
    ⟨⟨"member", .int64, true⟩, ⟨.int64, #[some 1, none, some 1]⟩⟩], 3⟩

def members : Batch := ⟨[⟨⟨"id", .string, false⟩, ⟨.string, #[some "1", some "2", some "1"]⟩⟩], 3⟩

def library : Connection := ⟨"db", [("loans", loans), ("members", members)]⟩

theorem join_loans_members :
    library.join ⟨.table "loans", ["book", "book"]⟩ ⟨.table "members", ["name"]⟩ [⟨"member", "id"⟩] =
        .error (.configuration (.columnNotInSource "name" "db")) ∧
      ∀ b, library.join ⟨.table "loans", ["book", "book"]⟩ ⟨.table "members", ["id"]⟩
          [⟨"member", "id"⟩] = .ok b →
        ∃ pairs : List (Nat × Nat), b.numRows = pairs.length ∧
          ∀ c < 3, ∀ p < 3, (c, p) ∈ pairs ↔ c ≠ 1 ∧ p ≠ 1 := by
  have child : ∀ j ∈ [JoinCondition.mk "member" "id"], (loans.column? j.childColumn).isSome := by
    decide
  have parent : ∀ j ∈ [JoinCondition.mk "member" "id"], (members.column? j.parentColumn).isSome := by
    decide
  have childKeys : ∀ c < loans.numRows, (loans.column? "member").all fun column =>
      (column.text? c).toOption.isSome := by
    decide
  have parentKeys : ∀ p < members.numRows, (members.column? "id").all fun column =>
      (column.text? p).toOption.isSome := by
    decide
  refine ⟨?_, ?_⟩
  · refine ((@join_eq_nested_loop library ⟨.table "loans", ["book", "book"]⟩
      ⟨.table "members", ["name"]⟩ [⟨"member", "id"⟩] loans members (by simp) rfl rfl child
      parent).2.1 _).mpr ?_
    have names : ["name"] = [] ++ "name" :: [] := rfl
    exact .parentColumn (fun p hp => Batch.keyReadable_of_all (parentKeys p hp))
      (fun c hc => Batch.keyReadable_of_all (childKeys c hc)) (by decide) names (by simp) rfl
  · intro b answered
    obtain ⟨pairs, matched, -, rows, -⟩ := (@join_eq_nested_loop library
      ⟨.table "loans", ["book", "book"]⟩ ⟨.table "members", ["id"]⟩ [⟨"member", "id"⟩] loans members
      (by simp) rfl rfl child parent).2.2.2.1 b answered
    have same : ∀ c < 3, ∀ p < 3, (c < loans.numRows ∧ p < members.numRows ∧
        Matched loans members [⟨"member", "id"⟩] c p) ↔ c ≠ 1 ∧ p ≠ 1 := by
      decide
    refine ⟨pairs, rows, fun c hc p hp => ?_⟩
    rw [matched]
    exact same c hc p hp

end Connection

end RdfMapping
