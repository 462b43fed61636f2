import Mathlib.Data.Finset.Prod
import RdfMapping.Proofs.Table.Cells
import RdfMapping.Source.Join

/-!
The pairs of rows that a join finds.

Two rows match if under every condition both of them hold a text, and the same one (`Matched`). The
index of the parent's keys finds exactly the matched pairs, once each and in the order of a nested loop
over the rows of the child and of the parent (`matchingPairs_keys`). Keys are made of a row when every
cell in front of its first null has a text (`KeyReadable`), and of a table when they are made of all of
its rows, matched or not (`rowKeys_eq_ok_iff`).
-/

namespace RdfMapping

/-! ## Keys -/

namespace Batch

/-- The key of a row under the given names. -/
def key? (b : Batch) (names : List String) (row : Nat) : Option RowKey :=
  names.mapM fun name => b.cell? name row

/-- The cell under a name is null or has a text; there is nothing to ask if the name means no
column. -/
def Readable (b : Batch) (name : String) (row : Nat) : Prop :=
  ∀ c, b.column? name = some c → ∃ text, c.text? row = .ok text

/-- The key of a row can be made: in the order of the names, every cell up to the first null is
readable. -/
def KeyReadable (b : Batch) (names : List String) (row : Nat) : Prop :=
  ∀ before name after, names = before ++ name :: after →
    (∀ n ∈ before, (b.cell? n row).isSome) → b.Readable name row

theorem keyReadable_nil (b : Batch) (row : Nat) : b.KeyReadable [] row := by
  intro before name after split
  simp at split

theorem keyReadable_cons {b : Batch} {name : String} {rest : List String} {row : Nat} :
    b.KeyReadable (name :: rest) row ↔
      b.Readable name row ∧ ((b.cell? name row).isSome → b.KeyReadable rest row) := by
  refine ⟨?_, ?_⟩
  · intro h
    refine ⟨h [] name rest rfl (by simp), fun first before n after split cells => ?_⟩
    refine h (name :: before) n after (by rw [split, List.cons_append]) ?_
    intro m hm
    rcases List.mem_cons.mp hm with rfl | hm
    · exact first
    · exact cells m hm
  · intro h before n after split cells
    obtain ⟨head, tail⟩ := h
    cases before with
    | nil =>
      simp only [List.nil_append, List.cons.injEq] at split
      exact split.1 ▸ head
    | cons m before =>
      simp only [List.cons_append, List.cons.injEq] at split
      obtain ⟨rfl, split⟩ := split
      have first := cells name (List.mem_cons_self ..)
      exact tail first before n after split fun k hk => cells k (List.mem_cons_of_mem _ hk)

theorem readable_of_all {b : Batch} {name : String} {row : Nat}
    (h : (b.column? name).all fun column => (column.text? row).toOption.isSome) :
    b.Readable name row := by
  intro column found
  rw [found, Option.all_some, Option.isSome_iff_exists] at h
  simpa only [toOption_eq_some_iff] using h

theorem keyReadable_of_all {b : Batch} {name : String} {row : Nat}
    (h : (b.column? name).all fun column => (column.text? row).toOption.isSome) :
    b.KeyReadable [name] row :=
  keyReadable_cons.mpr ⟨readable_of_all h, fun _ => b.keyReadable_nil row⟩

end Batch

theorem rowKey_join (columns : List Column) (row : Nat) :
    (rowKey columns row).toOption.join = columns.mapM (·.cell? row) := by
  induction columns with
  | nil => rfl
  | cons c rest ih =>
    rw [rowKey, List.mapM_cons, ← ih, Column.cell?]
    cases c.text? row with
    | error e => rfl
    | ok text =>
      cases text with
      | none => rfl
      | some part =>
        cases rowKey rest row with
        | error e => rfl
        | ok key => cases key <;> rfl

section Columns

variable {b : Batch} {names : List String} {columns : List Column}

theorem key?_of_columns (h : names.mapM b.column? = some columns) (row : Nat) :
    columns.mapM (·.cell? row) = b.key? names row := by
  rw [mapM_of_mapM h]
  rfl

theorem rowKey_ok_iff (h : names.mapM b.column? = some columns) (row : Nat) :
    (∃ key, rowKey columns row = .ok key) ↔ b.KeyReadable names row := by
  induction names generalizing columns with
  | nil =>
    cases h
    exact iff_of_true ⟨_, rfl⟩ (b.keyReadable_nil row)
  | cons name rest ih =>
    have maps := mapM_eq_some_iff.mp h
    cases columns with
    | nil => simp at maps
    | cons c columns =>
      simp only [List.map_cons, List.cons.injEq] at maps
      obtain ⟨hc, maps⟩ := maps
      have tail := ih (mapM_eq_some_iff.mpr maps)
      rw [Batch.keyReadable_cons, ← tail, Batch.cell?_of_column? hc, Column.cell?, rowKey]
      have readable : b.Readable name row ↔ ∃ text, c.text? row = .ok text := by
        simp [Batch.Readable, hc]
      rw [readable]
      -- a null ends the key, and what is behind it is not read
      cases c.text? row with
      | error e => simp
      | ok text =>
        cases text with
        | none => simp
        | some part => cases rowKey columns row <;> simp [Except.map]

theorem rowKeys_eq_ok_iff (h : names.mapM b.column? = some columns) {rows : Nat}
    {keys : List (Option RowKey)} :
    rowKeys columns rows = .ok keys ↔
      (∀ row < rows, b.KeyReadable names row) ∧ keys = (List.range rows).map (b.key? names) := by
  have made : (∀ row < rows, b.KeyReadable names row) ↔
      ∀ row ∈ List.range rows, ((rowKey columns row).toOption).isSome := by
    simp only [← rowKey_ok_iff h, List.mem_range, ← toOption_eq_some_iff, Option.isSome_iff_exists]
  -- `key?` takes a cell without a text for a null; once a key is made there is none
  have step : ∀ row, ((rowKey columns row).toOption).isSome →
      (rowKey columns row).toOption = some (b.key? names row) := by
    intro row some_key
    obtain ⟨key, hk⟩ := Option.isSome_iff_exists.mp some_key
    symm
    calc some (b.key? names row) = some (columns.mapM (·.cell? row)) := by rw [key?_of_columns h]
      _ = some (rowKey columns row).toOption.join := by rw [rowKey_join]
      _ = (rowKey columns row).toOption := by rw [hk, Option.join_some]
  have found : (∀ row ∈ List.range rows, ((rowKey columns row).toOption).isSome) →
      ((List.range rows).mapM fun row => (rowKey columns row).toOption) =
        some ((List.range rows).map (b.key? names)) := by
    intro all
    rw [mapM_eq_some_iff, List.map_map]
    exact List.map_congr_left fun row hrow => step row (all row hrow)
  rw [made, ← toOption_eq_some_iff, rowKeys, toOption_mapM]
  refine ⟨?_, ?_⟩
  · intro hkeys
    have all := isSome_of_mapM hkeys
    exact ⟨all, Option.some.inj (hkeys.symm.trans (found all))⟩
  · intro h
    obtain ⟨all, rfl⟩ := h
    exact found all

end Columns

/-! ## Pairs -/

theorem rowsWithKey_keys (key : RowKey) (f : Nat → Option RowKey) (first n : Nat) :
    rowsWithKey key first ((List.range' first n).map f) =
      (List.range' first n).filter fun row => f row = some key := by
  induction n generalizing first with
  | zero => rfl
  | succ n ih =>
    rw [List.range'_succ, List.map_cons, rowsWithKey, ih, List.filter_cons]
    simp only [decide_eq_true_eq]

theorem indexedRows_keys (key : Option RowKey) (f : Nat → Option RowKey) (n : Nat) :
    indexedRows (RowIndex.ofKeys 0 ((List.range n).map f)) key =
      (List.range n).filter fun row => key.isSome ∧ key = f row := by
  cases key with
  | none => simp [indexedRows]
  | some key =>
    rw [indexedRows, rows_ofKeys, List.range_eq_range', rowsWithKey_keys]
    simp only [Option.isSome_some, true_and, eq_comm]

/-- The pairs of a child row and a parent row that have the same key. -/
theorem matchingPairs_map (f g : Nat → Option RowKey) (m n : Nat) :
    matchingPairs ((List.range m).map f) ((List.range n).map g) =
      (List.range m).flatMap fun c =>
        ((List.range n).filter fun p => (f c).isSome ∧ f c = g p).map fun p => (c, p) := by
  have numbered : ((List.range m).map f).zipIdx = (List.range m).map fun c => (f c, c) := by
    apply List.ext_getElem
    · simp
    · intro i _ _
      simp
  rw [matchingPairs, numbered, List.flatMap_map]
  simp only [indexedRows_keys]

/-- Two rows match: under every condition both hold a text, and the same one. -/
def Matched (child parent : Batch) (conditions : List JoinCondition) (c p : Nat) : Prop :=
  ∀ k ∈ conditions, (child.cell? k.childColumn c).isSome ∧
    child.cell? k.childColumn c = parent.cell? k.parentColumn p

instance (child parent : Batch) (conditions : List JoinCondition) (c p : Nat) :
    Decidable (Matched child parent conditions c p) :=
  inferInstanceAs (Decidable (∀ k ∈ conditions, _))

section Tables

variable (child parent : Batch) (conditions : List JoinCondition)

theorem matched_iff_key? (c p : Nat) :
    Matched child parent conditions c p ↔
      (child.key? (conditions.map (·.childColumn)) c).isSome ∧
        child.key? (conditions.map (·.childColumn)) c =
          parent.key? (conditions.map (·.parentColumn)) p := by
  rw [Batch.key?, Batch.key?, List.mapM_map, List.mapM_map, mapM_eq_and_isSome_iff]
  rfl

/-- The matched pairs, by child row and then by parent row. -/
def matchedPairs : List (Nat × Nat) :=
  (List.range child.numRows).flatMap fun c =>
    ((List.range parent.numRows).filter fun p => Matched child parent conditions c p).map
      fun p => (c, p)

/-- The index of the parent's keys finds the matched pairs. -/
theorem matchingPairs_keys :
    matchingPairs ((List.range child.numRows).map (child.key? (conditions.map (·.childColumn))))
        ((List.range parent.numRows).map (parent.key? (conditions.map (·.parentColumn)))) =
      matchedPairs child parent conditions := by
  simp only [matchingPairs_map, matchedPairs, matched_iff_key?]

variable {child parent conditions}

theorem mem_matchedPairs {c p : Nat} :
    (c, p) ∈ matchedPairs child parent conditions ↔
      c < child.numRows ∧ p < parent.numRows ∧ Matched child parent conditions c p := by
  simp [matchedPairs]

theorem nodup_matchedPairs : (matchedPairs child parent conditions).Nodup := by
  rw [matchedPairs, List.nodup_flatMap]
  refine ⟨?_, ?_⟩
  · intro c _
    refine List.Nodup.map ?_ (List.nodup_range.filter _)
    intro p q same
    exact congrArg Prod.snd same
  · refine List.Pairwise.imp ?_ List.nodup_range
    intro c c' ne pair left right
    obtain ⟨p, -, rfl⟩ := List.mem_map.mp left
    obtain ⟨q, -, same⟩ := List.mem_map.mp right
    exact ne (congrArg Prod.fst same).symm

theorem length_matchedPairs :
    (matchedPairs child parent conditions).length =
      ((Finset.range child.numRows ×ˢ Finset.range parent.numRows).filter fun pair =>
        Matched child parent conditions pair.1 pair.2).card := by
  rw [← List.toFinset_card_of_nodup nodup_matchedPairs]
  congr 1
  ext ⟨c, p⟩
  rw [List.mem_toFinset, mem_matchedPairs, Finset.mem_filter, Finset.mem_product, Finset.mem_range,
    Finset.mem_range, and_assoc]

end Tables

end RdfMapping
