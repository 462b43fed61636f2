import RdfMapping.Proofs.Source.Matching
import RdfMapping.Source.Access

/-!
What a store answers.

A projection of a table keeps the cells of its columns. A join puts the matched rows of two projections
side by side (`Batch.paired`), under prefixes that keep their names apart, so it never fails at that
point, and a name in a role means what it means in the projection of that role (`rowAs_child_paired`,
`rowAs_parent_paired`). Turning decimals into doubles may as well be done before the rows are paired
(`decimalsToFloat_paired`). `join_eq_ok_iff` says exactly when a join is answered, and with what.
-/

namespace RdfMapping

/-! ## Tables -/

/-- The table that a logical table names; the text of a query names none. -/
def Tables.held? (tables : Tables) : LogicalTable → Option Batch
  | .table name => tables.lookup name
  | .query _ => none

namespace Connection

theorem toOption_table (k : Connection) (t : LogicalTable) :
    (k.table t).toOption = k.tables.held? t := by
  cases t with
  | query sql => rfl
  | table name =>
    simp only [table, Tables.held?]
    cases k.tables.lookup name <;> rfl

theorem table_eq_ok_iff {k : Connection} {t : LogicalTable} {b : Batch} :
    k.table t = .ok b ↔ k.tables.held? t = some b := by
  rw [← toOption_eq_some_iff, toOption_table]

theorem keyColumns_eq_ok_iff {k : Connection} {b : Batch} {names : List String}
    {columns : List Column} :
    k.keyColumns b names = .ok columns ↔ names.mapM b.column? = some columns := by
  rw [← toOption_eq_some_iff, keyColumns, toOption_mapM]
  refine Eq.congr_left (mapM_congr fun name _ => ?_)
  cases b.column? name <;> rfl

end Connection

/-! ## Rows side by side -/

namespace Batch

/-- A table as it is delivered: with or without decimals. -/
def delivered (coerce : Bool) (b : Batch) : Batch := if coerce then b.decimalsToFloat else b

@[simp] theorem numRows_delivered (coerce : Bool) (b : Batch) :
    (b.delivered coerce).numRows = b.numRows := by
  cases coerce <;> rfl

/-- What is delivered of a projection is what is delivered of the table, under the names that the
projection keeps. -/
theorem cell?_delivered_project {coerce : Bool} {b p : Batch} {names : List String}
    (h : b.project names = .ok p) {name : String} (hn : name ∈ names) (row : Nat) :
    (p.delivered coerce).cell? name row = (b.delivered coerce).cell? name row := by
  have same : p.column? name = b.column? name := by rw [column?_project h, if_pos hn]
  cases coerce with
  | false =>
    show p.cell? name row = b.cell? name row
    rw [cell?, cell?, same]
  | true =>
    show p.decimalsToFloat.cell? name row = b.decimalsToFloat.cell? name row
    rw [cell?, cell?, column?_decimalsToFloat, column?_decimalsToFloat, same]

/-- The rows that pairs name, side by side under the prefixes of child and parent. -/
def paired (left right : Batch) (pairs : List (Nat × Nat)) : Batch :=
  ⟨((left.pick (pairs.map (·.1))).withLead Role.child.lead).entries ++
      ((right.pick (pairs.map (·.2))).withLead Role.parent.lead).entries, pairs.length⟩

theorem beside_paired (left right : Batch) (pairs : List (Nat × Nat)) :
    ((left.pick (pairs.map (·.1))).withLead Role.child.lead).beside
        ((right.pick (pairs.map (·.2))).withLead Role.parent.lead) =
      .ok (paired left right pairs) := by
  have rows : ((left.pick (pairs.map (·.1))).withLead Role.child.lead).numRows =
      ((right.pick (pairs.map (·.2))).withLead Role.parent.lead).numRows := by
    simp [withLead, pick]
  refine beside_eq_ok_iff.mpr ⟨rows, names_of_roles_apart _ _, ?_⟩
  simp [paired, withLead, pick]

section Paired

variable {left right : Batch} {pairs : List (Nat × Nat)} {i c p : Nat}

variable (left right pairs) in
theorem column?_child_paired (name : String) :
    (paired left right pairs).column? (Role.child.qualify name) =
      (left.pick (pairs.map (·.1))).column? name :=
  column?_child_beside (beside_paired left right pairs) name

variable (left right pairs) in
theorem column?_parent_paired (name : String) :
    (paired left right pairs).column? (Role.parent.qualify name) =
      (right.pick (pairs.map (·.2))).column? name :=
  column?_parent_beside (beside_paired left right pairs) name

theorem rowAs_child_paired (h : pairs[i]? = some (c, p)) :
    (paired left right pairs).rowAs .child i = left.row c := by
  funext name
  have picked := left.cell?_pick (pairs.map (·.1)) name i
  rw [List.getElem?_map, h] at picked
  rw [rowAs, row, cell?, column?_child_paired]
  exact picked

theorem rowAs_parent_paired (h : pairs[i]? = some (c, p)) :
    (paired left right pairs).rowAs .parent i = right.row p := by
  funext name
  have picked := right.cell?_pick (pairs.map (·.2)) name i
  rw [List.getElem?_map, h] at picked
  rw [rowAs, row, cell?, column?_parent_paired]
  exact picked

/-- Decimals may be turned into doubles before or after rows are paired. -/
theorem decimalsToFloat_paired (left right : Batch) (pairs : List (Nat × Nat)) :
    (paired left right pairs).decimalsToFloat =
      paired left.decimalsToFloat right.decimalsToFloat pairs := by
  simp only [paired, decimalsToFloat, withLead, pick, List.map_append, List.map_map]
  congr 2 <;>
  · apply List.map_congr_left
    intro e _
    simp [Column.decimalsToFloat_pick]

theorem delivered_paired (coerce : Bool) (left right : Batch) (pairs : List (Nat × Nat)) :
    (paired left right pairs).delivered coerce =
      paired (left.delivered coerce) (right.delivered coerce) pairs := by
  cases coerce with
  | false => rfl
  | true => exact decimalsToFloat_paired left right pairs

end Paired

end Batch

/-! ## Joins -/

namespace Connection

theorem side_eq_ok_iff {k : Connection} {b s : Batch} {names : List String} {rows : List Nat}
    {role : Role} : k.side b names rows role = .ok s ↔
      ∃ p, b.project names = .ok p ∧ s = (p.pick rows).withLead role.lead := by
  simp only [side, bind_eq_ok_iff, project, mapError_eq_ok_iff, Except.ok.injEq]
  exact exists_congr fun p => and_congr_right fun _ => eq_comm

/-- What has to be there for two tables to be joined on conditions: the columns that are compared and
those that are asked for, and a key of every row of either table. -/
structure Joinable (child parent : Batch) (childNames parentNames : List String)
    (conditions : List JoinCondition) : Prop where
  childConditions : ∀ k ∈ conditions, (child.column? k.childColumn).isSome
  parentConditions : ∀ k ∈ conditions, (parent.column? k.parentColumn).isSome
  childColumns : ∀ name ∈ childNames, (child.column? name).isSome
  parentColumns : ∀ name ∈ parentNames, (parent.column? name).isSome
  childKeys : ∀ row < child.numRows, child.KeyReadable (conditions.map (·.childColumn)) row
  parentKeys : ∀ row < parent.numRows, parent.KeyReadable (conditions.map (·.parentColumn)) row

/-- A join is answered exactly if there are conditions and both tables, and they can be joined; the
answer pairs the matched rows. -/
theorem join_eq_ok_iff {k : Connection} {child parent : Selection}
    {conditions : List JoinCondition} {b : Batch} :
    k.join child parent conditions = .ok b ↔
      conditions ≠ [] ∧ ∃ C P, k.tables.held? child.table = some C ∧
        k.tables.held? parent.table = some P ∧
        Joinable C P child.columns parent.columns conditions ∧
        ∃ left right, C.project child.columns = .ok left ∧ P.project parent.columns = .ok right ∧
          b = left.paired right (matchedPairs C P conditions) := by
  by_cases empty : conditions = []
  · simp [join, empty]
  have some_condition : conditions.isEmpty = false := by simpa using empty
  simp only [join, some_condition, Bool.false_eq_true, if_false, bind_eq_ok_iff, table_eq_ok_iff,
    keyColumns_eq_ok_iff, mapError_eq_ok_iff, side_eq_ok_iff]
  refine ⟨?_, ?_⟩
  · intro h
    -- the checks in the order in which they are made; which of them fails first is not asked here
    obtain ⟨C, hC, P, hP, cs, hcs, ps, hps, pkeys, hpk, ckeys, hck, rest⟩ := h
    obtain ⟨-, ⟨left, hl, rfl⟩, -, ⟨right, hr, rfl⟩, sides⟩ := rest
    obtain ⟨parentKeys, rfl⟩ := (rowKeys_eq_ok_iff hps).mp hpk
    obtain ⟨childKeys, rfl⟩ := (rowKeys_eq_ok_iff hcs).mp hck
    rw [matchingPairs_keys, Batch.beside_paired] at sides
    refine ⟨empty, C, P, hC, hP, ?_, left, right, hl, hr, (Except.ok.inj sides).symm⟩
    exact {
      childConditions := fun j hj => isSome_of_mapM hcs _ (List.mem_map_of_mem hj)
      parentConditions := fun j hj => isSome_of_mapM hps _ (List.mem_map_of_mem hj)
      childColumns := Batch.project_ok_iff.mp ⟨left, hl⟩
      parentColumns := Batch.project_ok_iff.mp ⟨right, hr⟩
      childKeys, parentKeys }
  · intro h
    obtain ⟨-, C, P, hC, hP, there, left, right, hl, hr, rfl⟩ := h
    have columns : ∀ {t : Batch} {names : List String}, (∀ n ∈ names, (t.column? n).isSome) →
        ∃ found, names.mapM t.column? = some found := by
      intro t names h
      exact Option.isSome_iff_exists.mp (isSome_mapM_iff.mpr h)
    obtain ⟨cs, hcs⟩ : ∃ cs, (conditions.map (·.childColumn)).mapM C.column? = some cs :=
      columns (by simpa using there.childConditions)
    obtain ⟨ps, hps⟩ : ∃ ps, (conditions.map (·.parentColumn)).mapM P.column? = some ps :=
      columns (by simpa using there.parentConditions)
    refine ⟨C, hC, P, hP, cs, hcs, ps, hps, _, (rowKeys_eq_ok_iff hps).mpr ⟨there.parentKeys, rfl⟩,
      _, (rowKeys_eq_ok_iff hcs).mpr ⟨there.childKeys, rfl⟩, _, ⟨left, hl, rfl⟩, _,
      ⟨right, hr, rfl⟩, ?_⟩
    rw [matchingPairs_keys, Batch.beside_paired]

end Connection

end RdfMapping
