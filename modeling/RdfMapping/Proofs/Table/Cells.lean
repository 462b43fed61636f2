import RdfMapping.Proofs.Outcome
import RdfMapping.Table.Batch

/-!
Reading a batch by column name and row.

A name means the last entry that carries it (`Batch.entry?_eq_find?`). Every operation on batches is
described by the columns that names mean afterwards (`column?_pick`, `column?_slice`,
`column?_withLead`, `column?_beside`, `column?_project`, `column?_decimalsToFloat`), and so by the
texts of its cells: `Batch.cell?` is the text under a name in a row, if there is one. The prefixes of
child and parent keep the names of two batches apart, so a name in a role means what it means in the
batch of that role (`column?_child_beside`, `column?_parent_beside`).
-/

namespace RdfMapping

/-! ## Cells of a column -/

namespace Column

/-- The text of a cell; a null, a value without a text and a row past the end have none. -/
def cell? (c : Column) (row : Nat) : Option String := (c.text? row).toOption.join

theorem cell?_eq_bind (c : Column) (row : Nat) :
    c.cell? row = (c.cells[row]?).join.bind fun value => (c.type.cellText value).toOption := by
  simp only [cell?, text?]
  cases (c.cells[row]?).join with
  | none => rfl
  | some value => cases h : c.type.cellText value <;> simp [h]

section Made

variable {c : Column} {row : Nat} {value : c.type.Cell} {made : Option String} {fault : CoercionFault}
  (held : c.cells[row]? = some (some value))
  (text : c.type.cellText value = match made with
    | some s => .ok s
    | none => .error fault)

include held text

theorem text?_eq_ok_iff_of_made {s : Option String} :
    c.text? row = .ok s ↔ ∃ t, s = some t ∧ made = some t := by
  simp only [text?, held, Option.join_some, text]
  cases made with
  | none => simp
  | some t => simp [eq_comm]

theorem exists_text?_iff_of_made : (∃ s, c.text? row = .ok s) ↔ ∃ t, made = some t := by
  simp only [text?_eq_ok_iff_of_made held text]
  refine ⟨?_, ?_⟩
  · rintro ⟨_, t, -, found⟩
    exact ⟨t, found⟩
  · rintro ⟨t, found⟩
    exact ⟨some t, t, rfl, found⟩

theorem cell?_of_made : c.cell? row = made := by
  rw [cell?_eq_bind, held, Option.join_some, Option.bind_some, text]
  cases made <;> rfl

end Made

theorem cell?_slice (c : Column) (offset length row : Nat) :
    (c.slice offset length).cell? row = if row < length then c.cell? (offset + row) else none := by
  rw [cell?_eq_bind, cell?_eq_bind, getElem?_slice]
  split <;> rfl

theorem cell?_pick (c : Column) (rows : List Nat) (row : Nat) :
    (c.pick rows).cell? row = (rows[row]?).bind c.cell? := by
  obtain ⟨type, cells⟩ := c
  rw [cell?_eq_bind]
  change ((rows.map fun r => (cells[r]?).join).toArray[row]?).join.bind _ = _
  rw [List.getElem?_toArray, List.getElem?_map]
  cases rows[row]? with
  | none => rfl
  | some r => exact (cell?_eq_bind ⟨type, cells⟩ r).symm

theorem decimalsToFloat_pick (c : Column) (rows : List Nat) :
    (c.pick rows).decimalsToFloat = c.decimalsToFloat.pick rows := by
  obtain ⟨type, cells⟩ := c
  cases type with
  | decimal scale =>
    have step : ∀ row : Nat, (cells[row]?).join.map (decimalToFloat scale) =
        ((cells.map (Option.map (decimalToFloat scale)))[row]?).join := by
      intro row
      rw [Array.getElem?_map]
      cases cells[row]? <;> rfl
    change Column.mk .float64 _ = Column.mk .float64 _
    congr 1
    rw [List.map_toArray, List.map_map]
    exact congrArg List.toArray (List.map_congr_left fun row _ => step row)
  | _ => rfl

end Column

namespace Batch

/-! ## What a name means -/

theorem lastIndexOf?_lt {name : String} {names : List String} {i : Nat}
    (h : lastIndexOf? name names = some i) : i < names.length := by
  induction names generalizing i with
  | nil => simp [lastIndexOf?] at h
  | cons n rest ih =>
    simp only [lastIndexOf?] at h
    rw [List.length_cons]
    split at h
    · rename_i j hj
      have bound := ih hj
      simp only [Option.some.injEq] at h
      omega
    · split at h
      · simp only [Option.some.injEq] at h
        omega
      · simp at h

theorem indexOf?_lt {b : Batch} {name : String} {i : Nat} (h : b.indexOf? name = some i) :
    i < b.entries.length := by
  have := lastIndexOf?_lt h
  rwa [names, List.length_map] at this

/-- A name means the last entry that carries it. -/
theorem entry?_eq_find? (b : Batch) (name : String) :
    b.entry? name = b.entries.reverse.find? (·.field.name == name) := by
  obtain ⟨entries, numRows⟩ := b
  show (lastIndexOf? name (entries.map (·.field.name))).bind (entries[·]?) = _
  induction entries with
  | nil => rfl
  | cons e rest ih =>
    rw [List.reverse_cons, List.find?_append, ← ih]
    simp only [List.map_cons, lastIndexOf?]
    -- an entry of the rest that carries the name goes before the first one
    cases h : lastIndexOf? name (rest.map (·.field.name)) with
    | some i =>
      have bound : i < rest.length := by simpa using lastIndexOf?_lt h
      simp [bound]
    | none => by_cases k : e.field.name = name <;> simp [k]

theorem entry?_name {b : Batch} {name : String} {e : Entry} (h : b.entry? name = some e) :
    e.field.name = name := by
  rw [entry?_eq_find?] at h
  simpa using List.find?_some h

theorem column?_eq_none_iff {b : Batch} {name : String} : b.column? name = none ↔ name ∉ b.names := by
  simp [column?, entry?_eq_find?, names]

/-- A name means the column of the last field that carries it. -/
theorem column?_eq_some_iff {b : Batch} {name : String} {c : Column} :
    b.column? name = some c ↔ ∃ before field after, b.entries = before ++ ⟨field, c⟩ :: after ∧
      field.name = name ∧ ∀ e ∈ after, e.field.name ≠ name := by
  simp only [column?, entry?_eq_find?, Option.map_eq_some_iff, List.find?_eq_some_iff_append,
    beq_iff_eq, Bool.not_eq_eq_eq_not, Bool.not_true, beq_eq_false_iff_ne]
  refine ⟨?_, ?_⟩
  · rintro ⟨⟨field, c⟩, ⟨named, after, before, parts, later⟩, rfl⟩
    -- the entries are searched from the last one on
    refine ⟨before.reverse, field, after.reverse, ?_, named, fun e he => later e (by simpa using he)⟩
    simpa using congrArg List.reverse parts
  · rintro ⟨before, field, after, parts, named, later⟩
    refine ⟨⟨field, c⟩, ⟨named, after.reverse, before.reverse, by simp [parts], ?_⟩, rfl⟩
    exact fun e he => later e (List.mem_reverse.mp he)

theorem columnFor_eq (b : Batch) (role : Role) (name : String) :
    b.columnFor role name = (b.column? (role.qualify name)).elim
      (.error (.columnNotFound (role.qualify name))) .ok := by
  rw [columnFor, require, column?]
  cases b.entry? (role.qualify name) <;> rfl

/-! ## Columns after an operation -/

/-- When entries are changed one by one, and names tell them apart as before, a name means the
changed column. -/
theorem column?_map {f : Entry → Entry} {g : Column → Column} {name name' : String}
    (names : ∀ e, ((f e).field.name == name') = (e.field.name == name))
    (columns : ∀ e, (f e).column = g e.column) (b : Batch) (rows : Nat) :
    (Batch.mk (b.entries.map f) rows).column? name' = (b.column? name).map g := by
  simp only [column?, entry?_eq_find?, ← List.map_reverse, List.find?_map, Option.map_map]
  have test : ((fun e : Entry => e.field.name == name') ∘ f) = fun e => e.field.name == name := by
    funext e
    exact names e
  rw [test]
  congr 1
  funext e
  exact columns e

theorem column?_pick (b : Batch) (rows : List Nat) (name : String) :
    (b.pick rows).column? name = (b.column? name).map (·.pick rows) := by
  apply column?_map <;> intro e <;> rfl

theorem column?_slice (b : Batch) (offset length : Nat) (name : String) :
    (b.slice offset length).column? name = (b.column? name).map (·.slice offset length) := by
  apply column?_map <;> intro e <;> rfl

theorem column?_decimalsToFloat (b : Batch) (name : String) :
    b.decimalsToFloat.column? name = (b.column? name).map (·.decimalsToFloat) := by
  apply column?_map <;> intro e <;> rfl

theorem column?_withLead (b : Batch) (lead name : String) :
    (b.withLead lead).column? (lead ++ name) = b.column? name := by
  have same : ∀ e : Entry, (lead ++ e.field.name == lead ++ name) = (e.field.name == name) := by
    intro e
    rw [Bool.eq_iff_iff, beq_iff_eq, beq_iff_eq]
    exact String.append_right_inj lead
  have found : (b.withLead lead).column? (lead ++ name) = (b.column? name).map id := by
    apply column?_map
    · exact same
    · intro e
      rfl
  rw [found, Option.map_id, id]

theorem names_withLead (b : Batch) (lead : String) :
    (b.withLead lead).names = b.names.map (lead ++ ·) := by
  simp only [names, withLead, List.map_map]
  rfl

theorem column?_withLead_of_ne {b : Batch} {lead name : String} (h : ∀ n, lead ++ n ≠ name) :
    (b.withLead lead).column? name = none := by
  rw [column?_eq_none_iff, names_withLead, List.mem_map]
  rintro ⟨n, -, same⟩
  exact h n same

theorem beside_eq_ok_iff {left right both : Batch} : left.beside right = .ok both ↔
    left.numRows = right.numRows ∧ (∀ n ∈ left.names, n ∉ right.names) ∧
      both = ⟨left.entries ++ right.entries, left.numRows⟩ := by
  have apart : right.names.find? (left.names.contains ·) = none ↔
      ∀ n ∈ left.names, n ∉ right.names := by
    simp only [List.find?_eq_none, List.contains_iff_mem]
    exact ⟨fun h n own other => h n other own, fun h n other own => h n own other⟩
  rw [beside, ← apart]
  split
  · rename_i differ
    exact iff_of_false nofun fun h => differ h.1
  · rename_i same
    cases right.names.find? (left.names.contains ·) with
    | some name => simp
    | none => simp [not_not.mp same, eq_comm]

/-- Side by side, a name means what it means on the right, and else what it means on the left. -/
theorem column?_beside {left right both : Batch} (h : left.beside right = .ok both) (name : String) :
    both.column? name = (right.column? name).or (left.column? name) := by
  obtain ⟨-, -, rfl⟩ := beside_eq_ok_iff.mp h
  simp only [column?, entry?_eq_find?, List.reverse_append, List.find?_append, Option.map_or]

/-! ## Batches in roles -/

section Roles

variable {left right both : Batch}

theorem qualify_child_ne_parent (a b : String) : Role.child.qualify a ≠ Role.parent.qualify b := by
  intro same
  have heads := congrArg (·.toList.head?) same
  simp only [Role.qualify, Role.lead, String.toList_append] at heads
  have different : ("child_".toList ++ a.toList).head? ≠ ("parent_".toList ++ b.toList).head? := by
    show some 'c' ≠ some 'p'
    decide
  exact different heads

variable (left right) in
theorem names_of_roles_apart : ∀ n ∈ (left.withLead Role.child.lead).names,
    n ∉ (right.withLead Role.parent.lead).names := by
  intro n own other
  rw [names_withLead, List.mem_map] at own other
  obtain ⟨a, -, rfl⟩ := own
  obtain ⟨b, -, same⟩ := other
  exact qualify_child_ne_parent a b same.symm

section Beside

variable (h : (left.withLead Role.child.lead).beside (right.withLead Role.parent.lead) = .ok both)
include h

theorem column?_child_beside (name : String) :
    both.column? (Role.child.qualify name) = left.column? name := by
  rw [column?_beside h, column?_withLead_of_ne fun n => (qualify_child_ne_parent name n).symm,
    Option.none_or]
  exact column?_withLead _ _ _

theorem column?_parent_beside (name : String) :
    both.column? (Role.parent.qualify name) = right.column? name := by
  rw [column?_beside h, column?_withLead_of_ne (b := left) fun n => qualify_child_ne_parent n name,
    Option.or_none]
  exact column?_withLead _ _ _

end Beside

end Roles

/-! ## Projection -/

theorem toOption_require (b : Batch) (name : String) : (b.require name).toOption = b.entry? name := by
  simp only [require]
  cases b.entry? name <;> rfl

theorem project_eq_ok_iff {b p : Batch} {names : List String} :
    b.project names = .ok p ↔
      ∃ entries, names.mapM b.entry? = some entries ∧ p = ⟨entries, b.numRows⟩ := by
  rw [← toOption_eq_some_iff]
  simp only [project, toOption_map, toOption_mapM, toOption_require, Option.map_eq_some_iff]
  exact exists_congr fun entries => and_congr_right fun _ => eq_comm

theorem project_ok_iff {b : Batch} {names : List String} :
    (∃ p, b.project names = .ok p) ↔ ∀ n ∈ names, (b.column? n).isSome := by
  have : (∃ p, b.project names = .ok p) ↔ (names.mapM b.entry?).isSome := by
    simp [project_eq_ok_iff, Option.isSome_iff_exists]
  rw [this, isSome_mapM_iff]
  simp only [column?, Option.isSome_map]

theorem numRows_project {b p : Batch} {names : List String} (h : b.project names = .ok p) :
    p.numRows = b.numRows := by
  obtain ⟨entries, -, rfl⟩ := project_eq_ok_iff.mp h
  rfl

/-- A projection keeps the columns of its names, and no others. -/
theorem column?_project {b p : Batch} {names : List String} (h : b.project names = .ok p)
    (name : String) : p.column? name = if name ∈ names then b.column? name else none := by
  obtain ⟨entries, found, rfl⟩ := project_eq_ok_iff.mp h
  -- a kept entry is what its own name means in the batch, so it does not matter in which place,
  -- nor how often, a name is asked for
  have members : ∀ e ∈ entries, b.entry? e.field.name = some e ∧ e.field.name ∈ names := by
    intro e he
    obtain ⟨n, hn, hb⟩ := (mem_of_mapM found).mp he
    rw [entry?_name hb]
    exact ⟨hb, hn⟩
  simp only [column?]
  cases hp : Batch.entry? ⟨entries, b.numRows⟩ name with
  | some e =>
    have named := entry?_name hp
    rw [entry?_eq_find?] at hp
    obtain ⟨hb, hn⟩ := members e (by simpa using List.mem_of_find?_eq_some hp)
    rw [named] at hb hn
    rw [if_pos hn, hb]
  | none =>
    rw [entry?_eq_find?, List.find?_eq_none] at hp
    split
    · rename_i hn
      obtain ⟨e, hb⟩ : ∃ e, b.entry? name = some e :=
        Option.isSome_iff_exists.mp (isSome_of_mapM found name hn)
      have absent := hp e (by simpa using (mem_of_mapM found).mpr ⟨name, hn, hb⟩)
      exact absurd (beq_iff_eq.mpr (entry?_name hb)) absent
    · rfl

/-! ## Cells of a batch -/

/-- The text under a name in a row: there is none if the name means no column, and none for a null, a
value without a text and a row past the end. -/
def cell? (b : Batch) (name : String) (row : Nat) : Option String :=
  (b.column? name).bind (·.cell? row)

theorem cell?_of_column? {b : Batch} {name : String} {c : Column} (h : b.column? name = some c) :
    b.cell? name = c.cell? := by
  funext row
  rw [cell?, h, Option.bind_some]

theorem cell?_of_no_column {b : Batch} {name : String} (h : b.column? name = none) (row : Nat) :
    b.cell? name row = none := by
  rw [cell?, h, Option.bind_none]

theorem cell?_slice (b : Batch) (offset length : Nat) (name : String) (row : Nat) :
    (b.slice offset length).cell? name row =
      if row < length then b.cell? name (offset + row) else none := by
  have columns := b.column?_slice offset length name
  cases h : b.column? name with
  | none =>
    rw [h] at columns
    simp [cell?_of_no_column h, cell?_of_no_column columns]
  | some c =>
    rw [h] at columns
    rw [cell?_of_column? columns, cell?_of_column? h]
    exact c.cell?_slice offset length row

theorem cell?_pick (b : Batch) (rows : List Nat) (name : String) (row : Nat) :
    (b.pick rows).cell? name row = (rows[row]?).bind (b.cell? name) := by
  have columns := b.column?_pick rows name
  cases h : b.column? name with
  | none =>
    rw [h] at columns
    rw [cell?_of_no_column columns]
    cases rows[row]? with
    | none => rfl
    | some r => exact (cell?_of_no_column h r).symm
  | some c =>
    rw [h] at columns
    rw [cell?_of_column? columns, cell?_of_column? h]
    exact c.cell?_pick rows row

end Batch

/-! ## Rows -/

/-- What a row holds: the text under each column name that has one. -/
abbrev Row := String → Option String

/-- A row of a batch, under the names that columns of a role have there. -/
def Batch.rowAs (b : Batch) (role : Role) (row : Nat) : Row := fun name =>
  b.cell? (role.qualify name) row

def Batch.row (b : Batch) (row : Nat) : Row := fun name => b.cell? name row

theorem Role.qualify_plain (name : String) : plain.qualify name = name := by
  rw [qualify, lead, String.empty_append]

theorem Batch.rowAs_plain (b : Batch) (row : Nat) : b.rowAs .plain row = b.row row := by
  funext name
  rw [Batch.rowAs, Batch.row, Role.qualify_plain]

theorem Batch.rowAs_slice (b : Batch) (role : Role) {offset length row : Nat} (h : row < length) :
    (b.slice offset length).rowAs role row = b.rowAs role (offset + row) := by
  funext name
  rw [Batch.rowAs, Batch.cell?_slice, if_pos h, Batch.rowAs]

theorem Batch.numRows_slice_one {b : Batch} {row : Nat} (h : row < b.numRows) :
    (b.slice row 1).numRows = 1 := by
  show min 1 (b.numRows - row) = 1
  omega

end RdfMapping
