import RdfMapping.Proofs.Table.Layout

/-!
Columns are found by name after every operation.

A name means the last field that carries it, and an index of the names tells where that field is. Each
operation that changes fields notes the names anew, so that the index stays that of the fields
(`Layout.Noted`). A well-formed layout with such an index is the layout of a batch
(`exists_layout_iff`), and what its index finds is what the name means in that batch
(`lookup?_layout`). It remains to say what names mean in projected, renamed and joined batches:
`names_keep_columns`.
-/

namespace RdfMapping

namespace Layout

/-- The index is that of the names of the fields. -/
def Noted (t : Layout) : Prop := t.positions = NameIndex.note 0 t.fields ∅

/-- The column that is found under a name, if there is one; the index may not point past the columns. -/
def lookup? (t : Layout) (name : String) : Option (Option Column) :=
  match t.positions[name]? with
  | none => some none
  | some i => (t.columns[i]?).map some

def batch (t : Layout) : Batch := ⟨(t.fields.zip t.columns).map fun (f, c) => ⟨f, c⟩, t.numRows⟩

section Parts

variable {t : Layout}

theorem fields_batch (h : t.WellFormed) : t.batch.fields = t.fields := by
  rw [Batch.fields, batch, List.map_map]
  exact List.map_fst_zip (Nat.le_of_eq h.count.symm)

theorem columns_batch (h : t.WellFormed) : t.batch.columns = t.columns := by
  rw [Batch.columns, batch, List.map_map]
  exact List.map_snd_zip (Nat.le_of_eq h.count)

theorem batch_wellFormed (h : t.WellFormed) : t.batch.WellFormed := by
  intro e he
  have column : e.column ∈ t.columns := columns_batch h ▸ List.mem_map_of_mem he
  exact h.rows e.column column

theorem layout_batch (h : t.WellFormed) (noted : t.Noted) : t.batch.layout = t := by
  rw [Batch.layout, fields_batch h, columns_batch h, ofParts, ← noted]
  rfl

end Parts

end Layout

namespace Batch

/-- The layouts of well-formed batches are the well-formed ones whose index is that of their fields. -/
theorem exists_layout_iff {t : Layout} :
    (∃ b : Batch, b.WellFormed ∧ b.layout = t) ↔ t.WellFormed ∧ t.Noted := by
  refine ⟨?_, ?_⟩
  · rintro ⟨b, h, rfl⟩
    exact ⟨layout_wellFormed h, rfl⟩
  · intro h
    obtain ⟨formed, noted⟩ := h
    exact ⟨t.batch, Layout.batch_wellFormed formed, Layout.layout_batch formed noted⟩

theorem lookup?_layout (b : Batch) (name : String) : b.layout.lookup? name = some (b.column? name) := by
  rw [Layout.lookup?, getElem?_positions, column?, entry?]
  cases h : b.indexOf? name with
  | none => rfl
  | some i =>
    have bound := indexOf?_lt h
    simp [layout, Layout.ofParts, columns, bound]

section Names

variable {left right both : Batch}

theorem column?_withLead_of_startsWith_eq_false {lead name : String}
    (apart : name.startsWith lead = false) : (left.withLead lead).column? name = none := by
  refine column?_withLead_of_ne ?_
  rintro n rfl
  rw [String.startsWith_string_eq_false_iff, String.toList_append] at apart
  exact apart (List.prefix_append _ _)

/-- As the two sides share no name, it does not matter which of them is asked first. -/
theorem column?_beside_left (h : left.beside right = .ok both) (name : String) :
    both.column? name = (left.column? name).or (right.column? name) := by
  rw [column?_beside h]
  by_cases own : name ∈ left.names
  · have other := (beside_eq_ok_iff.mp h).2.1 name own
    rw [column?_eq_none_iff.mpr other, Option.none_or, Option.or_none]
  · rw [column?_eq_none_iff.mpr own, Option.or_none, Option.none_or]

theorem exists_beside_iff : (∃ both, left.beside right = .ok both) ↔
    left.numRows = right.numRows ∧ ∀ n ∈ left.names, n ∉ right.names := by
  simp only [beside_eq_ok_iff, exists_and_left, exists_eq, and_true]

theorem exists_beside_roles_iff :
    (∃ both, (left.withLead Role.child.lead).beside (right.withLead Role.parent.lead) = .ok both) ↔
      left.numRows = right.numRows := by
  rw [exists_beside_iff]
  exact and_iff_left (names_of_roles_apart left right)

theorem columnFor_project {table p : Batch} {role : Role} {own : List String}
    (projected : table.project own = .ok p)
    (kept : ∀ n, both.column? (role.qualify n) = p.column? n) (n : String) :
    both.columnFor role n = if n ∈ own then table.columnFor .plain n
      else .error (.columnNotFound (role.qualify n)) := by
  rw [columnFor_eq, columnFor_eq, kept, column?_project projected, Role.qualify_plain]
  split
  · -- what is asked for is in the table, so that it is read there without fail
    rename_i asked
    obtain ⟨c, found⟩ := Option.isSome_iff_exists.mp (project_ok_iff.mp ⟨p, projected⟩ n asked)
    rw [found]
    rfl
  · rfl

end Names

end Batch

/-- **Names keep their columns.** Batches lie in memory as the well-formed layouts whose index is that
of their fields; what the index finds under a name is what the name means, which is the column of the
last field that carries it; and the operations on layouts are those on batches. A projection succeeds if
all its names mean columns; it keeps those, and no others. Behind a prefix a name means what it meant
without, and without the prefix it means nothing. Side by side stand batches of equally many rows that
share no name, and a name means what it means on the left, or else on the right. So when projections of
two tables of equally many rows stand side by side as child and parent, a name in either role means what
it means in the table of that role if it was asked of that table, and nothing if it was not. -/
theorem names_keep_columns (left right : Batch) :
    ((∀ t : Layout, (∃ b : Batch, b.WellFormed ∧ b.layout = t) ↔ t.WellFormed ∧ t.Noted) ∧
      (∀ (b : Batch) (n : String), b.layout.lookup? n = some (b.column? n)) ∧
      (∀ asked, left.layout.project? asked = some ((left.project asked).map Batch.layout)) ∧
      (∀ lead, left.layout.withLead lead = (left.withLead lead).layout) ∧
      left.layout.beside right.layout = (left.beside right).map Batch.layout) ∧
    (∀ n c, left.column? n = some c ↔ ∃ before field after,
      left.entries = before ++ ⟨field, c⟩ :: after ∧ field.name = n ∧
        ∀ e ∈ after, e.field.name ≠ n) ∧
    (∀ asked, ((∃ p, left.project asked = .ok p) ↔ ∀ n ∈ asked, (left.column? n).isSome) ∧
      ∀ p, left.project asked = .ok p → ∀ n,
        p.column? n = if n ∈ asked then left.column? n else none) ∧
    (∀ lead, (∀ n, (left.withLead lead).column? (lead ++ n) = left.column? n) ∧
      ∀ n, n.startsWith lead = false → (left.withLead lead).column? n = none) ∧
    (((∃ both, left.beside right = .ok both) ↔
        left.numRows = right.numRows ∧ ∀ n ∈ left.names, n ∉ right.names) ∧
      ∀ both, left.beside right = .ok both → ∀ n,
        both.column? n = (left.column? n).or (right.column? n)) ∧
    ∀ own other l r, left.project own = .ok l → right.project other = .ok r →
      ((∃ both, (l.withLead "child_").beside (r.withLead "parent_") = .ok both) ↔
        left.numRows = right.numRows) ∧
      ∀ both, (l.withLead "child_").beside (r.withLead "parent_") = .ok both → ∀ n,
        both.columnFor .child n = (if n ∈ own then left.columnFor .plain n
          else .error (.columnNotFound ("child_" ++ n))) ∧
        both.columnFor .parent n = (if n ∈ other then right.columnFor .plain n
          else .error (.columnNotFound ("parent_" ++ n))) := by
  refine ⟨⟨fun t => Batch.exists_layout_iff, Batch.lookup?_layout, left.project?_layout,
    left.withLead_layout, left.beside_layout right⟩, fun n c => Batch.column?_eq_some_iff, ?_, ?_, ?_, ?_⟩
  · intro asked
    exact ⟨Batch.project_ok_iff, fun p projected => Batch.column?_project projected⟩
  · intro lead
    exact ⟨left.column?_withLead lead, fun n => Batch.column?_withLead_of_startsWith_eq_false⟩
  · exact ⟨Batch.exists_beside_iff, fun both => Batch.column?_beside_left⟩
  · intro own other l r hl hr
    refine ⟨?_, ?_⟩
    · rw [← Batch.numRows_project hl, ← Batch.numRows_project hr]
      exact Batch.exists_beside_roles_iff
    · intro both together n
      exact ⟨Batch.columnFor_project hl (Batch.column?_child_beside together) n,
        Batch.columnFor_project hr (Batch.column?_parent_beside together) n⟩

/-- A table that carries a name twice, and a name that begins like those of a parent. -/
def readings : Batch :=
  ⟨[⟨⟨"id", .string, true⟩, ⟨.string, #[some "old"]⟩⟩,
    ⟨⟨"parent_id", .string, true⟩, ⟨.string, #[some "p"]⟩⟩,
    ⟨⟨"id", .string, true⟩, ⟨.string, #[some "new"]⟩⟩], 1⟩

def sensors : Batch :=
  ⟨[⟨⟨"id", .string, true⟩, ⟨.string, #[some "s"]⟩⟩,
    ⟨⟨"child_id", .string, true⟩, ⟨.string, #[some "c"]⟩⟩], 1⟩

/-- They share a name and do not stand side by side as they are. As child and parent they do, and each
name is read on its own side. -/
theorem names_keep_columns_readings :
    readings.layout.lookup? "id" = some (some ⟨.string, #[some "new"]⟩) ∧
    (readings.withLead "child_").column? "parent_id" = none ∧
    (¬∃ both, readings.beside sensors = .ok both) ∧
    ∃ l r both, readings.project ["parent_id", "id"] = .ok l ∧ sensors.project ["child_id"] = .ok r ∧
      (l.withLead "child_").beside (r.withLead "parent_") = .ok both ∧
      both.column? "child_id" = some ⟨.string, #[some "new"]⟩ ∧
      both.columnFor .child "id" = .ok ⟨.string, #[some "new"]⟩ ∧
      both.columnFor .child "parent_id" = .ok ⟨.string, #[some "p"]⟩ ∧
      both.columnFor .parent "child_id" = .ok ⟨.string, #[some "c"]⟩ ∧
      both.columnFor .parent "id" = .error (.columnNotFound "parent_id") := by
  obtain ⟨⟨-, index, -, -, -⟩, -, kept, leads, ⟨asTheyAre, -⟩, roles⟩ :=
    names_keep_columns readings sensors
  obtain ⟨l, hl⟩ : ∃ l, readings.project ["parent_id", "id"] = .ok l := ⟨_, rfl⟩
  obtain ⟨r, hr⟩ : ∃ r, sensors.project ["child_id"] = .ok r := ⟨_, rfl⟩
  obtain ⟨rows, sides⟩ := roles _ _ l r hl hr
  obtain ⟨both, together⟩ := rows.mpr rfl
  obtain ⟨-, -, -, -, ⟨-, either⟩, -⟩ := names_keep_columns (l.withLead "child_") (r.withLead "parent_")
  obtain ⟨-, -, -, leadsOfProjection, -, -⟩ := names_keep_columns l r
  have own : (l.withLead "child_").column? "child_id" = some ⟨.string, #[some "new"]⟩ :=
    calc (l.withLead "child_").column? ("child_" ++ "id") = l.column? "id" :=
          (leadsOfProjection "child_").1 "id"
      _ = readings.column? "id" := (kept ["parent_id", "id"]).2 l hl "id"
      _ = some ⟨.string, #[some "new"]⟩ := rfl
  have apart : "parent_id".startsWith "child_" = false := by
    rw [String.startsWith_string_eq_false_iff]
    decide
  refine ⟨index readings "id", (leads "child_").2 "parent_id" apart, ?_, l, r, both, hl, hr, together, ?_,
    (sides both together "id").1, (sides both together "parent_id").1,
    (sides both together "child_id").2, (sides both together "id").2⟩
  · rw [asTheyAre]
    rintro ⟨-, shareNone⟩
    exact shareNone "id" (by decide) (by decide)
  · rw [either both together, own, Option.some_or]

end RdfMapping
