import RdfMapping.Proofs.Run.RuleMeaning

/-!
Rules whose object is made from the row itself.

`run_term_rule` says exactly when such a rule succeeds and what it gives. A table without rows asks for
nothing but its columns; any other has to give a term for every term map in every row. The columns of
the rule are all that is projected, and they are enough: a row of the projection gives the line of the
row of the table.
-/

namespace RdfMapping

namespace MappingRule

/-- Rows that agree on the columns of a rule give the same line. -/
theorem pairLine?_congr {r : MappingRule} {o : TermMap} (object : r.object = .term o) {row row' : Row}
    (h : ∀ name ∈ r.columns, row name = row' name) :
    (r.statement o).pairLine? row row = (r.statement o).pairLine? row' row' := by
  apply StatementMap.pairLine?_congr
  · intro x hx name hn
    exact h name (mem_columns_of_ownMaps hx hn)
  · intro name hn
    have read : name ∈ o.columns := hn
    apply h
    simp [columns, objectColumns, object, read]

theorem lines?_term_eq_some_iff {r : MappingRule} {o : TermMap} (object : r.object = .term o)
    {index : SubjectIndex} {st : Store} {coerce : Bool} {lines : List String} :
    r.lines? index st coerce = some lines ↔
      ∃ t, st.held? r.sourceName r.logicalTable = some t ∧
        (∀ name ∈ r.columns, (t.column? name).isSome) ∧
        (List.range t.numRows).mapM ((r.statement o).lineAt? (t.delivered coerce) .plain) =
          some lines := by
  -- the line of a row reads the columns of the rule, and these are what a projection keeps
  have same : ∀ {t p : Batch}, t.project r.columns.toList = .ok p → ∀ row,
      (r.statement o).lineAt? (p.delivered coerce) .plain row =
        (r.statement o).lineAt? (t.delivered coerce) .plain row := by
    intro t p hp row
    rw [StatementMap.lineAt?_plain, StatementMap.lineAt?_plain]
    exact pairLine?_congr object fun name hn => Batch.cell?_delivered_project hp hn row
  simp only [lines?, object, Store.lines?_eq_some_iff, Connection.select, bind_eq_ok_iff,
    Connection.table_eq_ok_iff, Connection.project, mapError_eq_ok_iff, Store.held?,
    Option.bind_eq_some_iff]
  refine ⟨?_, ?_⟩
  · intro h
    obtain ⟨tables, hs, p, ⟨t, ht, hp⟩, hl⟩ := h
    refine ⟨t, ⟨tables, hs, ht⟩, Batch.project_ok_iff.mp ⟨p, hp⟩, ?_⟩
    rwa [Batch.numRows_project hp, mapM_congr fun row _ => same hp row] at hl
  · intro h
    obtain ⟨t, ⟨tables, hs, ht⟩, columns, hl⟩ := h
    obtain ⟨p, hp⟩ := Batch.project_ok_iff.mpr columns
    refine ⟨tables, hs, p, ⟨t, ht, hp⟩, ?_⟩
    rwa [Batch.numRows_project hp, mapM_congr fun row _ => same hp row]

theorem size_ofList_replicate (n : Nat) (text : String) :
    (TextSet.ofList (List.replicate n text)).size = min 1 n := by
  cases n with
  | zero =>
    rw [List.replicate_zero, TextSet.ofList_nil]
    rfl
  | succ n =>
    have one : TextSet.ofList (List.replicate (n + 1) text) = (∅ : TextSet).insert text :=
      TextSet.ext_mem (by simp)
    rw [one, Nat.min_eq_left (Nat.le_add_left 1 n)]
    rfl

theorem size_lines_of_no_columns {r : MappingRule} {o : TermMap} (object : r.object = .term o)
    (none : r.columns = ∅) {b : Batch} {lines : List String}
    (h : (List.range b.numRows).mapM ((r.statement o).lineAt? b .plain) = some lines) :
    (TextSet.ofList lines).size = min 1 b.numRows := by
  -- where no column is read, any two rows agree
  have constant : ∀ row, (r.statement o).lineAt? b .plain row = (r.statement o).lineAt? b .plain 0 := by
    intro row
    rw [StatementMap.lineAt?_plain, StatementMap.lineAt?_plain]
    apply pairLine?_congr object
    intro name hn
    rw [none] at hn
    exact absurd hn TextSet.not_mem_empty
  have copies : ∃ text, lines = List.replicate b.numRows text := by
    have members : ∀ line ∈ lines, (r.statement o).lineAt? b .plain 0 = some line := by
      intro line hline
      obtain ⟨row, -, hrow⟩ := (mem_of_mapM h).mp hline
      rw [← constant row, hrow]
    have count : lines.length = b.numRows := by simpa using length_of_mapM h
    cases lines with
    | nil => exact ⟨"", by simp [← count]⟩
    | cons text rest =>
      refine ⟨text, List.eq_replicate_iff.mpr ⟨count, fun line hline => ?_⟩⟩
      exact Option.some.inj ((members line hline).symm.trans (members text (List.mem_cons_self ..)))
  obtain ⟨text, rfl⟩ := copies
  exact size_ofList_replicate b.numRows text

/-- **Rules without a join.** Such a rule succeeds exactly if its source is there and holds its table,
the table has every column of the rule, and, unless it has no rows, no term map is for a blank node
and every cell that one reads has a text as it is delivered. The lines are then those of the rows, each
rendered on its own; a rule that reads no column gives one line as soon as there is a row. -/
theorem run_term_rule {r : MappingRule} {o : TermMap} (object : r.object = .term o)
    (index : SubjectIndex) (st : Store) {s : Settings} (chunks : 0 < s.chunkSize) :
    ((∃ out, (r.run index st.dataSource s).outcome = .ok out) ↔
      ∃ t, st.held? r.sourceName r.logicalTable = some t ∧
        (∀ name ∈ r.columns, (t.column? name).isSome) ∧
        (t.numRows = 0 ∨ ∀ m ∈ (r.statement o).termMaps, m.termType ≠ .blankNode ∧
          ∀ row < t.numRows, ∀ name ∈ m.columns,
            ((t.delivered s.coerceFloat).cell? name row).isSome)) ∧
    ∀ out, (r.run index st.dataSource s).outcome = .ok out →
      ∃ t, st.held? r.sourceName r.logicalTable = some t ∧
        (∃ line : Nat → String,
          (∀ row < t.numRows,
            r.render ((t.delivered s.coerceFloat).slice row 1) = .ok [line row]) ∧
          ∀ text, text ∈ out.lines ↔ ∃ row < t.numRows, text = line row) ∧
        out.rows = t.numRows ∧ out.batches = t.numRows ⌈/⌉ s.chunkSize ∧
        (r.columns = ∅ → out.lines.size = min 1 t.numRows) := by
  simp only [run_eq_ok_iff chunks, lines?_term_eq_some_iff object]
  refine ⟨?_, ?_⟩
  · have terms : ∀ t : Batch, _ := fun t =>
      StatementMap.lines_of_plain_iff (m := r.statement o) (b := t.delivered s.coerceFloat)
    simp only [Batch.numRows_delivered] at terms
    refine ⟨?_, ?_⟩
    · intro h
      obtain ⟨-, lines, ⟨t, ht, columns, hl⟩, rfl⟩ := h
      exact ⟨t, ht, columns, (terms t).mp ⟨lines, hl⟩⟩
    · intro h
      obtain ⟨t, ht, columns, made⟩ := h
      obtain ⟨lines, hl⟩ := (terms t).mpr made
      exact ⟨_, lines, ⟨t, ht, columns, hl⟩, rfl⟩
  · intro out h
    obtain ⟨lines, ⟨t, ht, -, hl⟩, rfl⟩ := h
    refine ⟨t, ht, ?_⟩
    rw [← Batch.numRows_delivered s.coerceFloat t] at hl ⊢
    have count : lines.length = (t.delivered s.coerceFloat).numRows := by
      simpa using length_of_mapM hl
    obtain ⟨line, made, rfl⟩ := exists_of_mapM hl
    refine ⟨⟨line, fun row hrow => ?_, fun text => ?_⟩, count, ?_, ?_⟩
    · rw [render_term object]
      exact (StatementMap.render_row_iff hrow).mpr (made row (List.mem_range.mpr hrow))
    · simp [RuleOutput.ofLines, eq_comm]
    · simp only [RuleOutput.ofLines, count]
    · intro none
      exact size_lines_of_no_columns object none hl

def idTemplate : Template :=
  ⟨"http://ex/\x7bid\x7d", [.text "http://ex/", .column "id"]⟩

def staff : Batch :=
  ⟨[⟨⟨"id", .int64, false⟩, ⟨.int64, #[some 1, some 2]⟩⟩,
    ⟨⟨"name", .string, false⟩, ⟨.string, #[some "Ada", some "Ada"]⟩⟩], 2⟩

def staffRule : MappingRule :=
  ⟨"r1", "tm1", "db", .table "staff", "p1", .plain (.template idTemplate) .iri,
    .iri "http://ex/name", .term (.plain (.column "name") .literal), none⟩

theorem run_staffRule : ∃ out,
    (staffRule.run ⟨[]⟩ (Store.mk [("db", [("staff", staff)])] 0 0).dataSource
      { chunkSize := 1 }).outcome = .ok out ∧ out.rows = 2 ∧ out.batches = 2 := by
  have columns : ∀ name ∈ staffRule.columns, (staff.column? name).isSome := by
    simp only [columns, TextSet.mem_ofList]
    decide
  obtain ⟨succeeds, gives⟩ := run_term_rule (r := staffRule) rfl ⟨[]⟩
    (Store.mk [("db", [("staff", staff)])] 0 0) (s := { chunkSize := 1 }) (by decide)
  obtain ⟨out, h⟩ := succeeds.mpr ⟨staff, rfl, columns, .inr (by decide)⟩
  obtain ⟨t, held, -, rows, batches, -⟩ := gives out h
  cases held
  exact ⟨out, h, rows, batches⟩

end MappingRule

end RdfMapping
