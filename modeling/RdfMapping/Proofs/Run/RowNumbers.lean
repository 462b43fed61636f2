import RdfMapping.Proofs.Run.AskedColumns

/-!
Errors number rows within their chunk.

A batch is rendered without regard to where it was cut out, so a cell that has no text is reported with the
number of its row in the batch (`Column.text?_slice`). If a table has one such cell only, every chunk in
front of the one with its row renders (`StatementMap.exists_render_slice`), that chunk fails with the cell's
error (`StatementMap.render_slice_of_gap`), and the first chunk that fails stops the rule (`drain_eq_error`).
So the rule is stopped by the cell, with the number of its row counted from where its chunk starts
(`MappingRule.outcome_of_gap`): this is the number in the table for chunks that reach up to the row, and
for no smaller ones.
-/

namespace RdfMapping

/-! ## Cells -/

def TableError.atRow (row : Nat) : TableError → TableError
  | notCoercible _ fault => notCoercible row fault
  | e => e

/-- What is cut out of a column counts its rows from 0 on. -/
theorem Column.text?_slice (c : Column) {offset length row : Nat} (h : row < length) :
    (c.slice offset length).text? row = (c.text? (offset + row)).mapError (.atRow row) := by
  have cell := c.getElem?_slice offset length row
  rw [if_pos h] at cell
  obtain ⟨type, cells⟩ := c
  simp only [slice] at cell
  simp only [text?, slice, cell]
  cases (cells[offset + row]?).join with
  | none => rfl
  | some value => cases text : type.cellText value <;> simp only [text] <;> rfl

/-- What is reported of a cell without a text: that it is null, or why its value has none, with the name of
its column and a number for its row. -/
def Column.gapError (c : Column) (name : String) (row number : Nat) : MappingError :=
  match c.text? row with
  | .ok _ => .encoding (.null name number)
  | .error e => .encoding (.cell name (e.atRow number))

theorem Column.Fault.cell?_eq_none {c : Column} {name : String} {row : Nat} {e : MappingError}
    (fault : c.Fault name row e) : c.cell? row = none := by
  unfold cell?
  cases fault with
  | null empty => rw [empty]; rfl
  | value unwritable => rw [unwritable]; rfl

theorem Column.gapError_of_fault {c : Column} {name : String} {offset length row : Nat} (h : row < length)
    {e : MappingError} (fault : (c.slice offset length).Fault name row e) :
    e = c.gapError name (offset + row) row := by
  have cut : (c.slice offset length).text? row = _ := c.text?_slice h
  unfold gapError
  cases fault with
  | null empty =>
    rw [empty] at cut
    rw [mapError_eq_ok_iff.mp cut.symm]
  | value unwritable =>
    rw [unwritable] at cut
    obtain ⟨error, found, rfl⟩ := mapError_eq_error_iff.mp cut.symm
    rw [found]

/-! ## Rows -/

namespace StatementMap

/-- Of the cells that the maps that show read of a table, only this one has no text. -/
structure Gap (m : StatementMap) (b : Batch) (name : String) (row : Nat) : Prop where
  read : ∃ x ∈ m.termMaps, name ∈ x.columns
  there : row < b.numRows
  gap : b.cell? name row = none
  only : ∀ x ∈ m.termMaps, ∀ n ∈ x.columns, ∀ i < b.numRows, b.cell? n i = none → n = name ∧ i = row

theorem Fault.exists_term {m : StatementMap} {b : Batch} {e : MappingError} (fault : m.Fault b .plain e) :
    ∃ x ∈ m.termMaps, x.Fault b .plain e := by
  cases fault with
  | subject fault => exact ⟨m.subject, by simp [termMaps, ownMaps], fault⟩
  | predicate _ fault => exact ⟨m.predicate, by simp [termMaps, ownMaps], fault⟩
  | object _ _ fault => exact ⟨m.object, by simp [termMaps], fault⟩
  | graph _ _ _ named fault => exact ⟨_, by simp [termMaps, ownMaps, named], fault⟩

section Gap

variable {m : StatementMap} {b : Batch} {name : String} {row : Nat}
  (notBlank : ∀ x ∈ m.termMaps, x.termType ≠ .blankNode) (gap : m.Gap b name row)

include notBlank gap

theorem isSome_lineAt?_iff_of_gap {i : Nat} (there : i < b.numRows) :
    (m.lineAt? b .plain i).isSome ↔ i ≠ row := by
  rw [isSome_lineAt?_plain_iff]
  refine ⟨?_, ?_⟩
  · rintro all rfl
    obtain ⟨x, hx, hn⟩ := gap.read
    have found := (all x hx).2 name hn
    rw [gap.gap] at found
    cases found
  · intro apart x hx
    refine ⟨notBlank x hx, fun n hn => ?_⟩
    by_contra missing
    exact apart (gap.only x hx n hn i there (Option.not_isSome_iff_eq_none.mp missing)).2

theorem exists_render_slice {offset length : Nat} (some_row : 0 < (b.slice offset length).numRows)
    (before : offset + length ≤ row) : ∃ lines, m.render (b.slice offset length) .plain = .ok lines := by
  rw [exists_eq_ok_iff, toOption_render_of_pos some_row, isSome_mapM_iff]
  intro i hi
  have bound : i < min length (b.numRows - offset) := List.mem_range.mp hi
  rw [lineAt?_slice m b .plain (by omega), isSome_lineAt?_iff_of_gap notBlank gap (by omega)]
  omega

/-- The chunk with the gap fails with its error, and the number of its row in the chunk. -/
theorem render_slice_of_gap {column : Column} (found : b.column? name = some column)
    (columns : ∀ x ∈ m.termMaps, ∀ n ∈ x.columns, (b.column? n).isSome) {offset length i : Nat}
    (inside : i < length) (place : offset + i = row) :
    m.render (b.slice offset length) .plain = .error (column.gapError name row i) := by
  have rows : (b.slice offset length).numRows = min length (b.numRows - offset) := rfl
  have there := gap.there
  cases rendered : m.render (b.slice offset length) .plain with
  | ok lines =>
    have all := toOption_eq_some_iff.mpr rendered
    rw [toOption_render_of_pos (by omega)] at all
    have line := isSome_of_mapM all i (List.mem_range.mpr (by omega))
    rw [lineAt?_slice m b .plain inside, isSome_lineAt?_iff_of_gap notBlank gap (by omega)] at line
    exact absurd place line
  | error e =>
    obtain ⟨x, hx, fault⟩ := (render_eq_error_iff.mp rendered).exists_term
    cases fault with
    | blank isBlank => exact absurd isBlank (notBlank x hx)
    | @missing _ n _ _ segments _ absent =>
      have present := columns x hx n (mem_columns_iff.mpr (by simp [segments]))
      rw [Role.qualify_plain, b.column?_slice, Option.map_eq_none_iff] at absent
      rw [absent] at present
      cases present
    | @cell _ n _ cut j _ _ bound _ segments _ hc fault =>
      rw [Role.qualify_plain] at hc fault
      -- a cell without a text in the chunk is one of the table, and there is only this one
      have gapHere : b.cell? n (offset + j) = none := by
        have cell := b.cell?_slice offset length n j
        rw [if_pos (by omega), Batch.cell?_of_column? hc, fault.cell?_eq_none] at cell
        exact cell.symm
      obtain ⟨rfl, same⟩ := gap.only x hx n (mem_columns_iff.mpr (by simp [segments])) (offset + j)
        (by omega) gapHere
      obtain rfl : j = i := by omega
      rw [b.column?_slice, found, Option.map_some, Option.some.injEq] at hc
      subst hc
      rw [← place]
      exact congrArg Except.error (Column.gapError_of_fault inside fault)

end Gap

end StatementMap

/-! ## Runs -/

theorem drain_eq_error {render : Renderer} {broken : Option MappingError} {batches : List Batch} {q : Nat}
    {b : Batch} {e : MappingError} (found : batches[q]? = some b) (fails : render b = .error e)
    (earlier : ∀ c ∈ batches.take q, ∃ lines, render c = .ok lines) (out : RuleOutput) :
    drain render broken batches out = .error e := by
  induction batches generalizing q out with
  | nil => simp at found
  | cons c rest ih =>
    cases q with
    | zero =>
      obtain rfl : c = b := by simpa using found
      rw [drain, fails]
    | succ q =>
      rw [List.take_succ_cons, List.forall_mem_cons] at earlier
      obtain ⟨⟨lines, first⟩, later⟩ := earlier
      rw [drain, first]
      exact ih (by simpa using found) later _

theorem StatementMap.drain_chunks_of_gap {m : StatementMap} {b : Batch} {name : String} {row : Nat}
    (notBlank : ∀ x ∈ m.termMaps, x.termType ≠ .blankNode) (gap : m.Gap b name row) {column : Column}
    (found : b.column? name = some column)
    (columns : ∀ x ∈ m.termMaps, ∀ n ∈ x.columns, (b.column? n).isSome) {size : Nat} (pos : 0 < size) :
    drain (m.render · .plain) none (b.chunks size) {} = .error (column.gapError name row (row % size)) := by
  have step : Batch.chunkStep size = size := Nat.max_eq_left pos
  have place : row / size * size + row % size = row := Nat.div_add_mod' row size
  have chunk : row / size < Batch.chunkCount b.numRows size := by
    have all : b.numRows ≤ Batch.chunkCount b.numRows size * size := le_chunkCount_mul pos
    exact (Nat.div_lt_iff_lt_mul pos).mpr (Nat.lt_of_lt_of_le gap.there all)
  -- the chunk with the gap is the first that fails: the chunks before end before its row
  apply drain_eq_error
  · show (b.chunks size)[row / size]? = some (b.slice (row / size * size) size)
    simp [Batch.chunks, step, chunk]
  · exact render_slice_of_gap notBlank gap found columns (Nat.mod_lt row pos) place
  · intro c hc
    obtain ⟨k, hk, rfl⟩ : ∃ k < row / size, b.slice (k * size) size = c := by
      simpa [Batch.chunks, step, ← List.map_take, List.take_range, Nat.min_eq_left chunk.le] using hc
    have before : (k + 1) * size ≤ row / size * size := Nat.mul_le_mul_right size hk
    have rows : (b.slice (k * size) size).numRows = min size (b.numRows - k * size) := rfl
    have there := gap.there
    rw [Nat.succ_mul] at before
    exact exists_render_slice notBlank gap (by omega) (by omega)

/-- Of the cells of the named columns, only this one has no text. -/
structure Batch.OnlyGap (b : Batch) (names : TextSet) (name : String) (row : Nat) : Prop where
  named : name ∈ names
  there : row < b.numRows
  gap : b.cell? name row = none
  only : ∀ n ∈ names, ∀ i < b.numRows, b.cell? n i = none → n = name ∧ i = row

namespace MappingRule

variable {r : MappingRule} {o : TermMap}

/-- The columns of a rule without a join are those that its maps read, for the default graph reads none. -/
theorem mem_columns_iff_read (object : r.object = .term o) {name : String} :
    name ∈ r.columns ↔ ∃ x ∈ (r.statement o).termMaps, name ∈ x.columns := by
  refine ⟨?_, ?_⟩
  · intro hn
    simp only [columns, TextSet.mem_ofList, List.mem_append, objectColumns, object] at hn
    rcases hn with ((subject | predicate) | graph) | ofObject
    · exact ⟨r.subject, by simp [StatementMap.termMaps, StatementMap.ownMaps, statement], subject⟩
    · exact ⟨r.predicate, by simp [StatementMap.termMaps, StatementMap.ownMaps, statement], predicate⟩
    · cases hg : r.graph with
      | none => simp [hg] at graph
      | some g =>
        rw [hg] at graph
        -- a map for the default graph is constant, and so reads no column
        have named : g.isDefaultGraph = false := by
          rw [← Bool.not_eq_true]
          intro default
          obtain ⟨iri, -, constant⟩ := g.isDefaultGraph_iff.mp default
          simp [TermMap.columns, constant] at graph
        exact ⟨g, by simp [StatementMap.termMaps, StatementMap.ownMaps, StatementMap.namedGraph, statement,
          hg, named], graph⟩
    · exact ⟨o, by simp [StatementMap.termMaps, statement], ofObject⟩
  · rintro ⟨x, hx, hn⟩
    rcases List.mem_cons.mp hx with rfl | own
    · have read : name ∈ x.columns := hn
      simp [columns, objectColumns, object, read]
    · exact mem_columns_of_ownMaps own hn

section Projection

variable {st : Store} {t p : Batch} (object : r.object = .term o)
  (projected : t.project r.columns.toList = .ok p)

include object projected

theorem column?_of_projected : ∀ x ∈ (r.statement o).termMaps, ∀ n ∈ x.columns,
    p.column? n = t.column? n := by
  intro x hx n hn
  have read : n ∈ r.columns := (mem_columns_iff_read object).mpr ⟨x, hx, hn⟩
  rw [Batch.column?_project projected]
  exact if_pos read

theorem gap_of_projected {name : String} {row : Nat} (gap : t.OnlyGap r.columns name row) :
    (r.statement o).Gap p name row := by
  have rows := Batch.numRows_project projected
  have cells : ∀ x ∈ (r.statement o).termMaps, ∀ n ∈ x.columns, ∀ i, p.cell? n i = t.cell? n i := by
    intro x hx n hn i
    rw [Batch.cell?, Batch.cell?, column?_of_projected object projected x hx n hn]
  obtain ⟨x, hx, hn⟩ := (mem_columns_iff_read object).mp gap.named
  refine ⟨⟨x, hx, hn⟩, ?_, ?_, ?_⟩
  · rw [rows]
    exact gap.there
  · rw [cells x hx name hn]
    exact gap.gap
  · intro y hy n hn i there missing
    rw [rows] at there
    rw [cells y hy n hn] at missing
    exact gap.only n ((mem_columns_iff_read object).mpr ⟨y, hy, hn⟩) i there missing

theorem outcome_of_projected (held : st.held? r.sourceName r.logicalTable = some t) (index : SubjectIndex)
    {s : Settings} (exact : s.coerceFloat = false) :
    (r.run index st.dataSource s).outcome =
      (drain ((r.statement o).render · .plain) none (p.chunks s.chunkSize) {}).mapError .failed := by
  obtain ⟨tables, found, ht⟩ := Option.bind_eq_some_iff.mp held
  have connected : st.connect r.sourceName = .ok ⟨r.sourceName, tables⟩ := by
    rw [Store.connect, found]
  have selected : Connection.select ⟨r.sourceName, tables⟩ (.project ⟨r.logicalTable, r.columns.toList⟩) =
      .ok p :=
    bind_eq_ok_iff.mpr ⟨t, Connection.table_eq_ok_iff.mpr ht, mapError_eq_ok_iff.mpr projected⟩
  have answered : Connection.answer ⟨r.sourceName, tables⟩
      ⟨.project ⟨r.logicalTable, r.columns.toList⟩, s.chunkSize, false⟩ = .ok (p.chunks s.chunkSize) :=
    map_eq_ok_iff.mpr ⟨p, selected, rfl⟩
  have render : r.render = ((r.statement o).render · .plain) := funext (render_term object)
  simp only [run, plan, object, exact, render]
  rw [Store.outcome_run, connected]
  show ((Connection.mk r.sourceName tables).session.run _ _).mapError Stop.failed = _
  simp only [Session.run, Connection.session, answered]
  rfl

end Projection

section Gap

variable {st : Store} {t : Batch} {name : String} {row : Nat} (object : r.object = .term o)
  (notBlank : ∀ m ∈ (r.statement o).termMaps, m.termType ≠ .blankNode)
  (held : st.held? r.sourceName r.logicalTable = some t)
  (columns : ∀ n ∈ r.columns, (t.column? n).isSome) (gap : t.OnlyGap r.columns name row)

include object notBlank held columns gap

theorem outcome_of_gap (index : SubjectIndex) {column : Column} (found : t.column? name = some column)
    {s : Settings} (exact : s.coerceFloat = false) (pos : 0 < s.chunkSize) :
    (r.run index st.dataSource s).outcome =
      .error (.failed (column.gapError name row (row % s.chunkSize))) := by
  obtain ⟨p, projected⟩ := Batch.project_ok_iff.mpr columns
  have kept := column?_of_projected object projected
  have gapHere : (r.statement o).Gap p name row := gap_of_projected object projected gap
  have foundHere : p.column? name = some column := by
    obtain ⟨x, hx, hn⟩ := gapHere.read
    rw [kept x hx name hn]
    exact found
  have columnsHere : ∀ x ∈ (r.statement o).termMaps, ∀ n ∈ x.columns, (p.column? n).isSome := by
    intro x hx n hn
    rw [kept x hx n hn]
    exact columns n ((mem_columns_iff_read object).mpr ⟨x, hx, hn⟩)
  rw [outcome_of_projected object projected held index exact,
    StatementMap.drain_chunks_of_gap notBlank gapHere foundHere columnsHere pos]
  rfl

/-- **A gap is reported with its row in its chunk.** Of the cells that a rule without a join and without
blank nodes reads from a table that has its columns, let one only be null or have a value without a text.
Then the rule is stopped by that cell, whatever the size of the chunks: the error names its column, and its
row by the number that it has in its chunk. For all chunks that reach up to the row this is its number in the
table, so that the error is the same for all of them. -/
theorem gap_reported_in_chunk (index : SubjectIndex) :
    ∃ column, t.column? name = some column ∧
      (∀ s : Settings, s.coerceFloat = false → 0 < s.chunkSize → (r.run index st.dataSource s).outcome =
        .error (.failed (column.gapError name row (row % s.chunkSize)))) ∧
      ∀ s : Settings, s.coerceFloat = false → row < s.chunkSize → (r.run index st.dataSource s).outcome =
        .error (.failed (column.gapError name row row)) := by
  obtain ⟨column, found⟩ := Option.isSome_iff_exists.mp (columns name gap.named)
  have stopped : ∀ s : Settings, s.coerceFloat = false → 0 < s.chunkSize →
      (r.run index st.dataSource s).outcome =
        .error (.failed (column.gapError name row (row % s.chunkSize))) :=
    fun s => outcome_of_gap object notBlank held columns gap index found
  refine ⟨column, found, stopped, ?_⟩
  intro s exact inside
  rw [stopped s exact (by omega), Nat.mod_eq_of_lt inside]

end Gap

def guestStore : Store := ⟨[("db", [("guests", guests)])], 0, 0⟩

def guestRule : MappingRule :=
  ⟨"r1", "guests", "db", .table "guests", "", guestName.subject, guestName.predicate,
    .term guestName.object, none⟩

theorem guestRule_object : guestRule.object = .term guestName.object := rfl

theorem guestRule_held : guestStore.held? guestRule.sourceName guestRule.logicalTable = some guests := rfl

theorem guestRule_notBlank :
    ∀ m ∈ (guestRule.statement guestName.object).termMaps, m.termType ≠ .blankNode := by
  decide

theorem guestRule_columns : ∀ n ∈ guestRule.columns, (guests.column? n).isSome := by
  simp only [columns, TextSet.mem_ofList]
  decide

theorem guests_onlyGap : guests.OnlyGap guestRule.columns "name" 2 where
  named := by
    simp only [columns, TextSet.mem_ofList]
    decide
  there := by decide
  gap := by decide
  only := by
    simp only [columns, TextSet.mem_ofList]
    decide

/-- The last guest has no name; in chunks of two it is the first of the second chunk. -/
theorem last_guest_reported_in_chunk :
    (guestRule.run ⟨[]⟩ guestStore.dataSource { chunkSize := 2 }).outcome =
        .error (.failed (.encoding (.null "name" 0))) ∧
      (guestRule.run ⟨[]⟩ guestStore.dataSource { chunkSize := 7 }).outcome =
        .error (.failed (.encoding (.null "name" 2))) := by
  obtain ⟨column, found, chunks, large⟩ := gap_reported_in_chunk guestRule_object guestRule_notBlank
    guestRule_held guestRule_columns guests_onlyGap ⟨[]⟩
  cases found
  exact ⟨chunks _ rfl (by decide), large _ rfl (by decide)⟩

/-- The number that is reported need not be that of the row in the table, and depends on the size of the
chunks. -/
theorem row_number_depends_on_chunks :
    guestRule.object = .term guestName.object ∧
      (∀ m ∈ (guestRule.statement guestName.object).termMaps, m.termType ≠ .blankNode) ∧
      guestStore.held? guestRule.sourceName guestRule.logicalTable = some guests ∧
      (∀ n ∈ guestRule.columns, (guests.column? n).isSome) ∧ guests.OnlyGap guestRule.columns "name" 2 ∧
      (guestRule.run ⟨[]⟩ guestStore.dataSource { chunkSize := 2 }).outcome ≠
        .error (.failed (.encoding (.null "name" 2))) ∧
      (guestRule.run ⟨[]⟩ guestStore.dataSource { chunkSize := 2 }).outcome ≠
        (guestRule.run ⟨[]⟩ guestStore.dataSource { chunkSize := 3 }).outcome := by
  have stopped : ∀ s : Settings, s.coerceFloat = false → 0 < s.chunkSize →
      (guestRule.run ⟨[]⟩ guestStore.dataSource s).outcome =
        .error (.failed (.encoding (.null "name" (2 % s.chunkSize)))) :=
    fun _ => outcome_of_gap guestRule_object guestRule_notBlank guestRule_held guestRule_columns
      guests_onlyGap ⟨[]⟩ rfl
  refine ⟨guestRule_object, guestRule_notBlank, guestRule_held, guestRule_columns, guests_onlyGap, ?_, ?_⟩
  · rw [stopped _ rfl (by decide)]
    decide
  · rw [stopped _ rfl (by decide), stopped _ rfl (by decide)]
    decide

end MappingRule

end RdfMapping
