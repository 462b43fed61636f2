import RdfMapping.Proofs.Statement.Buffers

/-!
Rendering a batch is rendering its rows, errors included.

The lines of picked rows are the lines picked (`StatementMap.render_pick`), and a batch renders exactly if
its term maps fit it and each row does on its own (`StatementMap.render_ok_iff_rows`). What stops it is the
fault of the first term that has one (`StatementMap.Fault`). The fault of a term is that it makes blank
nodes, else the first column that is missing, else the first cell without a text in the first row that has
one (`TermMap.Fault`). No other error comes of rendering (`TermMap.render_eq_error_iff`,
`StatementMap.render_eq_error_iff`).
-/

namespace RdfMapping

/-! ## Faults -/

/-- Why a cell gives no text to a term: it is null, or its value has no text. -/
inductive Column.Fault (c : Column) (name : String) (row : Nat) : MappingError → Prop
  | null (empty : c.text? row = .ok none) : Fault c name row (.encoding (.null name row))
  | value {error} (unwritable : c.text? row = .error error) :
      Fault c name row (.encoding (.cell name error))

/-- Why a term map gives no terms to a batch. The segments of its value are gone through from left to
right, once for the columns and then again for each row. -/
inductive TermMap.Fault (m : TermMap) (b : Batch) (role : Role) : MappingError → Prop
  | blank (isBlank : m.termType = .blankNode) : Fault m b role (.configuration .blankNode)
  | missing {before name after} (notBlank : m.termType ≠ .blankNode)
      (segments : m.value.segments = before ++ .column name :: after)
      (earlier : ∀ n, .column n ∈ before → (b.column? (role.qualify n)).isSome)
      (absent : b.column? (role.qualify name) = none) :
      Fault m b role (.configuration (.columnNotFound (role.qualify name)))
  | cell {before name after column row error} (fits : m.Fits b role) (there : row < b.numRows)
      (rows : ∀ i < row, ∀ n ∈ m.columns, (b.rowAs role i n).isSome)
      (segments : m.value.segments = before ++ .column name :: after)
      (earlier : ∀ n, .column n ∈ before → (b.rowAs role row n).isSome)
      (found : b.column? (role.qualify name) = some column)
      (fault : column.Fault (role.qualify name) row error) : Fault m b role error

/-- Why a statement map gives no lines to a batch: the first of its terms that has a fault has it. -/
inductive StatementMap.Fault (m : StatementMap) (b : Batch) (roles : TermRoles) : MappingError → Prop
  | subject {error} (fault : m.subject.Fault b roles.subject error) : Fault m b roles error
  | predicate {error} (subject : ∀ e, ¬m.subject.Fault b roles.subject e)
      (fault : m.predicate.Fault b roles.predicate error) : Fault m b roles error
  | object {error} (subject : ∀ e, ¬m.subject.Fault b roles.subject e)
      (predicate : ∀ e, ¬m.predicate.Fault b roles.predicate e)
      (fault : m.object.Fault b roles.object error) : Fault m b roles error
  | graph {g error} (subject : ∀ e, ¬m.subject.Fault b roles.subject e)
      (predicate : ∀ e, ¬m.predicate.Fault b roles.predicate e)
      (object : ∀ e, ¬m.object.Fault b roles.object e) (named : m.namedGraph = some g)
      (fault : g.Fault b roles.graph error) : Fault m b roles error

/-! ## Cells and columns -/

theorem cellText_eq_error_iff {name : String} {c : Column} {row : Nat} {e : MappingError} :
    cellText name c row = .error e ↔ c.Fault name row e := by
  refine ⟨?_, ?_⟩
  · intro h
    unfold cellText at h
    split at h
    · cases h
    · rename_i empty
      cases h
      exact .null empty
    · rename_i error unwritable
      cases h
      exact .value unwritable
  · intro h
    unfold cellText
    cases h with
    | null empty => rw [empty]
    | value unwritable => rw [unwritable]

section Segments

variable {b : Batch} {role : Role}

theorem ofColumn_of_some {name : String} {c : Column}
    (h : b.column? (role.qualify name) = some c) :
    Part.ofColumn b role name = .ok (.cells (role.qualify name) c) := by
  rw [← toOption_eq_some_iff, ofColumn_eq, h]
  rfl

theorem ofColumn_of_none {name : String} (h : b.column? (role.qualify name) = none) :
    Part.ofColumn b role name = .error (.configuration (.columnNotFound (role.qualify name))) := by
  rw [Part.ofColumn, Batch.columnFor_eq, h]
  rfl

theorem ofSegment_ok_iff {segment : Segment} :
    (∃ part, Part.ofSegment b role segment = .ok part) ↔
      ∀ name, segment = .column name → (b.column? (role.qualify name)).isSome := by
  cases segment with
  | text s => exact iff_of_true ⟨_, rfl⟩ (by simp)
  | column name =>
    show (∃ part, Part.ofColumn b role name = .ok part) ↔ _
    cases h : b.column? (role.qualify name) with
    | some c => simp [ofColumn_of_some h, h]
    | none => simp [ofColumn_of_none h, h]

theorem segment_ok_iff {segment : Segment} {encode : String → String} {row : Nat} :
    (∃ text, (Part.ofSegment b role segment >>= Part.render encode row) = .ok text) ↔
      ∀ name, segment = .column name → (b.rowAs role row name).isSome := by
  cases segment with
  | text s => exact iff_of_true ⟨s, rfl⟩ (by simp)
  | column name =>
    simp only [Segment.column.injEq, forall_eq']
    show (∃ text, (Part.ofColumn b role name >>= Part.render encode row) = .ok text) ↔
      (b.cell? (role.qualify name) row).isSome
    cases h : b.column? (role.qualify name) with
    | none =>
      rw [ofColumn_of_none h, Batch.cell?_of_no_column h]
      simp [bind, Except.bind]
    | some c =>
      rw [ofColumn_of_some h, Batch.cell?_of_column? h]
      show (∃ text, (cellText (role.qualify name) c row).map encode = .ok text) ↔ _
      rw [exists_eq_ok_iff, toOption_map, toOption_cellText, Option.isSome_map]

theorem forall_segments_iff {holds : String → Prop} {l : List Segment} :
    (∀ segment ∈ l, ∀ name, segment = .column name → holds name) ↔
      ∀ name, .column name ∈ l → holds name := by
  refine ⟨fun h name hn => h _ hn name rfl, ?_⟩
  intro h segment hs name same
  exact h name (same ▸ hs)

theorem parts_eq_error_iff {v : TermValue} {e : MappingError} :
    v.parts b role = .error e ↔
      ∃ before name after, v.segments = before ++ .column name :: after ∧
        (∀ n, .column n ∈ before → (b.column? (role.qualify n)).isSome) ∧
        b.column? (role.qualify name) = none ∧
        e = .configuration (.columnNotFound (role.qualify name)) := by
  rw [v.parts_eq_mapM, mapM_eq_error_iff]
  simp only [ofSegment_ok_iff, forall_segments_iff]
  refine ⟨?_, ?_⟩
  · intro h
    obtain ⟨before, segment, after, parts, earlier, fails⟩ := h
    cases segment with
    | text s => cases fails
    | column name =>
      refine ⟨before, name, after, parts, earlier, ?_⟩
      cases absent : b.column? (role.qualify name) with
      | some c =>
        have found : Part.ofColumn b role name = .ok (.cells (role.qualify name) c) :=
          ofColumn_of_some absent
        cases found.symm.trans fails
      | none => exact ⟨rfl, Except.error.inj (fails.symm.trans (ofColumn_of_none absent))⟩
  · intro h
    obtain ⟨before, name, after, parts, earlier, absent, rfl⟩ := h
    exact ⟨before, .column name, after, parts, earlier, ofColumn_of_none absent⟩

section Row

variable {v : TermValue} {parts : List Part} (found : v.parts b role = .ok parts)
  {kind : TermKind} {encode : String → String} {row : Nat}

include found

theorem renderValue_eq_mapM : renderValue encode parts row =
    (v.segments.mapM fun segment => Part.ofSegment b role segment >>= Part.render encode row).map
      String.join := by
  rw [v.parts_eq_mapM] at found
  rw [renderValue, mapM_mapM_of_ok found]

theorem renderRow_ok_iff : (∃ term, renderRow kind encode parts row = .ok term) ↔
    ∀ name, .column name ∈ v.segments → (b.rowAs role row name).isSome := by
  rw [exists_eq_ok_iff, renderRow, toOption_map, Option.isSome_map, parts_read found,
    TermValue.isSome_read_iff]

theorem renderRow_eq_error_iff {e : MappingError} : renderRow kind encode parts row = .error e ↔
    ∃ before name after column, v.segments = before ++ .column name :: after ∧
      (∀ n, .column n ∈ before → (b.rowAs role row n).isSome) ∧
      b.column? (role.qualify name) = some column ∧ column.Fault (role.qualify name) row e := by
  rw [renderRow, map_eq_error_iff, renderValue_eq_mapM found, map_eq_error_iff, mapM_eq_error_iff]
  simp only [segment_ok_iff, forall_segments_iff]
  refine ⟨?_, ?_⟩
  · intro h
    obtain ⟨before, segment, after, places, earlier, fails⟩ := h
    cases segment with
    | text s => cases fails
    | column name =>
      have here : .column name ∈ v.segments := by simp [places]
      obtain ⟨column, hc⟩ : ∃ column, b.column? (role.qualify name) = some column :=
        Option.isSome_iff_exists.mp (parts_ok_iff.mp ⟨parts, found⟩ name here)
      refine ⟨before, name, after, column, places, earlier, hc, cellText_eq_error_iff.mp ?_⟩
      change (Part.ofColumn b role name >>= Part.render encode row) = .error e at fails
      rw [ofColumn_of_some hc] at fails
      exact map_eq_error_iff.mp fails
  · intro h
    obtain ⟨before, name, after, column, places, earlier, hc, fault⟩ := h
    refine ⟨before, .column name, after, places, earlier, ?_⟩
    show (Part.ofColumn b role name >>= Part.render encode row) = .error e
    rw [ofColumn_of_some hc]
    exact map_eq_error_iff.mpr (cellText_eq_error_iff.mpr fault)

end Row

end Segments

/-! ## Terms -/

namespace TermMap

theorem kind_eq_error_iff {m : TermMap} {e : MappingError} :
    m.kind = .error e ↔ m.termType = .blankNode ∧ e = .configuration .blankNode := by
  unfold kind
  cases m.termType <;> simp [eq_comm]

/-- Rendering a term fails with its fault. -/
theorem render_eq_error_iff {m : TermMap} {b : Batch} {role : Role} {e : MappingError} :
    m.render b role = .error e ↔ m.Fault b role e := by
  rw [render, bind_eq_error_iff, kind_eq_error_iff]
  simp only [bind_eq_error_iff, parts_eq_error_iff, mapM_range_eq_error_iff]
  refine ⟨?_, ?_⟩
  · intro h
    rcases h with ⟨isBlank, rfl⟩ | ⟨kind, hk, missing | ⟨parts, found, row, there, rows, fails⟩⟩
    · exact .blank isBlank
    · obtain ⟨before, name, after, segments, earlier, absent, rfl⟩ := missing
      exact .missing (kind_ok_iff.mp ⟨kind, hk⟩) segments earlier absent
    · obtain ⟨before, name, after, column, segments, earlier, hc, fault⟩ :=
        (renderRow_eq_error_iff found).mp fails
      refine .cell (fits_iff.mpr ⟨⟨kind, hk⟩, parts, found⟩) there ?_ segments earlier hc fault
      intro i hi n hn
      exact (renderRow_ok_iff found).mp (rows i hi) n (mem_columns_iff.mp hn)
  · intro h
    cases h with
    | blank isBlank => exact .inl ⟨isBlank, rfl⟩
    | missing notBlank segments earlier absent =>
      obtain ⟨kind, hk⟩ := kind_ok_iff.mpr notBlank
      exact .inr ⟨kind, hk, .inl ⟨_, _, _, segments, earlier, absent, rfl⟩⟩
    | @cell before name after column row error fits there rows segments earlier hc fault =>
      obtain ⟨⟨kind, hk⟩, parts, found⟩ := fits_iff.mp fits
      refine .inr ⟨kind, hk, .inr ⟨parts, found, row, there, ?_, ?_⟩⟩
      · intro i hi
        exact (renderRow_ok_iff found).mpr fun n hn => rows i hi n (mem_columns_iff.mpr hn)
      · exact (renderRow_eq_error_iff found).mpr
          ⟨before, name, after, column, segments, earlier, hc, fault⟩

theorem render_ok_iff_faultless {m : TermMap} {b : Batch} {role : Role} :
    (∃ terms, m.render b role = .ok terms) ↔ ∀ e, ¬m.Fault b role e := by
  simp only [exists_eq_ok_iff_ne_error, ne_eq, render_eq_error_iff]

end TermMap

/-! ## Statements -/

namespace StatementMap

variable {m : StatementMap} {b : Batch} {roles : TermRoles}

theorem renderGraph_eq_error_iff {role : Role} {e : MappingError} :
    m.renderGraph b role = .error e ↔ ∃ g, m.namedGraph = some g ∧ g.Fault b role e := by
  unfold renderGraph
  cases m.namedGraph with
  | none => simp
  | some g => simp [TermMap.render_eq_error_iff]

theorem render_eq_error_iff {e : MappingError} : m.render b roles = .error e ↔ m.Fault b roles e := by
  simp only [render, bind_eq_error_iff, TermMap.render_eq_error_iff, renderGraph_eq_error_iff,
    reduceCtorEq, and_false, exists_false, or_false]
  refine ⟨?_, ?_⟩
  · intro h
    rcases h with fault | ⟨subjects, hs, fault | ⟨predicates, hp, fault | ⟨objects, ho, graph⟩⟩⟩
    · exact .subject fault
    · exact .predicate (TermMap.render_ok_iff_faultless.mp ⟨subjects, hs⟩) fault
    · exact .object (TermMap.render_ok_iff_faultless.mp ⟨subjects, hs⟩)
        (TermMap.render_ok_iff_faultless.mp ⟨predicates, hp⟩) fault
    · obtain ⟨g, named, fault⟩ := graph
      exact .graph (TermMap.render_ok_iff_faultless.mp ⟨subjects, hs⟩)
        (TermMap.render_ok_iff_faultless.mp ⟨predicates, hp⟩)
        (TermMap.render_ok_iff_faultless.mp ⟨objects, ho⟩) named fault
  · intro h
    cases h with
    | subject fault => exact .inl fault
    | predicate subject fault =>
      obtain ⟨subjects, hs⟩ := TermMap.render_ok_iff_faultless.mpr subject
      exact .inr ⟨subjects, hs, .inl fault⟩
    | object subject predicate fault =>
      obtain ⟨subjects, hs⟩ := TermMap.render_ok_iff_faultless.mpr subject
      obtain ⟨predicates, hp⟩ := TermMap.render_ok_iff_faultless.mpr predicate
      exact .inr ⟨subjects, hs, .inr ⟨predicates, hp, .inl fault⟩⟩
    | @graph g _ subject predicate object named fault =>
      obtain ⟨subjects, hs⟩ := TermMap.render_ok_iff_faultless.mpr subject
      obtain ⟨predicates, hp⟩ := TermMap.render_ok_iff_faultless.mpr predicate
      obtain ⟨objects, ho⟩ := TermMap.render_ok_iff_faultless.mpr object
      exact .inr ⟨subjects, hs, .inr ⟨predicates, hp, .inr ⟨objects, ho, g, named, fault⟩⟩⟩

/-! ## Picked rows -/

theorem lineAt?_pick {rows : List Nat} {i row : Nat} (h : rows[i]? = some row) :
    m.lineAt? (b.pick rows) roles i = m.lineAt? b roles row := by
  have picked : ∀ role, (b.pick rows).rowAs role i = b.rowAs role row := by
    intro role
    funext name
    rw [Batch.rowAs, Batch.cell?_pick, h]
    rfl
  simp only [lineAt?, picked]

theorem fits_pick_iff {rows : List Nat} : m.Fits (b.pick rows) roles ↔ m.Fits b roles := by
  have same : ∀ (t : TermMap) (role : Role), t.Fits (b.pick rows) role ↔ t.Fits b role := by
    intro t role
    have columns : ∀ name, ((b.pick rows).column? name).isSome = (b.column? name).isSome := by
      intro name
      rw [Batch.column?_pick, Option.isSome_map]
    refine ⟨fun h => ⟨h.notBlank, ?_⟩, fun h => ⟨h.notBlank, ?_⟩⟩
    · simpa only [columns] using h.columns
    · simpa only [columns] using h.columns
  refine ⟨fun h => ?_, fun h => ?_⟩
  · exact ⟨(same ..).mp h.subject, (same ..).mp h.predicate, (same ..).mp h.object,
      fun g named => (same ..).mp (h.graph g named)⟩
  · exact ⟨(same ..).mpr h.subject, (same ..).mpr h.predicate, (same ..).mpr h.object,
      fun g named => (same ..).mpr (h.graph g named)⟩

theorem toOption_render_pick (fits : m.Fits b roles) (rows : List Nat) :
    (m.render (b.pick rows) roles).toOption = rows.mapM (m.lineAt? b roles) := by
  rw [toOption_render (fits_pick_iff.mpr fits), ← mapM_range_getElem? _ rows]
  apply mapM_congr
  intro i hi
  have bound : i < rows.length := List.mem_range.mp hi
  have here : rows[i]? = some rows[i] := List.getElem?_eq_getElem bound
  rw [lineAt?_pick here, here, Option.bind_some]

/-- The lines of picked rows are the lines picked. -/
theorem render_pick {lines : List String} (h : m.render b roles = .ok lines) {rows : List Nat}
    (there : ∀ row ∈ rows, row < b.numRows) :
    ∃ picked, rows.mapM (lines[·]?) = some picked ∧ m.render (b.pick rows) roles = .ok picked := by
  obtain ⟨fits, made⟩ := render_eq_ok_iff.mp h
  have line : ∀ row ∈ rows, lines[row]? = m.lineAt? b roles row := by
    intro row hr
    rw [getElem?_of_mapM made, List.getElem?_range (there row hr), Option.bind_some]
  have all : (rows.mapM (lines[·]?)).isSome := by
    refine isSome_mapM_iff.mpr fun row hr => ?_
    have length : lines.length = b.numRows := by simpa using length_of_mapM made
    rw [List.getElem?_eq_getElem (length ▸ there row hr), Option.isSome_some]
  obtain ⟨picked, taken⟩ := Option.isSome_iff_exists.mp all
  refine ⟨picked, taken, ?_⟩
  rw [← toOption_eq_some_iff, toOption_render_pick fits, ← mapM_congr line, taken]

theorem render_ok_iff_rows :
    (∃ lines, m.render b roles = .ok lines) ↔
      m.Fits b roles ∧ ∀ row < b.numRows, ∃ lines, m.render (b.pick [row]) roles = .ok lines := by
  refine ⟨?_, ?_⟩
  · intro h
    obtain ⟨lines, made⟩ := h
    refine ⟨fits_of_render made, fun row hr => ?_⟩
    have there : ∀ r ∈ [row], r < b.numRows := by simpa using hr
    obtain ⟨line, -, alone⟩ := render_pick made there
    exact ⟨line, alone⟩
  · intro h
    obtain ⟨fits, rows⟩ := h
    rw [exists_eq_ok_iff, toOption_render fits, isSome_mapM_iff]
    intro row hr
    obtain ⟨line, alone⟩ := rows row (List.mem_range.mp hr)
    rw [← toOption_eq_some_iff, toOption_render_pick fits] at alone
    exact isSome_of_mapM alone row List.mem_cons_self

end StatementMap

/-- **Rendering is row-wise.** The lines of a batch are one for each row, and any rows that it has, picked
in any order and any number of times, have the lines of these rows. A batch renders exactly if no map that
shows is for blank nodes, every column that one reads is there, and each row renders on its own. If it does
not render, the error is the fault of the first term that has one. A graph map that names the default graph
plays no part. This is what is written, whatever the rows leave in the buffer they share, if a column of
terms has room for one of each row. -/
theorem render_by_rows (m : StatementMap) (roles : TermRoles) {b : Batch} (wellFormed : b.WellFormed) :
    (∀ lines, m.render b roles = .ok lines → lines.length = b.numRows ∧
      ∀ rows : List Nat, (∀ row ∈ rows, row < b.numRows) → ∃ picked taken,
        b.gather? rows = some picked ∧ rows.mapM (lines[·]?) = some taken ∧
          m.render picked roles = .ok taken) ∧
    ((∃ lines, m.render b roles = .ok lines) ↔
      (∀ t role, (t, role) ∈ [(m.subject, roles.subject), (m.predicate, roles.predicate),
          (m.object, roles.object)] ∨ m.namedGraph = some t ∧ role = roles.graph →
        t.termType ≠ .blankNode ∧ ∀ name ∈ t.columns, (b.column? (role.qualify name)).isSome) ∧
      ∀ row < b.numRows, ∃ single lines, b.gather? [row] = some single ∧
        m.render single roles = .ok lines) ∧
    (∀ e, m.render b roles = .error e ↔ m.Fault b roles e) ∧
    (∀ g, m.graph = some g → g.isDefaultGraph →
      m.render b roles = { m with graph := none }.render b roles) ∧
    (b.numRows ≤ maxRepeats → m.write b roles = some (m.render b roles)) := by
  have gathers : ∀ rows : List Nat, (∀ row ∈ rows, row < b.numRows) →
      b.gather? rows = some (b.pick rows) := by
    intro rows there
    have covered : b.entries.all (·.column.covers rows) := by
      refine List.all_eq_true.mpr fun e he => List.all_eq_true.mpr fun row hr => ?_
      rw [wellFormed e he]
      exact decide_eq_true (there row hr)
    rw [Batch.gather?, if_pos covered]
  refine ⟨?_, ?_, fun e => StatementMap.render_eq_error_iff, ?_, fun room => m.write_eq room roles⟩
  · intro lines h
    refine ⟨by simpa using length_of_mapM (StatementMap.render_eq_ok_iff.mp h).2, ?_⟩
    intro rows there
    obtain ⟨taken, all, made⟩ := StatementMap.render_pick h there
    exact ⟨b.pick rows, taken, gathers rows there, all, made⟩
  · rw [StatementMap.render_ok_iff_rows]
    refine and_congr ?_ (forall₂_congr fun row hr => ?_)
    · refine ⟨?_, ?_⟩
      · intro fits t role shows
        have : t.Fits b role := by
          rcases shows with own | ⟨named, rfl⟩
          · simp only [List.mem_cons, Prod.mk.injEq, List.not_mem_nil, or_false] at own
            rcases own with ⟨rfl, rfl⟩ | ⟨rfl, rfl⟩ | ⟨rfl, rfl⟩
            · exact fits.subject
            · exact fits.predicate
            · exact fits.object
          · exact fits.graph t named
        exact ⟨this.notBlank, this.columns⟩
      · intro h
        have fit : ∀ t role, _ → TermMap.Fits t b role :=
          fun t role shows => ⟨(h t role shows).1, (h t role shows).2⟩
        exact ⟨fit _ _ (.inl (by simp)), fit _ _ (.inl (by simp)), fit _ _ (.inl (by simp)),
          fun g named => fit _ _ (.inr ⟨named, rfl⟩)⟩
    · rw [gathers [row] (by simpa using hr)]
      simp
  · intro g graph isDefault
    have unnamed : m.namedGraph = none := by simp [StatementMap.namedGraph, graph, isDefault]
    have same : ∀ role, m.renderGraph b role = { m with graph := none }.renderGraph b role := by
      intro role
      rw [StatementMap.renderGraph, unnamed]
      rfl
    simp only [StatementMap.render, same]

/-- Guests, the last of them without a name. -/
def guests : Batch :=
  ⟨[⟨⟨"id", .string, false⟩, ⟨.string, #[some "a", some "b", some "c"]⟩⟩,
    ⟨⟨"name", .string, true⟩, ⟨.string, #[some "Ann", some "Bob", none]⟩⟩], 3⟩

def guestName : StatementMap :=
  ⟨.plain (.column "id") .iri, .iri "http://ex/name", .plain (.column "name") .literal, none⟩

/-- The guests do not render for the name of the last; the others do, in any order. -/
theorem render_guests :
    guests.WellFormed ∧ guestName.Fault guests .plain (.encoding (.null "name" 2)) ∧
      ∃ known, guests.gather? [1, 0] = some known ∧ ∃ swapped, known.gather? [1, 1, 0] = some swapped ∧
        guestName.render swapped .plain = .ok ["<a> <http://ex/name> \"Ann\" .",
          "<a> <http://ex/name> \"Ann\" .", "<b> <http://ex/name> \"Bob\" ."] := by
  have wellFormed : guests.WellFormed := by
    unfold Batch.WellFormed
    decide
  have known : (guests.pick [1, 0]).WellFormed := by
    unfold Batch.WellFormed
    decide
  refine ⟨wellFormed, ?_, _, rfl, ?_⟩
  · exact ((render_by_rows guestName .plain wellFormed).2.2.1 _).mp rfl
  · have two := ((render_by_rows guestName .plain known).1 _ rfl).2 [1, 1, 0] (by decide)
    obtain ⟨swapped, taken, picked, lines, made⟩ := two
    cases lines
    exact ⟨swapped, picked, made⟩

end RdfMapping
