import RdfMapping.Proofs.Table.Cells
import RdfMapping.Statement.Line

/-!
What a statement map makes of one row.

A row is known by the texts under its column names (`Row`). `TermMap.term?` and `StatementMap.line?`
say what a row gives, without a batch and without an order of evaluation; a blank node map and a
missing text give nothing. Rendering a batch is rendering its rows one by one: `render_eq_ok_iff`
says that it succeeds exactly when the maps fit the batch (`StatementMap.Fits`) and every row gives
a line, and that its lines are those of the rows.
-/

namespace RdfMapping

/-! ## Values -/

/-- What a segment contributes to the value of a row. -/
def Segment.read (encode : String → String) (row : Row) : Segment → Option String
  | .text s => some s
  | .column name => (row name).map encode

namespace TermValue

/-- The segments of a value: a column stands alone, and a constant is one stretch of text. -/
def segments : TermValue → List Segment
  | .template t => t.segments
  | .column name => [.column name]
  | .constant text => [.text text]

def read (v : TermValue) (encode : String → String) (row : Row) : Option String :=
  (v.segments.mapM (Segment.read encode row)).map String.join

theorem parts_eq_mapM (v : TermValue) (b : Batch) (role : Role) :
    v.parts b role = v.segments.mapM (Part.ofSegment b role) := by
  cases v with
  | template t => rfl
  | column name =>
    simp only [parts, segments, List.mapM_cons, Part.ofSegment]
    cases Part.ofColumn b role name <;> rfl
  | constant text => rfl

theorem isSome_read_iff {v : TermValue} {encode : String → String} {row : Row} :
    (v.read encode row).isSome ↔ ∀ name, .column name ∈ v.segments → (row name).isSome := by
  rw [read, Option.isSome_map, isSome_mapM_iff]
  refine ⟨?_, ?_⟩
  · intro h name hn
    simpa [Segment.read] using h _ hn
  · intro h segment hs
    cases segment with
    | text s => rfl
    | column name => simpa [Segment.read] using h name hs

theorem read_congr {v : TermValue} {encode : String → String} {row row' : Row}
    (h : ∀ name, .column name ∈ v.segments → row name = row' name) :
    v.read encode row = v.read encode row' := by
  rw [read, read, mapM_congr]
  intro segment hs
  cases segment with
  | text s => rfl
  | column name => rw [Segment.read, Segment.read, h name hs]

end TermValue

theorem mem_columns_iff {m : TermMap} {name : String} :
    name ∈ m.columns ↔ .column name ∈ m.value.segments := by
  obtain ⟨value, termType, language, datatype⟩ := m
  cases value with
  | template t =>
    simp only [TermMap.columns, Template.columns, TermValue.segments, List.mem_eraseDups,
      List.mem_filterMap]
    refine ⟨?_, ?_⟩
    · intro h
      obtain ⟨segment, hs, h⟩ := h
      cases segment with
      | text s => simp at h
      | column n =>
        simp only [Option.some.injEq] at h
        rwa [h] at hs
    · intro hs
      exact ⟨_, hs, rfl⟩
  | column n => simp [TermMap.columns, TermValue.segments]
  | constant text => simp [TermMap.columns, TermValue.segments]

/-! ## Terms -/

namespace TermMap

def term? (m : TermMap) (row : Row) : Option String :=
  m.kind.toOption.bind fun kind => (m.value.read (kind.cellEncoding m.value) row).map kind.wrap

theorem kind_ok_iff {m : TermMap} : (∃ kind, m.kind = .ok kind) ↔ m.termType ≠ .blankNode := by
  simp only [kind]
  cases m.termType <;> simp

theorem isSome_term?_iff {m : TermMap} {row : Row} :
    (m.term? row).isSome ↔ m.termType ≠ .blankNode ∧ ∀ name ∈ m.columns, (row name).isSome := by
  simp only [mem_columns_iff, term?, ← kind_ok_iff]
  cases m.kind with
  | error e => simp
  | ok kind => simp [TermValue.isSome_read_iff]

theorem term?_congr {m : TermMap} {row row' : Row} (h : ∀ name ∈ m.columns, row name = row' name) :
    m.term? row = m.term? row' := by
  simp only [mem_columns_iff] at h
  have same : ∀ encode, m.value.read encode row = m.value.read encode row' := fun encode =>
    TermValue.read_congr h
  simp only [term?, same]

/-- The map makes terms, and its columns are there. -/
structure Fits (m : TermMap) (b : Batch) (role : Role) : Prop where
  notBlank : m.termType ≠ .blankNode
  columns : ∀ name ∈ m.columns, (b.column? (role.qualify name)).isSome

end TermMap

/-! ## Terms of a batch -/

section Parts

variable {b : Batch} {role : Role}

theorem ofColumn_eq (name : String) :
    (Part.ofColumn b role name).toOption =
      (b.column? (role.qualify name)).map (.cells (role.qualify name)) := by
  rw [Part.ofColumn, Batch.columnFor_eq]
  cases b.column? (role.qualify name) <;> rfl

theorem toOption_cellText (name : String) (column : Column) (row : Nat) :
    (cellText name column row).toOption = column.cell? row := by
  simp only [cellText, Column.cell?]
  cases column.text? row with
  | error e => rfl
  | ok text => cases text <;> rfl

theorem part_read {segment : Segment} {part : Part}
    (h : Part.ofSegment b role segment = .ok part) (encode : String → String) (row : Nat) :
    (part.render encode row).toOption = segment.read encode (b.rowAs role row) := by
  cases segment with
  | text s =>
    cases h
    rfl
  | column name =>
    have found := toOption_eq_some_iff.mpr h
    rw [Part.ofSegment, ofColumn_eq] at found
    obtain ⟨column, hc, rfl⟩ := Option.map_eq_some_iff.mp found
    rw [Part.render, toOption_map, toOption_cellText, Segment.read, Batch.rowAs,
      Batch.cell?_of_column? hc]

theorem parts_ok_iff {v : TermValue} :
    (∃ parts, v.parts b role = .ok parts) ↔
      ∀ name, .column name ∈ v.segments → (b.column? (role.qualify name)).isSome := by
  simp only [← toOption_eq_some_iff, v.parts_eq_mapM, toOption_mapM]
  rw [← Option.isSome_iff_exists, isSome_mapM_iff]
  refine ⟨?_, ?_⟩
  · intro h name hn
    simpa [Part.ofSegment, ofColumn_eq] using h _ hn
  · intro h segment hs
    cases segment with
    | text s => rfl
    | column name => simpa [Part.ofSegment, ofColumn_eq] using h name hs

theorem parts_read {v : TermValue} {parts : List Part} (h : v.parts b role = .ok parts)
    (encode : String → String) (row : Nat) :
    (renderValue encode parts row).toOption = v.read encode (b.rowAs role row) := by
  have found : (v.segments.mapM fun segment => (Part.ofSegment b role segment).toOption) =
      some parts := by
    rw [← toOption_mapM, ← v.parts_eq_mapM, h, toOption_ok]
  have pieces : ∀ segment ∈ v.segments,
      ((Part.ofSegment b role segment).toOption.bind fun part =>
        (part.render encode row).toOption) = segment.read encode (b.rowAs role row) := by
    intro segment hs
    obtain ⟨part, hp⟩ := Option.isSome_iff_exists.mp (isSome_of_mapM found segment hs)
    rw [hp, Option.bind_some]
    exact part_read (toOption_eq_some_iff.mp hp) encode row
  rw [renderValue, toOption_map, toOption_mapM, TermValue.read, mapM_of_mapM found,
    mapM_congr pieces]

end Parts

namespace TermMap

theorem fits_iff {m : TermMap} {b : Batch} {role : Role} :
    m.Fits b role ↔ (∃ kind, m.kind = .ok kind) ∧ ∃ parts, m.value.parts b role = .ok parts := by
  rw [kind_ok_iff, parts_ok_iff]
  simp only [← mem_columns_iff]
  exact ⟨fun h => ⟨h.notBlank, h.columns⟩, fun h => ⟨h.1, h.2⟩⟩

/-- A map that fits a batch renders it row by row. -/
theorem toOption_render {m : TermMap} {b : Batch} {role : Role} (h : m.Fits b role) :
    (m.render b role).toOption =
      (List.range b.numRows).mapM fun row => m.term? (b.rowAs role row) := by
  obtain ⟨⟨kind, hk⟩, parts, hp⟩ := fits_iff.mp h
  simp only [render, hk, hp, term?, toOption_bind, toOption_ok, Option.bind_some, toOption_mapM,
    renderRow, toOption_map, parts_read hp]

theorem fits_of_render {m : TermMap} {b : Batch} {role : Role} {terms : List String}
    (h : m.render b role = .ok terms) : m.Fits b role := by
  simp only [render, bind_eq_ok_iff] at h
  obtain ⟨kind, hk, parts, hp, -⟩ := h
  exact fits_iff.mpr ⟨⟨kind, hk⟩, parts, hp⟩

theorem fits_of_term? {m : TermMap} {b : Batch} {role : Role} {row : Nat}
    (h : (m.term? (b.rowAs role row)).isSome) : m.Fits b role := by
  obtain ⟨notBlank, cells⟩ := isSome_term?_iff.mp h
  refine ⟨notBlank, fun name hn => ?_⟩
  cases hc : b.column? (role.qualify name) with
  | some c => rfl
  | none =>
    have := cells name hn
    rw [Batch.rowAs, Batch.cell?_of_no_column hc] at this
    cases this

theorem render_eq_ok_iff {m : TermMap} {b : Batch} {role : Role} {terms : List String} :
    m.render b role = .ok terms ↔
      m.Fits b role ∧
        ((List.range b.numRows).mapM fun row => m.term? (b.rowAs role row)) = some terms := by
  refine ⟨?_, ?_⟩
  · intro h
    have fits := fits_of_render h
    exact ⟨fits, by rw [← toOption_render fits, h, toOption_ok]⟩
  · intro h
    obtain ⟨fits, rows⟩ := h
    rwa [← toOption_render fits, toOption_eq_some_iff] at rows

theorem render_row_iff {m : TermMap} {b : Batch} {role : Role} {row : Nat} (h : row < b.numRows)
    {term : String} :
    m.render (b.slice row 1) role = .ok [term] ↔ m.term? (b.rowAs role row) = some term := by
  have first : (b.slice row 1).rowAs role 0 = b.rowAs role row := b.rowAs_slice role Nat.one_pos
  rw [render_eq_ok_iff, Batch.numRows_slice_one h, mapM_eq_some_iff]
  simp only [List.range_one, List.map_cons, List.map_nil, List.cons.injEq, and_true, first]
  -- that the map fits follows from its making a term
  refine and_iff_right_of_imp fun made => ?_
  have some_term : (m.term? ((b.slice row 1).rowAs role 0)).isSome := by
    rw [first, made]
    rfl
  exact fits_of_term? some_term

end TermMap

/-! ## Statements -/

namespace StatementMap

/-- The text that a row gives for the graph: none for the default graph. -/
def graphTerm? (m : StatementMap) (row : Row) : Option String :=
  match m.namedGraph with
  | some g => g.term? row
  | none => some ""

/-- The line that a statement map makes of the rows that its terms read. -/
def line? (m : StatementMap) (subject predicate object graph : Row) : Option String := do
  let s ← m.subject.term? subject
  let p ← m.predicate.term? predicate
  let o ← m.object.term? object
  let g ← m.graphTerm? graph
  some (s ++ p ++ o ++ g ++ ".")

def lineAt? (m : StatementMap) (b : Batch) (roles : TermRoles) (row : Nat) : Option String :=
  m.line? (b.rowAs roles.subject row) (b.rowAs roles.predicate row) (b.rowAs roles.object row)
    (b.rowAs roles.graph row)

/-- The line of two rows, of which the other one makes the object. -/
def pairLine? (m : StatementMap) (own other : Row) : Option String := m.line? own own other own

theorem lineAt?_plain (m : StatementMap) (b : Batch) (row : Nat) :
    m.lineAt? b .plain row = m.pairLine? (b.row row) (b.row row) := by
  simp only [lineAt?, TermRoles.plain, Batch.rowAs_plain, pairLine?]

structure Fits (m : StatementMap) (b : Batch) (roles : TermRoles) : Prop where
  subject : m.subject.Fits b roles.subject
  predicate : m.predicate.Fits b roles.predicate
  object : m.object.Fits b roles.object
  graph : ∀ g, m.namedGraph = some g → g.Fits b roles.graph

theorem isSome_graphTerm?_iff {m : StatementMap} {row : Row} :
    (m.graphTerm? row).isSome ↔ ∀ g, m.namedGraph = some g → (g.term? row).isSome := by
  rw [graphTerm?]
  cases m.namedGraph <;> simp

theorem isSome_line?_iff {m : StatementMap} {subject predicate object graph : Row} :
    (m.line? subject predicate object graph).isSome ↔
      (m.subject.term? subject).isSome ∧ (m.predicate.term? predicate).isSome ∧
        (m.object.term? object).isSome ∧ (m.graphTerm? graph).isSome := by
  simp only [line?, Option.bind_eq_bind]
  cases m.subject.term? subject with
  | none => simp
  | some s =>
    cases m.predicate.term? predicate with
    | none => simp
    | some p =>
      cases m.object.term? object with
      | none => simp
      | some o => cases m.graphTerm? graph <;> simp

/-- The term maps that show in a line, but for that of the object. -/
def ownMaps (m : StatementMap) : List TermMap := m.subject :: m.predicate :: m.namedGraph.toList

def termMaps (m : StatementMap) : List TermMap := m.object :: m.ownMaps

/-- A line is made exactly if all of its terms are: no map is for a blank node, and every cell that one
reads has a text. -/
theorem isSome_pairLine?_iff {m : StatementMap} {own other : Row} :
    (m.pairLine? own other).isSome ↔
      (∀ x ∈ m.ownMaps, x.termType ≠ .blankNode ∧ ∀ name ∈ x.columns, (own name).isSome) ∧
        m.object.termType ≠ .blankNode ∧ ∀ name ∈ m.object.columns, (other name).isSome := by
  simp only [pairLine?, isSome_line?_iff, isSome_graphTerm?_iff, TermMap.isSome_term?_iff, ownMaps,
    List.forall_mem_cons, Option.mem_toList]
  refine ⟨?_, ?_⟩
  · intro h
    obtain ⟨subject, predicate, object, graph⟩ := h
    exact ⟨⟨subject, predicate, graph⟩, object⟩
  · intro h
    obtain ⟨⟨subject, predicate, graph⟩, object⟩ := h
    exact ⟨subject, predicate, object, graph⟩

theorem pairLine?_congr {m : StatementMap} {own own' other other' : Row}
    (h : ∀ x ∈ m.ownMaps, ∀ name ∈ x.columns, own name = own' name)
    (object : ∀ name ∈ m.object.columns, other name = other' name) :
    m.pairLine? own other = m.pairLine? own' other' := by
  have subject : m.subject.term? own = m.subject.term? own' :=
    TermMap.term?_congr (h _ (by simp [ownMaps]))
  have predicate : m.predicate.term? own = m.predicate.term? own' :=
    TermMap.term?_congr (h _ (by simp [ownMaps]))
  have graph : m.graphTerm? own = m.graphTerm? own' := by
    simp only [graphTerm?]
    cases hg : m.namedGraph with
    | none => rfl
    | some x => exact TermMap.term?_congr (h x (by simp [ownMaps, hg]))
  simp only [pairLine?, line?, subject, predicate, TermMap.term?_congr object, graph]

theorem fits_of_lineAt? {m : StatementMap} {b : Batch} {roles : TermRoles} {row : Nat}
    (h : (m.lineAt? b roles row).isSome) : m.Fits b roles := by
  obtain ⟨hs, hp, ho, hg⟩ := isSome_line?_iff.mp h
  exact ⟨TermMap.fits_of_term? hs, TermMap.fits_of_term? hp, TermMap.fits_of_term? ho,
    fun g named => TermMap.fits_of_term? (isSome_graphTerm?_iff.mp hg g named)⟩

theorem toOption_renderGraph {m : StatementMap} {b : Batch} {role : Role}
    (h : ∀ g, m.namedGraph = some g → g.Fits b role) :
    (m.renderGraph b role).toOption =
      (List.range b.numRows).mapM fun row => m.graphTerm? (b.rowAs role row) := by
  simp only [renderGraph, graphTerm?]
  cases hg : m.namedGraph with
  | some g => exact TermMap.toOption_render (h g hg)
  | none =>
    symm
    show _ = some (List.replicate b.numRows "")
    rw [mapM_eq_some_iff]
    simp

theorem mapM_joinTerms (l : List Nat) (s p o g : Nat → Option String) :
    ((l.mapM s).bind fun ss => (l.mapM p).bind fun ps => (l.mapM o).bind fun os =>
        (l.mapM g).bind fun gs => some (joinTerms ss ps os gs)) =
      l.mapM fun i => (s i).bind fun a => (p i).bind fun b => (o i).bind fun c =>
        (g i).bind fun d => some (a ++ b ++ c ++ d ++ ".") := by
  -- columns are joined two at a time, so that each join is one of `mapM_zipWith`
  calc _ = ((((((l.mapM s).bind fun ss => (l.mapM p).map fun ps => ss.zipWith (· ++ ·) ps).bind
          fun sp => (l.mapM o).map fun os => sp.zipWith (· ++ ·) os).bind
          fun spo => (l.mapM g).map fun gs => spo.zipWith (· ++ ·) gs)).map
          (List.map (· ++ "."))) := by
        cases l.mapM s with
        | none => rfl
        | some ss =>
          cases l.mapM p with
          | none => rfl
          | some ps =>
            cases l.mapM o with
            | none => rfl
            | some os => cases l.mapM g <;> rfl
    _ = l.mapM fun i => ((((s i).bind fun a => (p i).map fun b => a ++ b).bind
          fun ab => (o i).map fun c => ab ++ c).bind fun abc => (g i).map fun d => abc ++ d).map
          (· ++ ".") := by
        rw [mapM_zipWith, mapM_zipWith, mapM_zipWith, map_mapM]
    _ = _ := by
        apply mapM_congr
        intro i _
        cases s i with
        | none => rfl
        | some a =>
          cases p i with
          | none => rfl
          | some b =>
            cases o i with
            | none => rfl
            | some c => cases g i <;> rfl

/-- A statement map that fits a batch renders it row by row. -/
theorem toOption_render {m : StatementMap} {b : Batch} {roles : TermRoles} (h : m.Fits b roles) :
    (m.render b roles).toOption = (List.range b.numRows).mapM (m.lineAt? b roles) := by
  simp only [render, toOption_bind, TermMap.toOption_render h.subject,
    TermMap.toOption_render h.predicate, TermMap.toOption_render h.object,
    toOption_renderGraph h.graph, toOption_ok]
  exact mapM_joinTerms _ _ _ _ _

theorem isSome_lineAt?_plain_iff {m : StatementMap} {b : Batch} {row : Nat} :
    (m.lineAt? b .plain row).isSome ↔ ∀ x ∈ m.termMaps, x.termType ≠ .blankNode ∧
      ∀ name ∈ x.columns, (b.cell? name row).isSome := by
  simp only [lineAt?_plain, isSome_pairLine?_iff, termMaps, List.forall_mem_cons, Batch.row, and_comm]

/-- All rows of a batch give lines if there are none, or all terms of all rows are made. -/
theorem lines_of_plain_iff {m : StatementMap} {b : Batch} :
    (∃ lines, (List.range b.numRows).mapM (m.lineAt? b .plain) = some lines) ↔
      b.numRows = 0 ∨ ∀ x ∈ m.termMaps, x.termType ≠ .blankNode ∧
        ∀ row < b.numRows, ∀ name ∈ x.columns, (b.cell? name row).isSome := by
  have rows : (∃ lines, (List.range b.numRows).mapM (m.lineAt? b .plain) = some lines) ↔
      ∀ row < b.numRows, ∀ x ∈ m.termMaps, x.termType ≠ .blankNode ∧
        ∀ name ∈ x.columns, (b.cell? name row).isSome := by
    rw [← Option.isSome_iff_exists, isSome_mapM_iff]
    simp only [List.mem_range, isSome_lineAt?_plain_iff]
  rw [rows]
  refine ⟨?_, ?_⟩
  · intro h
    -- that no map is for a blank node shows in the first row
    refine (Nat.eq_zero_or_pos b.numRows).imp_right fun pos x hx => ?_
    exact ⟨(h 0 pos x hx).1, fun row hrow => (h row hrow x hx).2⟩
  · intro h row hrow x hx
    rcases h with none | h
    · omega
    · exact ⟨(h x hx).1, (h x hx).2 row hrow⟩

theorem fits_of_render {m : StatementMap} {b : Batch} {roles : TermRoles} {lines : List String}
    (h : m.render b roles = .ok lines) : m.Fits b roles := by
  simp only [render, bind_eq_ok_iff] at h
  obtain ⟨subjects, hs, predicates, hp, objects, ho, graphs, hg, -⟩ := h
  refine ⟨TermMap.fits_of_render hs, TermMap.fits_of_render hp, TermMap.fits_of_render ho, ?_⟩
  intro g named
  rw [renderGraph, named] at hg
  exact TermMap.fits_of_render hg

/-- Rendering a batch is rendering its rows, once the maps fit. -/
theorem render_eq_ok_iff {m : StatementMap} {b : Batch} {roles : TermRoles} {lines : List String} :
    m.render b roles = .ok lines ↔
      m.Fits b roles ∧ (List.range b.numRows).mapM (m.lineAt? b roles) = some lines := by
  refine ⟨?_, ?_⟩
  · intro h
    have fits := fits_of_render h
    exact ⟨fits, by rw [← toOption_render fits, h, toOption_ok]⟩
  · intro h
    obtain ⟨fits, rows⟩ := h
    rwa [← toOption_render fits, toOption_eq_some_iff] at rows

theorem render_row_iff {m : StatementMap} {b : Batch} {roles : TermRoles} {row : Nat}
    (h : row < b.numRows) {line : String} :
    m.render (b.slice row 1) roles = .ok [line] ↔ m.lineAt? b roles row = some line := by
  have first : m.lineAt? (b.slice row 1) roles 0 = m.lineAt? b roles row := by
    simp only [lineAt?, b.rowAs_slice _ Nat.one_pos, Nat.add_zero]
  rw [render_eq_ok_iff, Batch.numRows_slice_one h, mapM_eq_some_iff]
  simp only [List.range_one, List.map_cons, List.map_nil, List.cons.injEq, and_true, first]
  refine and_iff_right_of_imp fun made => ?_
  have some_line : (m.lineAt? (b.slice row 1) roles 0).isSome := by
    rw [first, made]
    rfl
  exact fits_of_lineAt? some_line

end StatementMap

/-! ## Rules -/

namespace MappingRule

def statement (r : MappingRule) (object : TermMap) : StatementMap :=
  ⟨r.subject, r.predicate, object, r.graph⟩

theorem render_term {r : MappingRule} {o : TermMap} (object : r.object = .term o) (b : Batch) :
    r.render b = (r.statement o).render b .plain := by
  rw [MappingRule.render, object, statement]

end MappingRule

end RdfMapping
