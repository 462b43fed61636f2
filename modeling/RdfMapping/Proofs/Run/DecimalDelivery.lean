import RdfMapping.Proofs.Run.AskedColumns
import RdfMapping.Proofs.Source.KeyValues

/-!
Delivering decimals as doubles touches decimals that are rendered, and nothing else.

The conversion comes last: the batches of a converted answer are the converted batches of the answer
(`Connection.answer_coerced`), so rows are found, joined and cut as if there were none. It changes no name,
no row count, no null and no cell of another type (`Batch.sameButDecimals_decimalsToFloat`). A statement map
that reads no decimal renders a converted batch as the batch itself, errors included
(`StatementMap.render_decimalsToFloat`); along the delivery and the run of a rule nothing can tell the two
apart (`MappingRule.run_coerced`).
-/

namespace RdfMapping

/-! ## Columns -/

namespace Column

def IsDecimal (c : Column) : Prop := ∃ scale, c.type = .decimal scale

theorem decimalsToFloat_of_not_isDecimal {c : Column} (h : ¬c.IsDecimal) : c.decimalsToFloat = c := by
  obtain ⟨type, cells⟩ := c
  cases type with
  | decimal scale => exact absurd ⟨scale, rfl⟩ h
  | _ => rfl

theorem isNull_decimalsToFloat (c : Column) (row : Nat) : c.decimalsToFloat.isNull row = c.isNull row := by
  obtain ⟨type, cells⟩ := c
  cases type with
  | decimal scale =>
    show (((cells.map (Option.map (decimalToFloat scale)))[row]?).join).isNone = ((cells[row]?).join).isNone
    rw [Array.getElem?_map]
    cases cells[row]? with
    | none => rfl
    | some cell => cases cell <;> rfl
  | _ => rfl

theorem decimalsToFloat_slice (c : Column) (offset length : Nat) :
    (c.slice offset length).decimalsToFloat = c.decimalsToFloat.slice offset length := by
  obtain ⟨type, cells⟩ := c
  cases type with
  | decimal scale =>
    show Column.mk .float64
        ((cells.extract offset (offset + length)).map (Option.map (decimalToFloat scale))) =
      ⟨.float64, (cells.map (Option.map (decimalToFloat scale))).extract offset (offset + length)⟩
    rw [Array.map_extract]
  | _ => rfl

end Column

/-! ## Batches -/

namespace Batch

/-- What a batch and its converted form have in common: the number of rows and, field by field, the name,
whether nulls are declared, which cells are null, and every cell of a column that is not of decimals. -/
structure SameButDecimals (exact coerced : Batch) : Prop where
  numRows : exact.numRows = coerced.numRows
  entries : List.Forall₂ (fun e e' : Entry => e.field.name = e'.field.name ∧
    e.field.nullable = e'.field.nullable ∧ (∀ row, e.column.isNull row = e'.column.isNull row) ∧
    e'.column.type = e.column.type.decimalsToFloat ∧ (¬e.column.IsDecimal → e'.column = e.column))
    exact.entries coerced.entries

theorem sameButDecimals_decimalsToFloat (b : Batch) : b.SameButDecimals b.decimalsToFloat where
  numRows := rfl
  entries := by
    rw [decimalsToFloat, List.forall₂_map_right_iff, List.forall₂_same]
    intro e _
    exact ⟨rfl, rfl, fun row => (e.column.isNull_decimalsToFloat row).symm, e.column.type_decimalsToFloat,
      Column.decimalsToFloat_of_not_isDecimal⟩

theorem decimalsToFloat_slice (b : Batch) (offset length : Nat) :
    (b.slice offset length).decimalsToFloat = b.decimalsToFloat.slice offset length := by
  simp only [decimalsToFloat, slice, List.map_map]
  congr 1
  apply List.map_congr_left
  intro e _
  simp [Column.decimalsToFloat_slice]

theorem chunks_decimalsToFloat (b : Batch) (size : Nat) :
    b.decimalsToFloat.chunks size = (b.chunks size).map decimalsToFloat := by
  rw [chunks, chunks, List.map_map]
  apply List.map_congr_left
  intro k _
  exact (b.decimalsToFloat_slice _ _).symm

/-- If the name means a column, its cells are no decimals. -/
def HoldsNoDecimal (b : Batch) (name : String) : Prop := ∀ c, b.column? name = some c → ¬c.IsDecimal

theorem column?_decimalsToFloat_of_holdsNoDecimal {b : Batch} {name : String} (h : b.HoldsNoDecimal name) :
    b.decimalsToFloat.column? name = b.column? name := by
  rw [column?_decimalsToFloat]
  cases found : b.column? name with
  | none => rfl
  | some c => exact congrArg some (Column.decimalsToFloat_of_not_isDecimal (h c found))

theorem HoldsNoDecimal.of_map {b b' : Batch} {name name' : String} {f : Column → Column}
    (keeps : ∀ c, (f c).type = c.type) (columns : b'.column? name' = (b.column? name).map f)
    (h : b.HoldsNoDecimal name) : b'.HoldsNoDecimal name' := by
  intro c' found
  rw [columns] at found
  obtain ⟨c, hc, rfl⟩ := Option.map_eq_some_iff.mp found
  rintro ⟨scale, type⟩
  exact h c hc ⟨scale, (keeps c).symm.trans type⟩

theorem HoldsNoDecimal.project {b p : Batch} {names : List String} (projected : b.project names = .ok p)
    {name : String} (h : b.HoldsNoDecimal name) : p.HoldsNoDecimal name := by
  intro c found
  rw [column?_project projected] at found
  split at found
  · exact h c found
  · cases found

end Batch

/-! ## Rendering -/

theorem Part.ofSegment_congr {b b' : Batch} {role : Role} {segment : Segment}
    (h : ∀ name, segment = .column name → b.column? (role.qualify name) = b'.column? (role.qualify name)) :
    Part.ofSegment b role segment = Part.ofSegment b' role segment := by
  cases segment with
  | text s => rfl
  | column name =>
    have same := h name rfl
    show Part.ofColumn b role name = Part.ofColumn b' role name
    cases found : b'.column? (role.qualify name) with
    | some c => rw [ofColumn_of_some found, ofColumn_of_some (same.trans found)]
    | none => rw [ofColumn_of_none found, ofColumn_of_none (same.trans found)]

/-- Rendering a term reads the columns of its map only. -/
theorem TermMap.render_congr {m : TermMap} {b b' : Batch} {role : Role} (rows : b.numRows = b'.numRows)
    (columns : ∀ name ∈ m.columns, b.column? (role.qualify name) = b'.column? (role.qualify name)) :
    m.render b role = m.render b' role := by
  have parts : m.value.parts b role = m.value.parts b' role := by
    rw [m.value.parts_eq_mapM, m.value.parts_eq_mapM]
    apply mapM_congr
    intro segment hs
    apply Part.ofSegment_congr
    rintro name rfl
    exact columns name (mem_columns_iff.mpr hs)
  simp only [render, parts, rows]

namespace StatementMap

variable {m : StatementMap} {roles : TermRoles}

theorem render_congr {b b' : Batch} (rows : b.numRows = b'.numRows)
    (columns : ∀ t role, (t, role) ∈ m.placed roles → ∀ name ∈ t.columns,
      b.column? (role.qualify name) = b'.column? (role.qualify name)) :
    m.render b roles = m.render b' roles := by
  have term : ∀ t role, (t, role) ∈ m.placed roles → t.render b role = t.render b' role :=
    fun t role placed => TermMap.render_congr rows (columns t role placed)
  have graph : m.renderGraph b roles.graph = m.renderGraph b' roles.graph := by
    unfold renderGraph
    cases named : m.namedGraph with
    | none => rw [rows]
    | some g => exact term g roles.graph (by simp [placed, named])
  simp only [render, graph, term m.subject roles.subject (by simp [placed]),
    term m.predicate roles.predicate (by simp [placed]), term m.object roles.object (by simp [placed])]

/-- No map that shows reads a column of decimals. -/
def ReadsNoDecimal (m : StatementMap) (b : Batch) (roles : TermRoles) : Prop :=
  ∀ t role, (t, role) ∈ m.placed roles → ∀ name ∈ t.columns, b.HoldsNoDecimal (role.qualify name)

/-- A batch is rendered as its converted form, if no decimal is read. -/
theorem render_decimalsToFloat {b : Batch} (h : m.ReadsNoDecimal b roles) :
    m.render b.decimalsToFloat roles = m.render b roles := by
  apply render_congr
  · rfl
  · intro t role placed name hn
    exact Batch.column?_decimalsToFloat_of_holdsNoDecimal (h t role placed name hn)

theorem ReadsNoDecimal.chunk {b chunk : Batch} {size : Nat} (h : m.ReadsNoDecimal b roles)
    (hc : chunk ∈ b.chunks size) : m.ReadsNoDecimal chunk roles := by
  simp only [Batch.chunks, List.mem_map] at hc
  obtain ⟨k, -, rfl⟩ := hc
  intro t role placed name hn
  have columns := b.column?_slice (k * Batch.chunkStep size) (Batch.chunkStep size) (role.qualify name)
  exact (h t role placed name hn).of_map (fun _ => by rfl) columns

end StatementMap

/-! ## Delivery -/

theorem drain_map {render : Renderer} {f : Batch → Batch} (broken : Option MappingError)
    {batches : List Batch} (same : ∀ b ∈ batches, render (f b) = render b ∧ (f b).numRows = b.numRows)
    (out : RuleOutput) : drain render broken (batches.map f) out = drain render broken batches out := by
  induction batches generalizing out with
  | nil => rfl
  | cons b rest ih =>
    obtain ⟨⟨rendered, rows⟩, tail⟩ := List.forall_mem_cons.mp same
    rw [List.map_cons, drain, drain, rendered]
    cases render b with
    | error e => rfl
    | ok lines =>
      have added : out.add (f b) lines = out.add b lines := by rw [RuleOutput.add, RuleOutput.add, rows]
      simp only [added]
      exact ih tail _

namespace Connection

variable (k : Connection) (request : Request) (size : Nat)

/-- The batches are converted after everything else. -/
theorem answer_coerced : k.answer ⟨request, size, true⟩ =
    (k.answer ⟨request, size, false⟩).map (List.map Batch.decimalsToFloat) := by
  unfold answer
  cases k.select request with
  | error e => rfl
  | ok b => exact congrArg Except.ok (b.chunks_decimalsToFloat size)

variable {k request} in
theorem run_coerced {m : StatementMap} {roles : TermRoles}
    (h : ∀ b, k.select request = .ok b → m.ReadsNoDecimal b roles) :
    k.session.run ⟨request, size, true⟩ (m.render · roles) =
      k.session.run ⟨request, size, false⟩ (m.render · roles) := by
  simp only [Session.run, session, k.answer_coerced]
  cases answered : k.answer ⟨request, size, false⟩ with
  | error e => rfl
  | ok batches =>
    apply drain_map
    intro chunk hc
    obtain ⟨b, selected, rfl⟩ := map_eq_ok_iff.mp answered
    exact ⟨StatementMap.render_decimalsToFloat ((h b selected).chunk hc), rfl⟩

end Connection

theorem Store.run_congr {st : Store} {source : String} {q q' : Query} {render : Renderer}
    (same : ∀ k, st.connect source = .ok k → k.session.run q render = k.session.run q' render) :
    st.dataSource.run source q render = st.dataSource.run source q' render := by
  rw [st.run_eq, st.run_eq]
  cases connected : st.connect source with
  | error e => rfl
  | ok k => simp only [same k connected]

/-! ## Rules -/

theorem Store.held?_of_connect {st : Store} {source : String} {k : Connection}
    (connected : st.connect source = .ok k) (t : LogicalTable) :
    st.held? source t = k.tables.held? t := by
  unfold connect at connected
  split at connected
  · rename_i tables found
    cases connected
    rw [held?, found, Option.bind_some]
  · cases connected

namespace MappingRule

/-- The maps that show in the lines of a rule and read its own table: the object is not one of them if a
join finds it. -/
def ownMaps (r : MappingRule) : List TermMap :=
  r.subject :: r.predicate :: (r.graph.filter (!·.isDefaultGraph)).toList ++
    match r.object with
    | .term o => [o]
    | .reference _ => []

/-- No map that shows reads a column of decimals: of the table of the rule, or, for the subject of its
parent, of the table of the parent. -/
structure RendersNoDecimal (r : MappingRule) (index : SubjectIndex) (st : Store) : Prop where
  own : ∀ t, st.held? r.sourceName r.logicalTable = some t →
    ∀ m ∈ r.ownMaps, ∀ name ∈ m.columns, t.HoldsNoDecimal name
  parent : ∀ m parent t, r.object = .reference m → index.find? m.parentTriplesMap = some parent →
    st.held? parent.sourceName parent.logicalTable = some t →
    ∀ name ∈ parent.subject.columns, t.HoldsNoDecimal name

variable {r : MappingRule} {index : SubjectIndex} {st : Store}

theorem ownMaps_statement (o : TermMap) : ∀ m ∈ (r.statement o).ownMaps, m ∈ r.ownMaps := by
  intro m hm
  exact List.mem_append_left _ hm

theorem mem_ownMaps_of_term {o : TermMap} (object : r.object = .term o) : o ∈ r.ownMaps := by
  simp [ownMaps, object]

theorem readsNoDecimal_of_plan (h : r.RendersNoDecimal index st) {p : RulePlan}
    (planned : r.plan index = .ok p) :
    ∃ (m : StatementMap) (roles : TermRoles), p.render = (m.render · roles) ∧
      ∀ k b, st.connect r.sourceName = .ok k → k.select p.request = .ok b → m.ReadsNoDecimal b roles := by
  cases plans_of_plan planned with
  | @term o object =>
    refine ⟨r.statement o, .plain, rfl, fun k b connected selected => ?_⟩
    obtain ⟨t, table, projected⟩ := bind_eq_ok_iff.mp selected
    have held := (st.held?_of_connect connected _).trans (Connection.table_eq_ok_iff.mp table)
    have column : ∀ x ∈ r.ownMaps, ∀ name ∈ x.columns, b.HoldsNoDecimal (Role.plain.qualify name) := by
      intro x hx name hn
      rw [Role.qualify_plain]
      exact (h.own t held x hx name hn).project (mapError_eq_ok_iff.mp projected)
    apply StatementMap.forall_placed
    · intro x hx
      exact column x (ownMaps_statement o x hx)
    · exact column o (mem_ownMaps_of_term object)
  | @reference m parent object resolved conditions source =>
    refine ⟨r.statement parent.subject, .join, rfl, fun k b connected selected => ?_⟩
    obtain ⟨-, C, P, hC, hP, -, left, right, hl, hr, rfl⟩ := Connection.join_eq_ok_iff.mp selected
    have child := (st.held?_of_connect connected _).trans hC
    have other := (st.held?_of_connect connected _).trans hP
    rw [← source] at other
    apply StatementMap.forall_placed
    · intro x hx name hn
      have columns := (Batch.column?_child_paired left right (matchedPairs C P m.joinConditions) name).trans
        (Batch.column?_pick _ _ _)
      exact ((h.own C child x (ownMaps_statement _ x hx) name hn).project hl).of_map (fun _ => by rfl) columns
    · intro name hn
      have columns := (Batch.column?_parent_paired left right (matchedPairs C P m.joinConditions) name).trans
        (Batch.column?_pick _ _ _)
      exact ((h.parent m parent P object resolved other name hn).project hr).of_map (fun _ => by rfl) columns

theorem run_coerced (h : r.RendersNoDecimal index st) (s : Settings) :
    r.run index st.dataSource { s with coerceFloat := true } =
      r.run index st.dataSource { s with coerceFloat := false } := by
  unfold run
  cases planned : r.plan index with
  | error e => rfl
  | ok p =>
    obtain ⟨m, roles, render, reads⟩ := readsNoDecimal_of_plan h planned
    apply Store.run_congr
    intro k connected
    rw [render]
    exact Connection.run_coerced s.chunkSize fun b selected => reads k b connected selected

end MappingRule

/-! ## Answers -/

namespace Connection

variable {k : Connection} {request : Request} {size : Nat}

theorem answer_coerced_eq_ok_iff {coerced : List Batch} : k.answer ⟨request, size, true⟩ = .ok coerced ↔
    ∃ exact, k.answer ⟨request, size, false⟩ = .ok exact ∧ exact.map Batch.decimalsToFloat = coerced := by
  rw [answer_coerced, map_eq_ok_iff]

/-- Joined rows are converted after they have been paired. -/
theorem answer_join_eq_ok_iff {child parent : Selection} {conditions : List JoinCondition} {coerce : Bool}
    {batches : List Batch} : k.answer ⟨.join child parent conditions, size, coerce⟩ = .ok batches ↔
      conditions ≠ [] ∧ ∃ C P, k.tables.held? child.table = some C ∧
        k.tables.held? parent.table = some P ∧
        Joinable C P child.columns parent.columns conditions ∧
        ∃ left right, C.project child.columns = .ok left ∧ P.project parent.columns = .ok right ∧
          batches = ((left.delivered coerce).paired (right.delivered coerce)
            (matchedPairs C P conditions)).chunks size := by
  unfold answer
  rw [map_eq_ok_iff]
  simp only [select, join_eq_ok_iff, ← Batch.delivered_paired]
  refine ⟨?_, ?_⟩
  · rintro ⟨b, ⟨some_condition, C, P, hC, hP, there, left, right, hl, hr, rfl⟩, rfl⟩
    exact ⟨some_condition, C, P, hC, hP, there, left, right, hl, hr, rfl⟩
  · rintro ⟨some_condition, C, P, hC, hP, there, left, right, hl, hr, rfl⟩
    exact ⟨_, ⟨some_condition, C, P, hC, hP, there, left, right, hl, hr, rfl⟩, rfl⟩

end Connection

/-- **Conversion touches rendered decimals only.** A rule that renders no decimal runs with and without
conversion alike, whatever it is joined on: the same events, the same output or the same error. Any query
is refused for the same reason with and without it, and else the batches agree but for their decimals; and a
join pairs the rows that match before anything is converted. -/
theorem conversion_touches_rendered_decimals :
    (∀ (r : MappingRule) (index : SubjectIndex) (st : Store) (s : Settings), r.RendersNoDecimal index st →
      r.run index st.dataSource { s with coerceFloat := true } =
        r.run index st.dataSource { s with coerceFloat := false }) ∧
    (∀ (k : Connection) (request : Request) (size : Nat),
      (∀ e, k.answer ⟨request, size, true⟩ = .error e ↔ k.answer ⟨request, size, false⟩ = .error e) ∧
      ∀ exact coerced, k.answer ⟨request, size, false⟩ = .ok exact →
        k.answer ⟨request, size, true⟩ = .ok coerced → List.Forall₂ Batch.SameButDecimals exact coerced) ∧
    ∀ (k : Connection) (child parent : Selection) (conditions : List JoinCondition) (size : Nat)
      (exact coerced : List Batch), k.answer ⟨.join child parent conditions, size, false⟩ = .ok exact →
      k.answer ⟨.join child parent conditions, size, true⟩ = .ok coerced →
      ∃ C P left right, k.table child.table = .ok C ∧ k.table parent.table = .ok P ∧
        C.project child.columns = .ok left ∧ P.project parent.columns = .ok right ∧
        exact = (left.paired right (matchedPairs C P conditions)).chunks size ∧
        coerced = (left.decimalsToFloat.paired right.decimalsToFloat
          (matchedPairs C P conditions)).chunks size := by
  refine ⟨?_, ?_, ?_⟩
  · intro r index st s h
    exact MappingRule.run_coerced h s
  · intro k request size
    refine ⟨?_, ?_⟩
    · intro e
      rw [k.answer_coerced, map_eq_error_iff]
    · intro exact coerced answered answered'
      obtain ⟨batches, found, rfl⟩ := Connection.answer_coerced_eq_ok_iff.mp answered'
      cases answered.symm.trans found
      rw [List.forall₂_map_right_iff, List.forall₂_same]
      intro b _
      exact b.sameButDecimals_decimalsToFloat
  · intro k child parent conditions size exact coerced answered answered'
    obtain ⟨some_condition, C, P, hC, hP, there, left, right, hl, hr, rfl⟩ :=
      Connection.answer_join_eq_ok_iff.mp answered
    have converted : k.answer ⟨.join child parent conditions, size, true⟩ = .ok _ :=
      Connection.answer_join_eq_ok_iff.mpr ⟨some_condition, C, P, hC, hP, there, left, right, hl, hr, rfl⟩
    exact ⟨C, P, left, right, Connection.table_eq_ok_iff.mpr hC, Connection.table_eq_ok_iff.mpr hP, hl, hr,
      rfl, Except.ok.inj (answered'.symm.trans converted)⟩

def marketStore : Store := ⟨[("db", market.tables)], 0, 0⟩

/-- Offers meet bids of their price; what is rendered of either is its day. -/
def offerRule : MappingRule :=
  ⟨"r1", "offers", "db", .table "offers", "", .plain (.column "day") .iri, .iri "http://ex/meets",
    .reference ⟨"bids", [⟨"price", "limit"⟩]⟩, none⟩

def bidSubjects : SubjectIndex := ⟨[⟨"bids", "db", .table "bids", .plain (.column "date") .iri⟩]⟩

/-- Prices are compared as decimals with and without conversion, and converted only for delivery. -/
theorem prices_meet_unconverted :
    offerRule.run bidSubjects marketStore.dataSource { coerceFloat := true } =
        offerRule.run bidSubjects marketStore.dataSource { coerceFloat := false } ∧
      ∃ exact coerced, market.answer ⟨.project ⟨.table "offers", ["price"]⟩, 2, false⟩ = .ok exact ∧
        market.answer ⟨.project ⟨.table "offers", ["price"]⟩, 2, true⟩ = .ok coerced ∧
        List.Forall₂ Batch.SameButDecimals exact coerced := by
  have dates : ∀ {b : Batch} {name : String} {c : Column}, b.column? name = some c → c.type = .date →
      b.HoldsNoDecimal name := by
    rintro b name c found type c' found' ⟨scale, decimal⟩
    cases found.symm.trans found'
    cases type.symm.trans decimal
  have renders : offerRule.RendersNoDecimal bidSubjects marketStore := by
    refine ⟨?_, ?_⟩
    · intro t held m hm name hn
      obtain rfl : offers = t := Option.some.inj held
      have day : name = "day" := by
        revert name
        revert m
        decide
      subst day
      exact dates rfl rfl
    · intro m parent t object resolved held name hn
      cases object
      cases resolved
      obtain rfl : bids = t := Option.some.inj held
      obtain rfl : name = "date" := List.mem_singleton.mp hn
      exact dates rfl rfl
  obtain ⟨runs, answers, -⟩ := conversion_touches_rendered_decimals
  refine ⟨runs offerRule bidSubjects marketStore {} renders, _, _, rfl, rfl, ?_⟩
  exact (answers market (.project ⟨.table "offers", ["price"]⟩) 2).2 _ _ rfl rfl

end RdfMapping
