import RdfMapping.Proofs.Mapping.Acceptance
import RdfMapping.Proofs.Run.JoinRule
import RdfMapping.Proofs.Source.HashJoin
import RdfMapping.Proofs.Statement.RowWise

/-!
What a rule asks for is what it reads, and what can stop it.

The maps that show in a line read only columns that the rule asks for, from its own table and from that of
its parent (`MappingRule.covered_of_plan`), and neither the delivery of decimals nor the cutting into chunks
loses a column. So a batch of an answer fails to render for blank nodes or for a cell without a text only
(`MappingError.OfRow`). Bounding each step by the errors it can give (`FailsIn`) bounds those of a whole run
(`MappingRule.failsIn_run`), and the errors that guard against what cannot happen
(`MappingError.isDefensive`) are not among them.
-/

namespace RdfMapping

/-! ## Errors -/

/-- Errors that a row can give although all of its columns are there: blank nodes are not supported, and
a cell has no text. -/
inductive MappingError.OfRow : MappingError → Prop
  | blankNode : OfRow (.configuration .blankNode)
  | null (column : String) (row : Nat) : OfRow (.encoding (.null column row))
  | cell (column : String) (row : Nat) (fault : CoercionFault) :
      OfRow (.encoding (.cell column (.notCoercible row fault)))

inductive Connection.Refuses (k : Connection) : MappingError → Prop
  | unknownTable (name : String) : Refuses k (.dataSource (.unknownTable name k.source))
  | queryText : Refuses k (.dataSource (.queryText k.source))
  | column (name : String) : Refuses k (.configuration (.columnNotInSource name k.source))
  | joinColumn (name : String) : Refuses k (.configuration (.joinColumnNotInSource name k.source))
  | key (row : Nat) (fault : CoercionFault) : Refuses k (.encoding (.key row fault))

inductive MappingRule.Stops (r : MappingRule) : MappingError → Prop
  | parent {m : ReferencingObjectMap} (object : r.object = .reference m) :
      Stops r (.joinResolution m.parentTriplesMap)
  | acrossSources (source : String) : Stops r (.dataSource (.acrossSources r.ruleId r.sourceName source))
  | unknownSource : Stops r (.dataSource (.unknownSource r.sourceName))
  | refused {k : Connection} {e : MappingError} (own : k.source = r.sourceName) (refuses : k.Refuses e) :
      Stops r e
  | row {e : MappingError} (ofRow : e.OfRow) : Stops r e

/-- The fault of a batch's shape that an error reports. -/
def MappingError.schemaFault? : MappingError → Option SchemaFault
  | .dataSource (.schema fault) => some fault
  | .dataSource (.projection _ (.schema fault)) => some fault
  | .dataSource (.sides (.schema fault)) => some fault
  | .encoding (.cell _ (.schema fault)) => some fault
  | _ => none

/-- Errors that guard against what a rule that was accepted does not run into: a column that was not asked
for, a record that is no rule, a rule that joins rendered as one that does not, a join without conditions, a
batch out of shape. -/
def MappingError.isDefensive : MappingError → Bool
  | .configuration (.columnNotFound _) => true
  | .configuration (.rule _ _) => true
  | .configuration (.needsJoinedBatch _) => true
  | .configuration (.noJoinConditions _ _) => true
  | .dataSource .noJoinConditions => true
  | e => e.schemaFault?.isSome

theorem MappingRule.Stops.not_defensive {r : MappingRule} {e : MappingError} (h : r.Stops e) :
    e.isDefensive = false := by
  cases h with
  | parent _ => rfl
  | acrossSources _ => rfl
  | unknownSource => rfl
  | refused _ refuses => cases refuses <;> rfl
  | row ofRow => cases ofRow <;> rfl

/-! ## Rendering what was asked for -/

theorem Column.failsIn_text? (c : Column) (row : Nat) :
    FailsIn (c.text? row) fun e => ∃ fault, e = .notCoercible row fault := by
  unfold text?
  split
  · exact FailsIn.ok _
  · split
    · exact FailsIn.ok _
    · exact FailsIn.error ⟨_, rfl⟩

theorem Column.Fault.ofRow {c : Column} {name : String} {row : Nat} {e : MappingError}
    (h : c.Fault name row e) : e.OfRow := by
  cases h with
  | null _ => exact .null name row
  | value unwritable =>
    obtain ⟨fault, rfl⟩ := c.failsIn_text? row _ unwritable
    exact .cell name row fault

theorem TermMap.Fault.ofRow {m : TermMap} {b : Batch} {role : Role} {e : MappingError}
    (columns : ∀ name ∈ m.columns, (b.column? (role.qualify name)).isSome) (h : m.Fault b role e) :
    e.OfRow := by
  cases h with
  | blank _ => exact .blankNode
  | @missing before name after _ segments _ absent =>
    have read : name ∈ m.columns := mem_columns_iff.mpr (by simp [segments])
    have found := columns name read
    rw [absent] at found
    cases found
  | cell _ _ _ _ _ _ fault => exact fault.ofRow

namespace StatementMap

/-- The maps that show in a line, each with the side of a row that it reads. -/
def placed (m : StatementMap) (roles : TermRoles) : List (TermMap × Role) :=
  (m.subject, roles.subject) :: (m.predicate, roles.predicate) :: (m.object, roles.object) ::
    m.namedGraph.toList.map (·, roles.graph)

/-- Every column that a map that shows reads is there. -/
def Covered (m : StatementMap) (b : Batch) (roles : TermRoles) : Prop :=
  ∀ t role, (t, role) ∈ m.placed roles → ∀ name ∈ t.columns, (b.column? (role.qualify name)).isSome

variable {m : StatementMap} {roles : TermRoles}

theorem Fault.ofRow {b : Batch} {e : MappingError} (covered : m.Covered b roles) (h : m.Fault b roles e) :
    e.OfRow := by
  cases h with
  | subject fault => exact fault.ofRow (covered _ _ (by simp [placed]))
  | predicate _ fault => exact fault.ofRow (covered _ _ (by simp [placed]))
  | object _ _ fault => exact fault.ofRow (covered _ _ (by simp [placed]))
  | graph _ _ _ named fault => exact fault.ofRow (covered _ _ (by simp [placed, named]))

theorem failsIn_render {b : Batch} (covered : m.Covered b roles) :
    FailsIn (m.render b roles) MappingError.OfRow := fun _ fails =>
  (render_eq_error_iff.mp fails).ofRow covered

/-- What holds of the maps that read the own side, and of that of the object, holds of all that show. -/
theorem forall_placed {own other : Role} {holds : TermMap → Role → Prop}
    (ownMaps : ∀ x ∈ m.ownMaps, holds x own) (object : holds m.object other) :
    ∀ t role, (t, role) ∈ m.placed ⟨own, own, other, own⟩ → holds t role := by
  intro t role ht
  simp only [placed, List.mem_cons, Prod.mk.injEq, List.mem_map, Option.mem_toList] at ht
  rcases ht with ⟨rfl, rfl⟩ | ⟨rfl, rfl⟩ | ⟨rfl, rfl⟩ | ⟨g, named, rfl, rfl⟩
  · exact ownMaps _ (by simp [StatementMap.ownMaps])
  · exact ownMaps _ (by simp [StatementMap.ownMaps])
  · exact object
  · have shows : m.namedGraph = some g := named
    exact ownMaps g (by simp [StatementMap.ownMaps, shows])

theorem covered_of_sides {b : Batch} {own other : Role}
    (ownColumns : ∀ x ∈ m.ownMaps, ∀ name ∈ x.columns, (b.column? (own.qualify name)).isSome)
    (object : ∀ name ∈ m.object.columns, (b.column? (other.qualify name)).isSome) :
    m.Covered b ⟨own, own, other, own⟩ :=
  forall_placed ownColumns object

theorem covered_chunk {b chunk : Batch} {coerce : Bool} {size : Nat} (covered : m.Covered b roles)
    (h : chunk ∈ (b.delivered coerce).chunks size) : m.Covered chunk roles := by
  simp only [Batch.chunks, List.mem_map] at h
  obtain ⟨k, -, rfl⟩ := h
  intro t role ht name hn
  have found := covered t role ht name hn
  rw [Batch.column?_slice, Option.isSome_map]
  cases coerce with
  | false => exact found
  | true =>
    show (b.decimalsToFloat.column? (role.qualify name)).isSome
    rwa [Batch.column?_decimalsToFloat, Option.isSome_map]

end StatementMap

/-! ## What is asked for -/

namespace Connection

variable {k : Connection}

theorem isSome_column?_select {selection : Selection} {b : Batch}
    (h : k.select (.project selection) = .ok b) {name : String} (hn : name ∈ selection.columns) :
    (b.column? name).isSome := by
  obtain ⟨t, -, projected⟩ := bind_eq_ok_iff.mp h
  have projected := mapError_eq_ok_iff.mp projected
  rw [Batch.column?_project projected, if_pos hn]
  exact Batch.project_ok_iff.mp ⟨b, projected⟩ name hn

theorem isSome_column?_join {child parent : Selection} {conditions : List JoinCondition} {b : Batch}
    (h : k.join child parent conditions = .ok b) :
    (∀ name ∈ child.columns, (b.column? (Role.child.qualify name)).isSome) ∧
      ∀ name ∈ parent.columns, (b.column? (Role.parent.qualify name)).isSome := by
  obtain ⟨-, C, P, -, -, there, left, right, hl, hr, rfl⟩ := join_eq_ok_iff.mp h
  refine ⟨?_, ?_⟩
  · intro name hn
    rw [Batch.column?_child_paired, Batch.column?_pick, Option.isSome_map, Batch.column?_project hl,
      if_pos hn]
    exact there.childColumns name hn
  · intro name hn
    rw [Batch.column?_parent_paired, Batch.column?_pick, Option.isSome_map, Batch.column?_project hr,
      if_pos hn]
    exact there.parentColumns name hn

end Connection

theorem Store.source_of_connect {st : Store} {source : String} {k : Connection}
    (h : st.connect source = .ok k) : k.source = source := by
  unfold connect at h
  split at h
  · cases h
    rfl
  · cases h

theorem SubjectIndex.resolve_eq_ok_iff {index : SubjectIndex} {id : String} {parent : SubjectMap} :
    index.resolve id = .ok parent ↔ index.find? id = some parent := by
  unfold resolve
  cases index.find? id <;> simp

namespace MappingRule

variable {r : MappingRule} {index : SubjectIndex} {p : RulePlan}

/-- What a rule plans: a projection of its columns, or a join with the columns of its parent. -/
inductive Plans (r : MappingRule) (index : SubjectIndex) : RulePlan → Prop
  | term {o : TermMap} (object : r.object = .term o) :
      Plans r index ⟨.project ⟨r.logicalTable, r.columns.toList⟩, ((r.statement o).render · .plain)⟩
  | reference {m : ReferencingObjectMap} {parent : SubjectMap} (object : r.object = .reference m)
      (resolved : index.find? m.parentTriplesMap = some parent) (conditions : m.joinConditions ≠ [])
      (source : parent.sourceName = r.sourceName) :
      Plans r index ⟨.join ⟨r.logicalTable, r.columns.toList⟩
        ⟨parent.logicalTable, (parent.columns ∪ m.parentColumns).toList⟩ m.joinConditions,
        ((r.statement parent.subject).render · .join)⟩

theorem plans_of_plan (h : r.plan index = .ok p) : r.Plans index p := by
  unfold plan at h
  split at h
  case h_1 o object =>
    cases h
    have render : r.render = ((r.statement o).render · .plain) := funext (render_term object)
    rw [render]
    exact .term object
  case h_2 m object =>
    obtain ⟨parent, resolved, h⟩ := bind_eq_ok_iff.mp h
    simp only [ReferencingObjectMap.hasConditions, Bool.not_not, List.isEmpty_iff] at h
    split_ifs at h with conditions source
    cases h
    exact .reference object (SubjectIndex.resolve_eq_ok_iff.mp resolved) conditions (not_not.mp source)

/-- The maps that show in a line read no column that is not asked for. -/
theorem covered_of_plan (h : r.plan index = .ok p) :
    ∃ (m : StatementMap) (roles : TermRoles), p.render = (m.render · roles) ∧
      ∀ (k : Connection) (b : Batch), k.select p.request = .ok b → m.Covered b roles := by
  cases plans_of_plan h with
  | @term o object =>
    refine ⟨r.statement o, .plain, rfl, fun k b answered => ?_⟩
    have there : ∀ name ∈ r.columns, (b.column? (Role.plain.qualify name)).isSome := by
      intro name hn
      rw [Role.qualify_plain]
      exact Connection.isSome_column?_select answered hn
    apply StatementMap.covered_of_sides
    · intro x hx name hn
      exact there name (mem_columns_of_ownMaps hx hn)
    · intro name hn
      have read : name ∈ o.columns := hn
      exact there name (by simp [columns, objectColumns, object, read])
  | @reference m parent object resolved conditions source =>
    refine ⟨r.statement parent.subject, .join, rfl, fun k b answered => ?_⟩
    obtain ⟨child, other⟩ := Connection.isSome_column?_join answered
    apply StatementMap.covered_of_sides
    · intro x hx name hn
      exact child name (mem_columns_of_ownMaps hx hn)
    · intro name hn
      have read : name ∈ parent.columns := TextSet.mem_ofList.mpr hn
      exact other name (TextSet.mem_union.mpr (.inl read))

theorem failsIn_plan (conditions : ∀ m, r.object = .reference m → m.joinConditions ≠ [])
    (index : SubjectIndex) : FailsIn (r.plan index) r.Stops := by
  unfold plan
  split
  case h_1 => exact FailsIn.ok _
  case h_2 m object =>
    apply FailsIn.bind
    · unfold SubjectIndex.resolve
      split
      · exact FailsIn.ok _
      · exact FailsIn.error (.parent object)
    · intro parent _
      have some_condition : m.hasConditions = true := by
        simpa [ReferencingObjectMap.hasConditions] using conditions m object
      simp only [some_condition, Bool.not_true, Bool.false_eq_true, if_false]
      split
      · exact FailsIn.error (.acrossSources _)
      · exact FailsIn.ok _

end MappingRule

/-! ## What stops a run -/

theorem failsIn_rowKey (columns : List Column) (row : Nat) :
    FailsIn (rowKey columns row) fun e => ∃ fault, e = .notCoercible row fault := by
  induction columns with
  | nil => exact FailsIn.ok _
  | cons c rest ih =>
    unfold rowKey
    split
    case h_1 error unwritable => exact FailsIn.error (c.failsIn_text? row error unwritable)
    case h_2 => exact FailsIn.ok _
    case h_3 => exact ih.map _

namespace Connection

variable (k : Connection)

theorem failsIn_table (t : LogicalTable) : FailsIn (k.table t) k.Refuses := by
  cases t with
  | query sql => exact FailsIn.error .queryText
  | table name =>
    simp only [table]
    split
    · exact FailsIn.ok _
    · exact FailsIn.error (.unknownTable name)

theorem failsIn_project (b : Batch) (names : List String) : FailsIn (k.project b names) k.Refuses := by
  intro e fails
  obtain ⟨-, name, -, -, -, -, rfl⟩ := project_eq_error_iff.mp fails
  exact .column name

theorem failsIn_keyColumns (b : Batch) (names : List String) :
    FailsIn (k.keyColumns b names) k.Refuses := by
  apply FailsIn.mapM
  intro name _
  split
  · exact FailsIn.ok _
  · exact FailsIn.error (.joinColumn name)

theorem failsIn_keys (columns : List Column) (rows : Nat) :
    FailsIn ((rowKeys columns rows).mapError MappingError.ofTableError) k.Refuses := by
  have keys : FailsIn (rowKeys columns rows) fun e => ∃ row fault, e = .notCoercible row fault :=
    FailsIn.mapM fun row _ => (failsIn_rowKey columns row).mono fun _ fault => ⟨row, fault⟩
  refine FailsIn.mapError keys ?_
  rintro _ ⟨row, fault, rfl⟩
  exact .key row fault

theorem failsIn_side (b : Batch) (names : List String) (rows : List Nat) (role : Role) :
    FailsIn (k.side b names rows role) k.Refuses := by
  apply FailsIn.bind (k.failsIn_project b names)
  intro selected _
  exact FailsIn.ok _

theorem failsIn_join {child parent : Selection} {conditions : List JoinCondition}
    (some_condition : conditions ≠ []) : FailsIn (k.join child parent conditions) k.Refuses := by
  have not_empty : conditions.isEmpty = false := by simpa using some_condition
  simp only [join, not_empty, Bool.false_eq_true, if_false]
  refine (k.failsIn_table _).bind fun C _ => (k.failsIn_table _).bind fun P _ => ?_
  refine (k.failsIn_keyColumns C _).bind fun cs _ => (k.failsIn_keyColumns P _).bind fun ps _ => ?_
  refine (k.failsIn_keys ps _).bind fun parentKeys _ => (k.failsIn_keys cs _).bind fun childKeys _ => ?_
  refine (k.failsIn_side C _ _ _).bind fun left hl => (k.failsIn_side P _ _ _).bind fun right hr => ?_
  obtain ⟨b, together⟩ := beside_sides hl hr
  rw [together]
  exact FailsIn.ok _

theorem failsIn_answer {q : Query} (conditions : ∀ child parent conditions,
    q.request = .join child parent conditions → conditions ≠ []) : FailsIn (k.answer q) k.Refuses := by
  apply FailsIn.map
  cases request : q.request with
  | project selection => exact (k.failsIn_table _).bind fun b _ => k.failsIn_project b _
  | join child parent on => exact k.failsIn_join (conditions child parent on request)

end Connection

theorem failsIn_drain {render : Renderer} {errors : MappingError → Prop} {batches : List Batch}
    (h : ∀ b ∈ batches, FailsIn (render b) errors) (out : RuleOutput) :
    FailsIn (drain render none batches out) errors := by
  induction batches generalizing out with
  | nil => exact FailsIn.ok _
  | cons b rest ih =>
    obtain ⟨first, later⟩ := List.forall_mem_cons.mp h
    unfold drain
    split
    · exact ih later _
    case h_2 error fails => exact FailsIn.error (first error fails)

namespace MappingRule

variable {r : MappingRule} {index : SubjectIndex} {p : RulePlan}

theorem failsIn_render (h : r.plan index = .ok p) {k : Connection} {chunkSize : Nat} {coerce : Bool}
    {batches : List Batch} (answered : k.answer ⟨p.request, chunkSize, coerce⟩ = .ok batches) {b : Batch}
    (hb : b ∈ batches) : FailsIn (p.render b) MappingError.OfRow := by
  obtain ⟨m, roles, render, covered⟩ := covered_of_plan h
  obtain ⟨t, selected, rfl⟩ := map_eq_ok_iff.mp answered
  rw [render]
  exact StatementMap.failsIn_render (StatementMap.covered_chunk (covered k t selected) hb)

theorem conditions_of_plan (h : r.plan index = .ok p) {child parent : Selection}
    {conditions : List JoinCondition} (request : p.request = .join child parent conditions) :
    conditions ≠ [] := by
  cases plans_of_plan h with
  | term _ => cases request
  | reference _ _ some_condition _ =>
    cases request
    exact some_condition

theorem failsIn_query (h : r.plan index = .ok p) {k : Connection} (own : k.source = r.sourceName)
    (chunkSize : Nat) (coerce : Bool) :
    FailsIn (k.session.run ⟨p.request, chunkSize, coerce⟩ p.render) r.Stops := by
  have answers := k.failsIn_answer (q := ⟨p.request, chunkSize, coerce⟩) fun _ _ _ => conditions_of_plan h
  simp only [Session.run, Connection.session]
  cases answered : k.answer ⟨p.request, chunkSize, coerce⟩ with
  | error e => exact FailsIn.error (.refused own (answers e answered))
  | ok batches =>
    have rows : ∀ b ∈ batches, FailsIn (p.render b) r.Stops := by
      intro b hb
      exact (failsIn_render h answered hb).mono fun _ => .row
    exact failsIn_drain rows {}

/-- Over tables in memory, a rule with conditions to join on is stopped by an error of this list only. -/
theorem failsIn_run (conditions : ∀ m, r.object = .reference m → m.joinConditions ≠ [])
    (index : SubjectIndex) (st : Store) (s : Settings) :
    FailsIn (r.run index st.dataSource s).outcome fun stop => ∃ e, stop = .failed e ∧ r.Stops e := by
  unfold run
  split
  case h_2 e fails => exact FailsIn.error ⟨e, rfl, failsIn_plan conditions index e fails⟩
  case h_1 p planned =>
    rw [Store.outcome_run]
    have query : FailsIn (st.connect r.sourceName >>= fun k =>
        k.session.run ⟨p.request, s.chunkSize, s.coerceFloat⟩ p.render) r.Stops := by
      refine FailsIn.bind ?_ fun k connected => ?_
      · unfold Store.connect
        split
        · exact FailsIn.ok _
        · exact FailsIn.error .unknownSource
      · exact failsIn_query planned (Store.source_of_connect connected) s.chunkSize s.coerceFloat
    exact query.mapError fun e stops => ⟨e, rfl, stops⟩

theorem checked_of_accepted {records : List RuleRecord} {rules : List MappingRule}
    (accepted : listOfRecords records = .ok rules) {r : MappingRule} (hr : r ∈ rules) : r.Checked := by
  have states := listOfRecords_eq_ok_iff.mp accepted
  obtain ⟨i, bound, rfl⟩ := List.getElem_of_mem hr
  exact checked_of_states (states.get (states.length_eq ▸ bound) bound)

/-- **Columns asked for cover columns read.** Over tables in memory, once the query of a rule that was
accepted is answered, a batch of the answer fails to render only since a term map is for blank nodes or a
cell that is read has no text. The run of the rule is stopped only by its parent, its source, its tables,
their columns and keys, or such a row, and never by an error that guards against what an accepted rule
rules out. -/
theorem asked_columns_suffice {records : List RuleRecord} {rules : List MappingRule}
    (accepted : listOfRecords records = .ok rules) {r : MappingRule} (hr : r ∈ rules) (st : Store)
    (s : Settings) :
    (∀ p k batches, r.plan (SubjectIndex.ofRules rules) = .ok p → st.connect r.sourceName = .ok k →
      k.answer ⟨p.request, s.chunkSize, s.coerceFloat⟩ = .ok batches →
        ∀ b ∈ batches, ∀ e, p.render b = .error e → e.OfRow) ∧
    ∀ stop, (r.run (SubjectIndex.ofRules rules) st.dataSource s).outcome = .error stop →
      ∃ e, stop = .failed e ∧ r.Stops e ∧ e.isDefensive = false := by
  refine ⟨?_, ?_⟩
  · intro p k batches planned _ answered b hb e fails
    exact failsIn_render planned answered hb e fails
  · intro stop fails
    obtain ⟨e, rfl, stops⟩ := failsIn_run (checked_of_accepted accepted hr).conditions _ st s stop fails
    exact ⟨e, rfl, stops, stops.not_defensive⟩

/-- Visits of guests, in the graph of their day; the day of one of them is not known. -/
def visits : Batch :=
  ⟨[⟨⟨"id", .string, false⟩, ⟨.string, #[some "a", some "b"]⟩⟩,
    ⟨⟨"guest", .int64, false⟩, ⟨.int64, #[some 1, some 1]⟩⟩,
    ⟨⟨"day", .string, true⟩, ⟨.string, #[some "mon", none]⟩⟩], 2⟩

def visitors : Batch := ⟨[⟨⟨"no", .string, false⟩, ⟨.string, #[some "1"]⟩⟩], 1⟩

def visitStore : Store := ⟨[("db", [("visits", visits), ("visitors", visitors)])], 0, 0⟩

def visitRecord : RuleRecord where
  ruleId := "r1"
  triplesMapId := "visits"
  sourceName := "db"
  tableName := "visits"
  subject := { reference := "id" }
  predicate := { constant := "http://ex/guest" }
  parentTriplesMap := "visitors"
  joinConditions := [⟨"guest", "no"⟩]
  graph := { reference := "day" }

def visitorRecord : RuleRecord where
  ruleId := "r2"
  triplesMapId := "visitors"
  sourceName := "db"
  tableName := "visitors"
  subject := { reference := "no" }
  predicate := { constant := "http://ex/is" }
  object := { constant := "known" }

def visitRule : MappingRule :=
  ⟨"r1", "visits", "db", .table "visits", "", .plain (.column "id") .iri, .iri "http://ex/guest",
    .reference ⟨"visitors", [⟨"guest", "no"⟩]⟩, some (.plain (.column "day") .iri)⟩

def visitorRule : MappingRule :=
  ⟨"r2", "visitors", "db", .table "visitors", "", .plain (.column "no") .iri, .iri "http://ex/is",
    .term (.iri "known"), none⟩

theorem visits_joinable : Connection.Joinable visits visitors visitRule.columns.toList
    ((SubjectMap.ofRule visitorRule).columns ∪ TextSet.ofList ["no"]).toList [⟨"guest", "no"⟩] := by
  refine (joinable_iff (r := visitRule) (m := ⟨"visitors", [⟨"guest", "no"⟩]⟩) rfl).mpr ⟨?_, ?_, ?_, ?_⟩
  · simp only [columns, TextSet.mem_ofList]
    decide
  · simp only [SubjectMap.columns, ReferencingObjectMap.parentColumns, TextSet.mem_union,
      TextSet.mem_ofList, or_imp, forall_and]
    exact ⟨by decide, by decide⟩
  · have readable : ∀ c < visits.numRows, (visits.column? "guest").all fun column =>
        (column.text? c).toOption.isSome := by
      decide
    exact fun c hc => Batch.keyReadable_of_all (readable c hc)
  · have readable : ∀ p < visitors.numRows, (visitors.column? "no").all fun column =>
        (column.text? p).toOption.isSome := by
      decide
    exact fun p hp => Batch.keyReadable_of_all (readable p hp)

theorem not_lines?_visitRule (coerce : Bool) :
    visitRule.lines? (SubjectIndex.ofRules [visitRule, visitorRule]) visitStore coerce = none := by
  refine Option.eq_none_iff_forall_ne_some.mpr fun lines made => ?_
  obtain ⟨parent, C, P, joins, lines⟩ := (lines?_reference_eq_some_iff (r := visitRule) rfl).mp made
  obtain rfl : SubjectMap.ofRule visitorRule = parent := Option.some.inj joins.resolved
  obtain rfl : visits = C := Option.some.inj joins.child
  obtain rfl : visitors = P := Option.some.inj joins.table
  have matched : (1, 0) ∈ matchedPairs visits visitors [⟨"guest", "no"⟩] := by
    rw [mem_matchedPairs]
    decide
  obtain ⟨own, -⟩ := StatementMap.isSome_pairLine?_iff.mp (isSome_of_mapM lines (1, 0) matched)
  have day := (own (.plain (.column "day") .iri) (by decide)).2 "day" (by decide)
  cases coerce with
  | false => exact absurd day (by decide)
  | true => exact absurd day (by decide)

theorem answer_visits : ∃ p batches,
    visitRule.plan (SubjectIndex.ofRules [visitRule, visitorRule]) = .ok p ∧
      Connection.answer ⟨"db", [("visits", visits), ("visitors", visitors)]⟩ ⟨p.request, 1, false⟩ =
        .ok batches := by
  obtain ⟨left, hl⟩ := Batch.project_ok_iff.mpr visits_joinable.childColumns
  obtain ⟨right, hr⟩ := Batch.project_ok_iff.mpr visits_joinable.parentColumns
  have joined : Connection.join ⟨"db", [("visits", visits), ("visitors", visitors)]⟩
      ⟨.table "visits", visitRule.columns.toList⟩
      ⟨.table "visitors", ((SubjectMap.ofRule visitorRule).columns ∪ TextSet.ofList ["no"]).toList⟩
      [⟨"guest", "no"⟩] = .ok _ := Connection.join_eq_ok_iff.mpr
    ⟨by simp, visits, visitors, rfl, rfl, visits_joinable, left, right, hl, hr, rfl⟩
  exact ⟨_, _, rfl, map_eq_ok_iff.mpr ⟨_, joined, rfl⟩⟩

/-- The visit whose day is not known stops the rule, and no column is missing. -/
theorem asked_columns_suffice_visits :
    (∃ p batches, visitRule.plan (SubjectIndex.ofRules [visitRule, visitorRule]) = .ok p ∧
      Connection.answer ⟨"db", [("visits", visits), ("visitors", visitors)]⟩ ⟨p.request, 1, false⟩ =
        .ok batches ∧
      ∀ b ∈ batches, ∀ e, p.render b = .error e → e.OfRow) ∧
    ∃ e, (visitRule.run (SubjectIndex.ofRules [visitRule, visitorRule]) visitStore.dataSource
        { chunkSize := 1 }).outcome = .error (.failed e) ∧
      visitRule.Stops e ∧ e.isDefensive = false := by
  have accepted : listOfRecords [visitRecord, visitorRecord] = .ok [visitRule, visitorRule] := rfl
  obtain ⟨renders, stops⟩ := asked_columns_suffice accepted (r := visitRule) (by simp) visitStore
    { chunkSize := 1 }
  refine ⟨?_, ?_⟩
  · obtain ⟨p, batches, planned, answered⟩ := answer_visits
    exact ⟨p, batches, planned, answered, renders p _ batches planned rfl answered⟩
  · cases outcome : (visitRule.run (SubjectIndex.ofRules [visitRule, visitorRule]) visitStore.dataSource
        { chunkSize := 1 }).outcome with
    | ok out =>
      obtain ⟨lines, made, -⟩ := (run_eq_ok_iff (by decide)).mp outcome
      rw [not_lines?_visitRule] at made
      cases made
    | error stop =>
      obtain ⟨e, rfl, stops, guarded⟩ := stops stop outcome
      exact ⟨e, rfl, stops, guarded⟩

end MappingRule

end RdfMapping
