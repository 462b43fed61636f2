import RdfMapping.Proofs.Run.Chunks
import RdfMapping.Proofs.Source.Answer

/-!
What a rule gives, without connections and chunks.

`MappingRule.lines?` are the lines of a rule over a store, one for each row of the answer, or nothing
if there is no answer or a row gives no line. Running the rule gives these lines, in as many batches as
the size of the chunks asks for, and fails exactly if there are none (`toOption_run`). The size
of the chunks decides nothing else.
-/

namespace RdfMapping

/-- The lines of the rows of a store's answer, as it is delivered. -/
def Store.lines? (st : Store) (source : String) (request : Request) (coerce : Bool)
    (m : StatementMap) (roles : TermRoles) : Option (List String) := do
  let tables ← st.tables? source
  let b ← ((Connection.mk source tables).select request).toOption
  (List.range b.numRows).mapM (m.lineAt? (b.delivered coerce) roles)

namespace Connection

theorem toOption_run (k : Connection) (request : Request) (coerce : Bool) (m : StatementMap)
    (roles : TermRoles) {size : Nat} (h : 0 < size) :
    (k.session.run ⟨request, size, coerce⟩ (m.render · roles)).toOption =
      ((k.select request).toOption.bind fun b =>
        (List.range b.numRows).mapM (m.lineAt? (b.delivered coerce) roles)).map
          (RuleOutput.ofLines size) := by
  simp only [Session.run, Connection.session, Connection.answer]
  cases k.select request with
  | error e => rfl
  | ok b =>
    have drained := drain_chunks m (b.delivered coerce) roles h
    rw [Batch.numRows_delivered] at drained
    exact drained

end Connection

theorem Session.runAndClose_eq (s : Session) (q : Query) (render : Renderer) :
    s.runAndClose q render = s.close.settle.andThen fun closed =>
      .ofResult (s.run q render >>= fun out => closed >>= fun _ => .ok out) := by
  unfold Session.runAndClose
  cases s.run q render <;> rfl

namespace Store

/-- The table that a logical table names in a source. -/
def held? (st : Store) (source : String) (t : LogicalTable) : Option Batch :=
  (st.tables? source).bind (·.held? t)

theorem lines?_eq_some_iff {st : Store} {source : String} {request : Request} {coerce : Bool}
    {m : StatementMap} {roles : TermRoles} {lines : List String} :
    st.lines? source request coerce m roles = some lines ↔
      ∃ tables, st.tables? source = some tables ∧
        ∃ b, (Connection.mk source tables).select request = .ok b ∧
          (List.range b.numRows).mapM (m.lineAt? (b.delivered coerce) roles) = some lines := by
  simp only [lines?, Option.bind_eq_bind, Option.bind_eq_some_iff, toOption_eq_some_iff]

/-- A query over a store opens and closes one connection, if the source is known, and gives what the
connection does, for to close it never fails. -/
theorem run_eq (st : Store) (source : String) (q : Query) (render : Renderer) :
    st.dataSource.run source q render =
      match st.connect source with
      | .ok k => ⟨[.opened, .closed], (k.session.run q render).mapError .failed⟩
      | .error e => .failed e := by
  simp only [DataSource.run, Store.dataSource]
  cases st.connect source with
  | error e => rfl
  | ok k =>
    have closed : k.session.runAndClose q render =
        ⟨[.closed], (k.session.run q render).mapError .failed⟩ := by
      rw [Session.runAndClose_eq]
      cases k.session.run q render <;> rfl
    show (⟨[.opened] ++ (k.session.runAndClose q render).journal,
      (k.session.runAndClose q render).outcome⟩ : Attempt RuleOutput) = _
    rw [closed]
    rfl

theorem outcome_run (st : Store) (source : String) (q : Query) (render : Renderer) :
    (st.dataSource.run source q render).outcome =
      (st.connect source >>= fun k => k.session.run q render).mapError .failed := by
  rw [run_eq]
  cases st.connect source <;> rfl

theorem toOption_run (st : Store) (source : String) (request : Request) (coerce : Bool)
    (m : StatementMap) (roles : TermRoles) {size : Nat} (h : 0 < size) :
    (st.dataSource.run source ⟨request, size, coerce⟩ (m.render · roles)).outcome.toOption =
      (st.lines? source request coerce m roles).map (RuleOutput.ofLines size) := by
  rw [outcome_run, toOption_mapError, toOption_bind, connect, lines?]
  cases st.tables? source with
  | none => rfl
  | some tables => exact Connection.toOption_run ⟨source, tables⟩ request coerce m roles h

end Store

namespace MappingRule

theorem mem_columns_of_ownMaps {r : MappingRule} {o x : TermMap} (hx : x ∈ (r.statement o).ownMaps)
    {name : String} (hn : name ∈ x.columns) : name ∈ r.columns := by
  simp only [columns, TextSet.mem_ofList, List.mem_append]
  simp only [StatementMap.ownMaps, statement, List.mem_cons, Option.mem_toList] at hx
  rcases hx with rfl | rfl | hx
  · exact .inl (.inl (.inl hn))
  · exact .inl (.inl (.inr hn))
  · have graph : r.graph = some x := (Option.filter_eq_some_iff.mp hx).1
    refine .inl (.inr ?_)
    simpa [graph] using hn

def lines? (r : MappingRule) (index : SubjectIndex) (st : Store) (coerce : Bool) :
    Option (List String) :=
  match r.object with
  | .term o =>
    st.lines? r.sourceName (.project ⟨r.logicalTable, r.columns.toList⟩) coerce
      (r.statement o) .plain
  | .reference m => do
    let parent ← index.find? m.parentTriplesMap
    if m.joinConditions ≠ [] ∧ parent.sourceName = r.sourceName then
      st.lines? r.sourceName
        (.join ⟨r.logicalTable, r.columns.toList⟩
          ⟨parent.logicalTable, (parent.columns ∪ m.parentColumns).toList⟩ m.joinConditions)
        coerce (r.statement parent.subject) .join
    else none

theorem toOption_joinPlan (r : MappingRule) (m : ReferencingObjectMap) (index : SubjectIndex) :
    (r.joinPlan m index).toOption = (index.find? m.parentTriplesMap).bind fun parent =>
      if m.joinConditions ≠ [] ∧ parent.sourceName = r.sourceName then
        some ⟨.join ⟨r.logicalTable, r.columns.toList⟩
          ⟨parent.logicalTable, (parent.columns ∪ m.parentColumns).toList⟩ m.joinConditions,
          r.renderJoined parent⟩
      else none := by
  simp only [joinPlan, SubjectIndex.resolve, ReferencingObjectMap.hasConditions]
  cases index.find? m.parentTriplesMap with
  | none => rfl
  | some parent =>
    by_cases conditions : m.joinConditions = []
    · simp [conditions]
    · by_cases source : parent.sourceName = r.sourceName <;> simp [conditions, source]

theorem outcome_run (r : MappingRule) (index : SubjectIndex) (d : DataSource) (s : Settings) :
    (r.run index d s).outcome.toOption = (r.plan index).toOption.bind fun p =>
      (d.run r.sourceName ⟨p.request, s.chunkSize, s.coerceFloat⟩ p.render).outcome.toOption := by
  rw [run]
  cases r.plan index <;> rfl

/-- Running a rule gives its lines, cut into batches. -/
theorem toOption_run (r : MappingRule) (index : SubjectIndex) (st : Store) {s : Settings}
    (h : 0 < s.chunkSize) :
    (r.run index st.dataSource s).outcome.toOption =
      (r.lines? index st s.coerceFloat).map (RuleOutput.ofLines s.chunkSize) := by
  rw [outcome_run]
  cases hr : r.object with
  | term o =>
    have render : r.render = ((r.statement o).render · .plain) := by
      funext b
      rw [MappingRule.render, hr, statement]
    simp only [plan, lines?, hr, toOption_ok, Option.bind_some, render]
    exact st.toOption_run _ _ _ _ _ h
  | reference m =>
    simp only [plan, lines?, hr, toOption_joinPlan]
    cases index.find? m.parentTriplesMap with
    | none => rfl
    | some parent =>
      simp only [Option.bind_eq_bind, Option.bind_some]
      split
      · exact st.toOption_run _ _ _ _ _ h
      · rfl

/-- Whether a rule succeeds, and with what, is whether it has lines, and which. -/
theorem run_eq_ok_iff {r : MappingRule} {index : SubjectIndex} {st : Store} {s : Settings}
    (h : 0 < s.chunkSize) {out : RuleOutput} :
    (r.run index st.dataSource s).outcome = .ok out ↔
      ∃ lines, r.lines? index st s.coerceFloat = some lines ∧
        out = RuleOutput.ofLines s.chunkSize lines := by
  rw [← toOption_eq_some_iff, r.toOption_run index st h, Option.map_eq_some_iff]
  exact exists_congr fun lines => and_congr_right fun _ => eq_comm

end MappingRule

end RdfMapping
