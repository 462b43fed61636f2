import RdfMapping.Proofs.Run.RuleMeaning

/-!
Rules that join.

`run_reference_rule` says exactly when such a rule succeeds and what it gives, in terms of the two
tables alone: a loop over their rows, and for each matched pair the line that the child row and the
parent row make. Prefixes, the columns that are asked for and the index of the keys do not show.
-/

namespace RdfMapping

theorem mapM_lineAt?_paired (m : StatementMap) (left right : Batch) (pairs : List (Nat × Nat))
    (coerce : Bool) :
    (List.range (left.paired right pairs).numRows).mapM
        (m.lineAt? ((left.paired right pairs).delivered coerce) .join) =
      pairs.mapM fun (c, p) =>
        m.pairLine? ((left.delivered coerce).row c) ((right.delivered coerce).row p) := by
  rw [← mapM_range_getElem? _ pairs]
  apply mapM_congr
  intro i hi
  have bound : i < pairs.length := List.mem_range.mp hi
  have here : pairs[i]? = some ((pairs[i]).1, (pairs[i]).2) := List.getElem?_eq_getElem bound
  rw [here, Option.bind_some, Batch.delivered_paired]
  simp only [StatementMap.lineAt?, StatementMap.pairLine?, TermRoles.join,
    Batch.rowAs_child_paired here, Batch.rowAs_parent_paired here]

theorem lines_of_matched_iff {m : StatementMap} {C P : Batch} {conditions : List JoinCondition}
    {own other : Batch} :
    (∃ lines, (matchedPairs C P conditions).mapM (fun (c, p) =>
        m.pairLine? (own.row c) (other.row p)) = some lines) ↔
      ∀ c < C.numRows, ∀ p < P.numRows, Matched C P conditions c p →
        (∀ x ∈ m.ownMaps, x.termType ≠ .blankNode ∧
          ∀ name ∈ x.columns, (own.cell? name c).isSome) ∧
        m.object.termType ≠ .blankNode ∧
          ∀ name ∈ m.object.columns, (other.cell? name p).isSome := by
  rw [← Option.isSome_iff_exists, isSome_mapM_iff]
  refine ⟨?_, ?_⟩
  · intro h c hc p hp matched
    have made := h (c, p) (mem_matchedPairs.mpr ⟨hc, hp, matched⟩)
    exact StatementMap.isSome_pairLine?_iff.mp made
  · intro h pair here
    obtain ⟨c, p⟩ := pair
    obtain ⟨hc, hp, matched⟩ := mem_matchedPairs.mp here
    exact StatementMap.isSome_pairLine?_iff.mpr (h c hc p hp matched)

namespace MappingRule

/-- The line of a row of the child table and a row of the parent table: subject, predicate and graph
are rendered from the one and the object, the subject of the parent, from the other, each row on its
own. -/
def JoinedLine (r : MappingRule) (parent : SubjectMap) (C P : Batch) (c p : Nat) (line : String) :
    Prop :=
  ∃ subject predicate object graph,
    r.subject.render (C.slice c 1) .plain = .ok [subject] ∧
    r.predicate.render (C.slice c 1) .plain = .ok [predicate] ∧
    parent.subject.render (P.slice p 1) .plain = .ok [object] ∧
    (r.statement parent.subject).renderGraph (C.slice c 1) .plain = .ok [graph] ∧
    line = subject ++ predicate ++ object ++ graph ++ "."

theorem joinedLine_iff {r : MappingRule} {parent : SubjectMap} {C P : Batch} {c p : Nat}
    (hc : c < C.numRows) (hp : p < P.numRows) {line : String} :
    r.JoinedLine parent C P c p line ↔
      (r.statement parent.subject).pairLine? (C.row c) (P.row p) = some line := by
  have graph : ∀ g, (r.statement parent.subject).renderGraph (C.slice c 1) .plain = .ok [g] ↔
      (r.statement parent.subject).graphTerm? (C.row c) = some g := by
    intro g
    simp only [StatementMap.renderGraph, StatementMap.graphTerm?]
    cases (r.statement parent.subject).namedGraph with
    | none => simp [Batch.numRows_slice_one hc]
    | some x => rw [← Batch.rowAs_plain, TermMap.render_row_iff hc]
  simp only [JoinedLine, graph, TermMap.render_row_iff hc, TermMap.render_row_iff hp,
    Batch.rowAs_plain, StatementMap.pairLine?, StatementMap.line?, Option.bind_eq_bind,
    Option.bind_eq_some_iff, Option.some.injEq]
  refine ⟨?_, ?_⟩
  · intro h
    obtain ⟨s, q, o, g, hs, hq, ho, hg, rfl⟩ := h
    exact ⟨s, hs, q, hq, o, ho, g, hg, rfl⟩
  · intro h
    obtain ⟨s, hs, q, hq, o, ho, g, hg, rfl⟩ := h
    exact ⟨s, q, o, g, hs, hq, ho, hg, rfl⟩

/-- What a joining rule finds in a store: its parent, conditions, and the two tables, each with the
columns that are read and a key in every row. -/
structure Joins (r : MappingRule) (m : ReferencingObjectMap) (index : SubjectIndex) (st : Store)
    (parent : SubjectMap) (C P : Batch) : Prop where
  resolved : index.find? m.parentTriplesMap = some parent
  conditions : m.joinConditions ≠ []
  source : parent.sourceName = r.sourceName
  child : st.held? r.sourceName r.logicalTable = some C
  table : st.held? r.sourceName parent.logicalTable = some P
  childColumns : ∀ name ∈ r.columns, (C.column? name).isSome
  parentColumns : ∀ name ∈ parent.columns ∪ m.parentColumns, (P.column? name).isSome
  childKeys : ∀ c < C.numRows, C.KeyReadable (m.joinConditions.map (·.childColumn)) c
  parentKeys : ∀ p < P.numRows, P.KeyReadable (m.joinConditions.map (·.parentColumn)) p

section Reference

variable {r : MappingRule} {m : ReferencingObjectMap} (object : r.object = .reference m)

include object in
theorem joinable_iff {parent : SubjectMap} {C P : Batch} :
    Connection.Joinable C P r.columns.toList (parent.columns ∪ m.parentColumns).toList
        m.joinConditions ↔
      (∀ name ∈ r.columns, (C.column? name).isSome) ∧
      (∀ name ∈ parent.columns ∪ m.parentColumns, (P.column? name).isSome) ∧
      (∀ c < C.numRows, C.KeyReadable (m.joinConditions.map (·.childColumn)) c) ∧
      ∀ p < P.numRows, P.KeyReadable (m.joinConditions.map (·.parentColumn)) p := by
  -- the columns that are compared are among those that are asked for
  have child : ∀ k ∈ m.joinConditions, k.childColumn ∈ r.columns := by
    intro k hk
    have compared : k.childColumn ∈ r.objectColumns := by
      rw [objectColumns, object]
      exact List.mem_map_of_mem hk
    simp [columns, compared]
  have parent : ∀ k ∈ m.joinConditions, k.parentColumn ∈ parent.columns ∪ m.parentColumns := by
    intro k hk
    have compared : k.parentColumn ∈ m.joinConditions.map (·.parentColumn) := List.mem_map_of_mem hk
    exact TextSet.mem_union.mpr (.inr (TextSet.mem_ofList.mpr compared))
  refine ⟨?_, ?_⟩
  · intro h
    exact ⟨h.childColumns, h.parentColumns, h.childKeys, h.parentKeys⟩
  · intro h
    obtain ⟨childColumns, parentColumns, childKeys, parentKeys⟩ := h
    exact ⟨fun k hk => childColumns _ (child k hk), fun k hk => parentColumns _ (parent k hk),
      childColumns, parentColumns, childKeys, parentKeys⟩

/-- The line of a pair of rows needs no more than the columns that are asked for. -/
theorem pairLine?_projected {parent : SubjectMap} {C P left right : Batch}
    (hl : C.project r.columns.toList = .ok left)
    (hr : P.project (parent.columns ∪ m.parentColumns).toList = .ok right) (coerce : Bool)
    (c p : Nat) :
    (r.statement parent.subject).pairLine? ((left.delivered coerce).row c)
        ((right.delivered coerce).row p) =
      (r.statement parent.subject).pairLine? ((C.delivered coerce).row c)
        ((P.delivered coerce).row p) := by
  apply StatementMap.pairLine?_congr
  · intro x hx name hn
    exact Batch.cell?_delivered_project hl (mem_columns_of_ownMaps hx hn) c
  · intro name hn
    have read : name ∈ parent.columns := TextSet.mem_ofList.mpr hn
    exact Batch.cell?_delivered_project hr (TextSet.mem_union.mpr (.inl read)) p

include object in
theorem lines?_reference_eq_some_iff {index : SubjectIndex} {st : Store} {coerce : Bool}
    {lines : List String} :
    r.lines? index st coerce = some lines ↔
      ∃ parent C P, r.Joins m index st parent C P ∧
        (matchedPairs C P m.joinConditions).mapM (fun (c, p) =>
          (r.statement parent.subject).pairLine? ((C.delivered coerce).row c)
            ((P.delivered coerce).row p)) = some lines := by
  simp only [lines?, object, Option.bind_eq_bind, Option.bind_eq_some_iff]
  refine ⟨?_, ?_⟩
  · intro h
    obtain ⟨parent, resolved, h⟩ := h
    split at h
    case isFalse => cases h
    case isTrue found =>
      obtain ⟨tables, hs, b, hb, hl⟩ := Store.lines?_eq_some_iff.mp h
      obtain ⟨-, C, P, hC, hP, there, left, right, hleft, hright, rfl⟩ :=
        Connection.join_eq_ok_iff.mp hb
      obtain ⟨childColumns, parentColumns, childKeys, parentKeys⟩ := (joinable_iff object).mp there
      refine ⟨parent, C, P, ⟨resolved, found.1, found.2, ?_, ?_, childColumns, parentColumns,
        childKeys, parentKeys⟩, ?_⟩
      · rw [Store.held?, hs]
        exact hC
      · rw [Store.held?, hs]
        exact hP
      · rw [mapM_lineAt?_paired] at hl
        simpa only [pairLine?_projected hleft hright coerce] using hl
  · intro h
    obtain ⟨parent, C, P, joins, hl⟩ := h
    obtain ⟨tables, hs, hC⟩ := Option.bind_eq_some_iff.mp joins.child
    have hP : tables.held? parent.logicalTable = some P := by
      have := joins.table
      rwa [Store.held?, hs] at this
    obtain ⟨left, hleft⟩ := Batch.project_ok_iff.mpr joins.childColumns
    obtain ⟨right, hright⟩ := Batch.project_ok_iff.mpr joins.parentColumns
    have there := (joinable_iff object).mpr
      ⟨joins.childColumns, joins.parentColumns, joins.childKeys, joins.parentKeys⟩
    refine ⟨parent, joins.resolved, ?_⟩
    rw [if_pos ⟨joins.conditions, joins.source⟩, Store.lines?_eq_some_iff]
    refine ⟨tables, hs, _, Connection.join_eq_ok_iff.mpr
      ⟨joins.conditions, C, P, hC, hP, there, left, right, hleft, hright, rfl⟩, ?_⟩
    rw [mapM_lineAt?_paired]
    simpa only [pairLine?_projected hleft hright coerce] using hl

include object in
/-- **Rules that join.** Such a rule succeeds exactly if it finds what it joins (`Joins`) and every
matched pair of rows gives a line: no term map is for a blank node, the cells that subject, predicate
and graph read have a text in the child row and those that the subject of the parent reads have one in
the parent row. The lines are then those of the matched pairs, one for each. -/
theorem run_reference_rule (index : SubjectIndex) (st : Store) {s : Settings}
    (chunks : 0 < s.chunkSize) :
    ((∃ out, (r.run index st.dataSource s).outcome = .ok out) ↔
      ∃ parent C P, r.Joins m index st parent C P ∧
        ∀ c < C.numRows, ∀ p < P.numRows, Matched C P m.joinConditions c p →
          (∀ x ∈ (r.statement parent.subject).ownMaps, x.termType ≠ .blankNode ∧
            ∀ name ∈ x.columns, ((C.delivered s.coerceFloat).cell? name c).isSome) ∧
          parent.subject.termType ≠ .blankNode ∧
            ∀ name ∈ parent.subject.columns, ((P.delivered s.coerceFloat).cell? name p).isSome) ∧
    ∀ out, (r.run index st.dataSource s).outcome = .ok out →
      ∃ parent C P, r.Joins m index st parent C P ∧
        (∃ line : Nat → Nat → String,
          (∀ c < C.numRows, ∀ p < P.numRows, Matched C P m.joinConditions c p →
            r.JoinedLine parent (C.delivered s.coerceFloat) (P.delivered s.coerceFloat) c p
              (line c p)) ∧
          ∀ text, text ∈ out.lines ↔ ∃ c < C.numRows, ∃ p < P.numRows,
            Matched C P m.joinConditions c p ∧ text = line c p) ∧
        out.rows = ((Finset.range C.numRows ×ˢ Finset.range P.numRows).filter fun pair =>
          Matched C P m.joinConditions pair.1 pair.2).card ∧
        out.batches = out.rows ⌈/⌉ s.chunkSize := by
  simp only [run_eq_ok_iff chunks, lines?_reference_eq_some_iff object]
  refine ⟨?_, ?_⟩
  · refine ⟨?_, ?_⟩
    · intro h
      obtain ⟨-, lines, ⟨parent, C, P, joins, hl⟩, rfl⟩ := h
      exact ⟨parent, C, P, joins, lines_of_matched_iff.mp ⟨lines, hl⟩⟩
    · intro h
      obtain ⟨parent, C, P, joins, made⟩ := h
      obtain ⟨lines, hl⟩ := lines_of_matched_iff (m := r.statement parent.subject).mpr made
      exact ⟨_, lines, ⟨parent, C, P, joins, hl⟩, rfl⟩
  · intro out h
    obtain ⟨lines, ⟨parent, C, P, joins, hl⟩, rfl⟩ := h
    -- each matched pair has its line, though lines of several pairs may be the same
    obtain ⟨line, made, rfl⟩ := exists_of_mapM hl
    refine ⟨parent, C, P, joins, ⟨fun c p => line (c, p), ?_, fun text => ?_⟩, ?_, rfl⟩
    · intro c hc p hp matched
      rw [joinedLine_iff (by simpa using hc) (by simpa using hp)]
      exact made (c, p) (mem_matchedPairs.mpr ⟨hc, hp, matched⟩)
    · simp only [RuleOutput.ofLines, TextSet.mem_ofList, List.mem_map, Prod.exists, mem_matchedPairs]
      refine ⟨?_, ?_⟩
      · intro h
        obtain ⟨c, p, ⟨hc, hp, matched⟩, rfl⟩ := h
        exact ⟨c, hc, p, hp, matched, rfl⟩
      · intro h
        obtain ⟨c, hc, p, hp, matched, rfl⟩ := h
        exact ⟨c, p, ⟨hc, hp, matched⟩, rfl⟩
    · rw [← length_matchedPairs]
      exact List.length_map _

end Reference

/-- Orders with the number of a customer, one of them unknown. -/
def orders : Batch :=
  ⟨[⟨⟨"id", .string, false⟩, ⟨.string, #[some "a", some "b", some "c"]⟩⟩,
    ⟨⟨"customer", .int64, true⟩, ⟨.int64, #[some 1, none, some 1]⟩⟩], 3⟩

def customers : Batch := ⟨[⟨⟨"id", .string, false⟩, ⟨.string, #[some "2", some "1"]⟩⟩], 2⟩

def customerSubject : SubjectMap :=
  ⟨"customers", "db", .table "customers", .plain (.column "id") .iri⟩

def customerOfOrder : ReferencingObjectMap := ⟨"customers", [⟨"customer", "id"⟩]⟩

def orderRule : MappingRule :=
  ⟨"r1", "orders", "db", .table "orders", "p1", .plain (.column "id") .iri,
    .iri "http://ex/customer", .reference customerOfOrder, none⟩

def orderStore : Store := ⟨[("db", [("orders", orders), ("customers", customers)])], 0, 0⟩

theorem orderRule_joins :
    orderRule.Joins customerOfOrder ⟨[customerSubject]⟩ orderStore customerSubject orders
      customers where
  resolved := rfl
  conditions := by decide
  source := rfl
  child := rfl
  table := rfl
  childColumns := by
    simp only [columns, TextSet.mem_ofList]
    decide
  parentColumns := by
    simp only [SubjectMap.columns, ReferencingObjectMap.parentColumns, TextSet.mem_union,
      TextSet.mem_ofList, or_imp, forall_and]
    exact ⟨by decide, by decide⟩
  childKeys := by
    have readable : ∀ c < orders.numRows, (orders.column? "customer").all fun column =>
        (column.text? c).toOption.isSome := by
      decide
    exact fun c hc => Batch.keyReadable_of_all (readable c hc)
  parentKeys := by
    have readable : ∀ p < customers.numRows, (customers.column? "id").all fun column =>
        (column.text? p).toOption.isSome := by
      decide
    exact fun p hp => Batch.keyReadable_of_all (readable p hp)

theorem run_orderRule : ∃ out, (orderRule.run ⟨[customerSubject]⟩ orderStore.dataSource
    { chunkSize := 1 }).outcome = .ok out := by
  have own : ∀ c < orders.numRows, ∀ x ∈ (orderRule.statement customerSubject.subject).ownMaps,
      x.termType ≠ .blankNode ∧ ∀ name ∈ x.columns, (orders.cell? name c).isSome := by
    decide
  have other : ∀ p < customers.numRows, ∀ name ∈ customerSubject.subject.columns,
      (customers.cell? name p).isSome := by
    decide
  have succeeds := (run_reference_rule (r := orderRule) rfl ⟨[customerSubject]⟩ orderStore
    (s := { chunkSize := 1 }) (by decide)).1
  refine succeeds.mpr ⟨_, orders, customers, orderRule_joins, fun c hc p hp _ => ?_⟩
  exact ⟨own c hc, by decide, other p hp⟩

end MappingRule

end RdfMapping
