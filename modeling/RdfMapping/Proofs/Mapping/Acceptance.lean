import RdfMapping.Mapping.Record
import RdfMapping.Proofs.Outcome

/-!
Which records are accepted, and as what.

`TermMapRecord.Makes` says which term map a record makes at a position, and `RuleRecord.States` which
rule a record states. The checks compute these relations (`TermMapRecord.compile_eq_ok_iff`,
`RuleRecord.toRule_eq_ok_iff`), so a record is accepted exactly if it has what the relations need, which
`Acceptable` lists, and what they need holds of every accepted rule
(`RuleRecord.toRule_accepts`).
-/

namespace RdfMapping

/-! ## Term types -/

def TermType.iris : List (String × TermType) := [
  ("http://www.w3.org/ns/r2rml#IRI", .iri),
  ("http://www.w3.org/ns/r2rml#BlankNode", .blankNode),
  ("http://www.w3.org/ns/r2rml#Literal", .literal),
  ("http://w3id.org/rml/IRI", .iri),
  ("http://w3id.org/rml/BlankNode", .blankNode),
  ("http://w3id.org/rml/Literal", .literal)]

def defaultGraphs : List String :=
  ["http://www.w3.org/ns/r2rml#defaultGraph", "http://w3id.org/rml/defaultGraph"]

/-- A text that has only blank characters around another one. -/
def BlankAround (text inner : String) : Prop :=
  ∃ before after, text.toList = before ++ (inner.toList ++ after) ∧
    (∀ c ∈ before, isBlank c = true) ∧ ∀ c ∈ after, isBlank c = true

/-- The term types that may stand at a position: any for an object, no literal for a subject, and IRIs
only elsewhere. -/
def TermPosition.Admits (position : TermPosition) (t : TermType) : Prop :=
  position = .object ∨ t = .iri ∨ (position = .subject ∧ t = .blankNode)

theorem TermPosition.allows_iff (position : TermPosition) (t : TermType) :
    position.allows t = true ↔ position.Admits t := by
  cases position <;> cases t <;> simp [allows, Admits]

theorem TermType.ofIri?_eq_some_iff {text : String} {t : TermType} :
    ofIri? text = some t ↔ (text, t) ∈ iris := by
  have names : ∀ u : TermType, (text == r2rml ++ u.localName || text == rml ++ u.localName) = true ↔
      (text, u) ∈ iris := by
    intro u
    cases u <;> simp [iris, localName, r2rml, rml]
  refine ⟨fun h => ?_, fun h => ?_⟩
  · have found := List.find?_some h
    exact (names t).mp found
  · simp only [iris, List.mem_cons, Prod.mk.injEq, List.not_mem_nil, or_false] at h
    obtain ⟨rfl, rfl⟩ | ⟨rfl, rfl⟩ | ⟨rfl, rfl⟩ | ⟨rfl, rfl⟩ | ⟨rfl, rfl⟩ | ⟨rfl, rfl⟩ := h <;> rfl

theorem trim_eq_iff {text iri : String} {t : TermType} (known : (iri, t) ∈ TermType.iris) :
    trim text = iri ↔ BlankAround text iri := by
  have ends : TermType.iris.all (fun p => p.1.toList.head?.all (!isBlank ·) &&
      p.1.toList.getLast?.all (!isBlank ·)) = true := rfl
  have here := List.all_eq_true.mp ends _ known
  simp only [Bool.and_eq_true, Option.all_eq_true, Bool.not_eq_true'] at here
  obtain ⟨first, last⟩ := here
  rw [trim, ← String.toList_inj, String.toList_ofList, trimBlanks_eq_iff]
  exact ⟨fun h => h.2.2, fun h => ⟨first, last, h⟩⟩

theorem TermMap.isDefaultGraph_iff (m : TermMap) :
    m.isDefaultGraph = true ↔ ∃ iri ∈ defaultGraphs, m.value = .constant iri := by
  cases h : m.value with
  | constant text =>
    simp [TermMap.isDefaultGraph, h, RdfMapping.isDefaultGraph, defaultGraphs, r2rml, rml]
  | _ => simp [TermMap.isDefaultGraph, h]

/-! ## Term maps -/

namespace TermMapRecord

variable (r : TermMapRecord) (position : TermPosition)

/-- The term type of a record at a position: the one whose IRI it gives, perhaps between blank
characters; without one a literal, for an object that reads a column or has a language or a datatype, and
else an IRI. -/
inductive HasType : TermType → Prop
  | given {text iri t} (termType : r.termType = some text) (around : BlankAround text iri)
      (known : (iri, t) ∈ TermType.iris) : HasType t
  | literal (termType : r.termType = none) (object : position = .object)
      (marked : r.reference ≠ none ∨ r.language ≠ none ∨ r.datatype ≠ none) : HasType .literal
  | iri (termType : r.termType = none)
      (plain : position = .object → r.reference = none ∧ r.language = none ∧ r.datatype = none) :
      HasType .iri

/-- The value of a record that gives one of the three, with a template that is one. -/
inductive HasValue : TermValue → Prop
  | template {pattern t} (given : r.template = some pattern) (noColumn : r.reference = none)
      (noConstant : r.constant = none) (reads : Template.parse pattern = .ok t) :
      HasValue (.template t)
  | column {name} (noTemplate : r.template = none) (given : r.reference = some name)
      (noConstant : r.constant = none) : HasValue (.column name)
  | constant {text} (noTemplate : r.template = none) (noColumn : r.reference = none)
      (given : r.constant = some text) : HasValue (.constant text)

structure Makes (m : TermMap) : Prop where
  termType : r.HasType position m.termType
  admitted : position.Admits m.termType
  value : r.HasValue m.value
  language : m.language = r.language
  datatype : m.datatype = r.datatype
  notBoth : r.language = none ∨ r.datatype = none

structure Acceptable : Prop where
  termType : ∃ t, r.HasType position t ∧ position.Admits t
  oneValue : [r.template.isSome, r.reference.isSome, r.constant.isSome].count true = 1
  template : ∀ pattern, r.template = some pattern → ∃ t, Template.parse pattern = .ok t
  notBoth : ¬(r.language ≠ none ∧ r.datatype ≠ none)

def Bare : Prop := r.template = none ∧ r.reference = none ∧ r.constant = none

variable {r position}

theorem isEmpty_iff : r.isEmpty = true ↔ r.Bare := by
  simp [isEmpty, Bare, and_assoc]

theorem statedTermType_eq_ok_iff {t : TermType} :
    r.statedTermType position = .ok t ↔ r.HasType position t := by
  refine ⟨fun h => ?_, ?_⟩
  · rw [statedTermType] at h
    split at h
    case h_1 text given =>
      split at h
      case h_2 => cases h
      case h_1 known =>
        cases h
        have known := TermType.ofIri?_eq_some_iff.mp known
        exact .given given ((trim_eq_iff known).mp rfl) known
    case h_2 absent =>
      obtain rfl := Except.ok.inj h
      rw [defaultTermType]
      split
      case isTrue marked =>
        exact .literal absent marked.1 (by simpa [Option.isSome_iff_ne_none] using marked.2)
      case isFalse plain =>
        refine .iri absent fun object => ?_
        simpa [object, not_or] using plain
  · intro h
    cases h with
    | given given around known =>
      simp only [statedTermType, given, (trim_eq_iff known).mpr around,
        TermType.ofIri?_eq_some_iff.mpr known]
    | literal absent object marked =>
      have marked : r.reference.isSome ∨ r.language.isSome ∨ r.datatype.isSome := by
        simpa only [Option.isSome_iff_ne_none] using marked
      simp only [statedTermType, absent, defaultTermType, if_pos (And.intro object marked)]
    | iri absent plain =>
      have plain : ¬(position = .object ∧
          (r.reference.isSome ∨ r.language.isSome ∨ r.datatype.isSome)) := by
        intro h
        obtain ⟨object, marked⟩ := h
        simp [plain object] at marked
      simp only [statedTermType, absent, defaultTermType, if_neg plain]

theorem value_eq_ok_iff {v : TermValue} : r.value position = .ok v ↔ r.HasValue v := by
  refine ⟨fun h => ?_, ?_⟩
  · rw [value] at h
    split at h
    case h_1 pattern given noColumn noConstant =>
      rw [TermValue.ofTemplate] at h
      split at h
      case h_1 reads =>
        cases h
        exact .template given noColumn noConstant reads
      case h_2 => cases h
    case h_2 name noTemplate given noConstant =>
      cases h
      exact .column noTemplate given noConstant
    case h_3 text noTemplate noColumn given =>
      cases h
      exact .constant noTemplate noColumn given
    all_goals cases h
  · intro h
    cases h with
    | template given noColumn noConstant reads =>
      simp only [value, given, noColumn, noConstant, TermValue.ofTemplate, reads]
    | column noTemplate given noConstant => simp only [value, noTemplate, given, noConstant]
    | constant noTemplate noColumn given => simp only [value, noTemplate, noColumn, given]

theorem make_eq_ok_iff {v : TermValue} {t : TermType} {language datatype : Option String}
    {m : TermMap} :
    TermMap.make v t language datatype = .ok m ↔
      m = ⟨v, t, language, datatype⟩ ∧ (language = none ∨ datatype = none) := by
  rw [TermMap.make]
  cases language <;> cases datatype <;> simp [eq_comm]

/-- The checks of a term map accept what the record makes, and nothing else. -/
theorem compile_eq_ok_iff {m : TermMap} : r.compile position = .ok m ↔ r.Makes position m := by
  simp only [compile, bind_eq_ok_iff, statedTermType_eq_ok_iff]
  refine ⟨?_, ?_⟩
  · intro h
    obtain ⟨t, termType, h⟩ := h
    split at h
    case isFalse => cases h
    case isTrue admitted =>
      obtain ⟨v, value, h⟩ := bind_eq_ok_iff.mp h
      obtain ⟨rfl, notBoth⟩ := make_eq_ok_iff.mp h
      exact ⟨termType, (position.allows_iff t).mp admitted, value_eq_ok_iff.mp value, rfl, rfl, notBoth⟩
  · intro h
    obtain ⟨termType, admitted, value, language, datatype, notBoth⟩ := h
    refine ⟨_, termType, ?_⟩
    rw [if_pos ((position.allows_iff _).mpr admitted), bind_eq_ok_iff]
    refine ⟨_, value_eq_ok_iff.mpr value, make_eq_ok_iff.mpr ⟨?_, notBoth⟩⟩
    rw [← language, ← datatype]

theorem exists_hasValue_iff :
    (∃ v, r.HasValue v) ↔ [r.template.isSome, r.reference.isSome, r.constant.isSome].count true = 1 ∧
      ∀ pattern, r.template = some pattern → ∃ t, Template.parse pattern = .ok t := by
  refine ⟨?_, ?_⟩
  · intro h
    obtain ⟨v, hasValue⟩ := h
    cases hasValue with
    | template given noColumn noConstant reads =>
      refine ⟨by simp [given, noColumn, noConstant], fun pattern h => ?_⟩
      obtain rfl := Option.some.inj (given.symm.trans h)
      exact ⟨_, reads⟩
    | column noTemplate given noConstant =>
      exact ⟨by simp [noTemplate, given, noConstant], by simp [noTemplate]⟩
    | constant noTemplate noColumn given =>
      exact ⟨by simp [noTemplate, noColumn, given], by simp [noTemplate]⟩
  · intro h
    obtain ⟨one, reads⟩ := h
    cases template : r.template <;> cases column : r.reference <;> cases constant : r.constant <;>
      simp [template, column, constant] at one
    case none.none.some => exact ⟨_, .constant template column constant⟩
    case none.some.none => exact ⟨_, .column template column constant⟩
    case some.none.none pattern =>
      obtain ⟨t, parsed⟩ := reads pattern template
      exact ⟨_, .template template column constant parsed⟩

theorem exists_makes_iff : (∃ m, r.Makes position m) ↔ r.Acceptable position := by
  refine ⟨?_, ?_⟩
  · intro h
    obtain ⟨m, makes⟩ := h
    obtain ⟨oneValue, template⟩ := exists_hasValue_iff.mp ⟨_, makes.value⟩
    refine ⟨⟨_, makes.termType, makes.admitted⟩, oneValue, template, ?_⟩
    intro h
    obtain ⟨language, datatype⟩ := h
    exact makes.notBoth.elim language datatype
  · intro h
    obtain ⟨⟨t, termType, admitted⟩, oneValue, template, notBoth⟩ := h
    obtain ⟨v, value⟩ := exists_hasValue_iff.mpr ⟨oneValue, template⟩
    refine ⟨⟨v, t, r.language, r.datatype⟩, termType, admitted, value, rfl, rfl, ?_⟩
    exact or_iff_not_imp_left.mpr fun language =>
      not_not.mp fun datatype => notBoth ⟨language, datatype⟩

theorem Makes.not_isEmpty {m : TermMap} (h : r.Makes position m) : r.isEmpty = false := by
  refine Bool.eq_false_iff.mpr fun bare => ?_
  obtain ⟨oneValue, -⟩ := exists_hasValue_iff.mp ⟨_, h.value⟩
  obtain ⟨noTemplate, noColumn, noConstant⟩ := isEmpty_iff.mp bare
  simp [noTemplate, noColumn, noConstant] at oneValue

end TermMapRecord

/-! ## Rules -/

namespace RuleRecord

variable (r : RuleRecord)

/-- The logical table of a record that gives a table or a query. -/
inductive HasTable : LogicalTable → Prop
  | table {name} (given : r.tableName = some name) (noQuery : r.sqlQuery = none) :
      HasTable (.table name)
  | query {sql} (noTable : r.tableName = none) (given : r.sqlQuery = some sql) :
      HasTable (.query sql)

/-- The object of a record: a parent with conditions and no term map, or a term map alone. -/
inductive HasObject : ObjectMap → Prop
  | reference {parent} (given : r.parentTriplesMap = some parent) (bare : r.object.Bare)
      (conditions : r.joinConditions ≠ []) : HasObject (.reference ⟨parent, r.joinConditions⟩)
  | term {m} (noParent : r.parentTriplesMap = none) (noConditions : r.joinConditions = [])
      (makes : r.object.Makes .object m) : HasObject (.term m)

/-- The graph of a record, which is none also if the record makes a term map for the default graph. -/
inductive HasGraph : Option TermMap → Prop
  | bare (bare : r.graph.Bare) : HasGraph none
  | default {m iri} (makes : r.graph.Makes .graph m) (known : iri ∈ defaultGraphs)
      (names : m.value = .constant iri) : HasGraph none
  | named {m} (makes : r.graph.Makes .graph m)
      (other : ∀ iri ∈ defaultGraphs, m.value ≠ .constant iri) : HasGraph (some m)

structure States (rule : MappingRule) : Prop where
  ruleId : rule.ruleId = r.ruleId
  triplesMapId : rule.triplesMapId = r.triplesMapId ∧ r.triplesMapId ≠ ""
  sourceName : rule.sourceName = r.sourceName
  partitionId : rule.partitionId = r.partitionId
  logicalTable : r.HasTable rule.logicalTable
  subject : r.subject.Makes .subject rule.subject
  predicate : r.predicate.Makes .predicate rule.predicate
  object : r.HasObject rule.object
  graph : r.HasGraph rule.graph

structure Acceptable : Prop where
  triplesMapId : r.triplesMapId ≠ ""
  oneTable : [r.tableName.isSome, r.sqlQuery.isSome].count true = 1
  subject : r.subject.Acceptable .subject
  predicate : r.predicate.Acceptable .predicate
  object : (r.parentTriplesMap ≠ none ∧ r.object.Bare ∧ r.joinConditions ≠ []) ∨
    (r.parentTriplesMap = none ∧ r.joinConditions = [] ∧ r.object.Acceptable .object)
  graph : r.graph.Bare ∨ r.graph.Acceptable .graph

variable {r}

theorem logicalTable_eq_ok_iff {table : LogicalTable} :
    r.logicalTable = .ok table ↔ r.HasTable table := by
  refine ⟨fun h => ?_, ?_⟩
  · rw [logicalTable] at h
    split at h
    case h_1 name given noQuery =>
      cases h
      exact .table given noQuery
    case h_2 sql noTable given =>
      cases h
      exact .query noTable given
    all_goals cases h
  · intro h
    cases h with
    | table given noQuery => simp only [logicalTable, given, noQuery]
    | query noTable given => simp only [logicalTable, noTable, given]

theorem termMap_eq_ok_iff {m : TermMapRecord} {position : TermPosition} {t : TermMap} :
    termMap m position = .ok t ↔ m.Makes position t := by
  rw [termMap, mapError_eq_ok_iff, TermMapRecord.compile_eq_ok_iff]

theorem objectMap_eq_ok_iff {object : ObjectMap} :
    r.objectMap = .ok object ↔ r.HasObject object := by
  refine ⟨fun h => ?_, ?_⟩
  · rw [objectMap] at h
    split at h
    case h_1 parent given =>
      split_ifs at h with stated noConditions
      cases h
      exact .reference given (TermMapRecord.isEmpty_iff.mp (by simpa using stated))
        (by simpa using noConditions)
    case h_2 noParent =>
      split_ifs at h with conditions
      obtain ⟨m, makes, rfl⟩ := map_eq_ok_iff.mp h
      exact .term noParent (by simpa using conditions) (termMap_eq_ok_iff.mp makes)
  · intro h
    cases h with
    | reference given bare conditions =>
      simp [objectMap, given, TermMapRecord.isEmpty_iff.mpr bare, conditions]
    | term noParent noConditions makes =>
      simp [objectMap, noParent, noConditions, termMap_eq_ok_iff.mpr makes, Except.map]

theorem graphMap_eq_ok_iff {graph : Option TermMap} :
    r.graphMap = .ok graph ↔ r.HasGraph graph := by
  refine ⟨fun h => ?_, ?_⟩
  · rw [graphMap] at h
    split_ifs at h with bare
    · cases h
      exact .bare (TermMapRecord.isEmpty_iff.mp bare)
    · obtain ⟨m, makes, rfl⟩ := map_eq_ok_iff.mp h
      have makes := termMap_eq_ok_iff.mp makes
      split_ifs with default
      · obtain ⟨iri, known, names⟩ := m.isDefaultGraph_iff.mp default
        exact .default makes known names
      · exact .named makes fun iri known names =>
          default (m.isDefaultGraph_iff.mpr ⟨iri, known, names⟩)
  · intro h
    cases h with
    | bare bare => rw [graphMap, if_pos (TermMapRecord.isEmpty_iff.mpr bare)]
    | default makes known names =>
      have default := (TermMap.isDefaultGraph_iff _).mpr ⟨_, known, names⟩
      simp [graphMap, makes.not_isEmpty, termMap_eq_ok_iff.mpr makes, Except.map, default]
    | @named m makes other =>
      have named : m.isDefaultGraph = false := by
        refine Bool.eq_false_iff.mpr fun default => ?_
        obtain ⟨iri, known, names⟩ := m.isDefaultGraph_iff.mp default
        exact other iri known names
      simp [graphMap, makes.not_isEmpty, termMap_eq_ok_iff.mpr makes, Except.map, named]

/-- The checks of a rule accept what the record states, and nothing else. -/
theorem compile_eq_ok_iff {rule : MappingRule} : r.compile = .ok rule ↔ r.States rule := by
  rw [compile]
  split_ifs with missing
  · refine ⟨fun h => ?_, fun h => absurd missing h.triplesMapId.2⟩
    cases h
  · simp only [bind_eq_ok_iff, logicalTable_eq_ok_iff, termMap_eq_ok_iff, objectMap_eq_ok_iff,
      graphMap_eq_ok_iff, Except.ok.injEq]
    refine ⟨?_, fun h => ?_⟩
    · intro h
      obtain ⟨table, hasTable, subject, makesSubject, predicate, makesPredicate, object, hasObject,
        graph, hasGraph, rfl⟩ := h
      exact ⟨rfl, ⟨rfl, missing⟩, rfl, rfl, hasTable, makesSubject, makesPredicate, hasObject, hasGraph⟩
    · refine ⟨_, h.logicalTable, _, h.subject, _, h.predicate, _, h.object, _, h.graph, ?_⟩
      rw [← h.ruleId, ← h.triplesMapId.1, ← h.sourceName, ← h.partitionId]

theorem toRule_eq_ok_iff {rule : MappingRule} : r.toRule = .ok rule ↔ r.States rule := by
  rw [toRule, mapError_eq_ok_iff, compile_eq_ok_iff]

theorem exists_hasTable_iff :
    (∃ table, r.HasTable table) ↔ [r.tableName.isSome, r.sqlQuery.isSome].count true = 1 := by
  refine ⟨?_, fun one => ?_⟩
  · intro h
    obtain ⟨table, hasTable⟩ := h
    cases hasTable with
    | table given noQuery => simp [given, noQuery]
    | query noTable given => simp [noTable, given]
  · cases table : r.tableName <;> cases query : r.sqlQuery <;> simp [table, query] at one
    case none.some => exact ⟨_, .query table query⟩
    case some.none => exact ⟨_, .table table query⟩

theorem exists_hasObject_iff :
    (∃ object, r.HasObject object) ↔
      (r.parentTriplesMap ≠ none ∧ r.object.Bare ∧ r.joinConditions ≠ []) ∨
      (r.parentTriplesMap = none ∧ r.joinConditions = [] ∧ r.object.Acceptable .object) := by
  refine ⟨?_, ?_⟩
  · intro h
    obtain ⟨object, hasObject⟩ := h
    cases hasObject with
    | reference given bare conditions => exact .inl ⟨by simp [given], bare, conditions⟩
    | term noParent noConditions makes =>
      exact .inr ⟨noParent, noConditions, TermMapRecord.exists_makes_iff.mp ⟨_, makes⟩⟩
  · intro h
    rcases h with ⟨parent, bare, conditions⟩ | ⟨noParent, noConditions, acceptable⟩
    · obtain ⟨parent, given⟩ := Option.ne_none_iff_exists'.mp parent
      exact ⟨_, .reference given bare conditions⟩
    · obtain ⟨m, makes⟩ := TermMapRecord.exists_makes_iff.mpr acceptable
      exact ⟨_, .term noParent noConditions makes⟩

theorem exists_hasGraph_iff :
    (∃ graph, r.HasGraph graph) ↔ r.graph.Bare ∨ r.graph.Acceptable .graph := by
  refine ⟨?_, ?_⟩
  · intro h
    obtain ⟨graph, hasGraph⟩ := h
    cases hasGraph with
    | bare bare => exact .inl bare
    | default makes _ _ => exact .inr (TermMapRecord.exists_makes_iff.mp ⟨_, makes⟩)
    | named makes _ => exact .inr (TermMapRecord.exists_makes_iff.mp ⟨_, makes⟩)
  · intro h
    rcases h with bare | acceptable
    · exact ⟨_, .bare bare⟩
    · obtain ⟨m, makes⟩ := TermMapRecord.exists_makes_iff.mpr acceptable
      by_cases default : ∃ iri ∈ defaultGraphs, m.value = .constant iri
      · obtain ⟨iri, known, names⟩ := default
        exact ⟨_, .default makes known names⟩
      · exact ⟨_, .named makes fun iri known names => default ⟨iri, known, names⟩⟩

theorem exists_states_iff : (∃ rule, r.States rule) ↔ r.Acceptable := by
  refine ⟨?_, ?_⟩
  · intro h
    obtain ⟨rule, h⟩ := h
    exact ⟨h.triplesMapId.2, exists_hasTable_iff.mp ⟨_, h.logicalTable⟩,
      TermMapRecord.exists_makes_iff.mp ⟨_, h.subject⟩,
      TermMapRecord.exists_makes_iff.mp ⟨_, h.predicate⟩, exists_hasObject_iff.mp ⟨_, h.object⟩,
      exists_hasGraph_iff.mp ⟨_, h.graph⟩⟩
  · intro h
    obtain ⟨table, hasTable⟩ := exists_hasTable_iff.mpr h.oneTable
    obtain ⟨subject, makesSubject⟩ := TermMapRecord.exists_makes_iff.mpr h.subject
    obtain ⟨predicate, makesPredicate⟩ := TermMapRecord.exists_makes_iff.mpr h.predicate
    obtain ⟨object, hasObject⟩ := exists_hasObject_iff.mpr h.object
    obtain ⟨graph, hasGraph⟩ := exists_hasGraph_iff.mpr h.graph
    exact ⟨⟨r.ruleId, r.triplesMapId, r.sourceName, table, r.partitionId, subject, predicate, object,
      graph⟩, rfl, ⟨rfl, h.triplesMapId⟩, rfl, rfl, hasTable, makesSubject, makesPredicate, hasObject,
      hasGraph⟩

end RuleRecord

def ObjectMap.term? : ObjectMap → Option TermMap
  | term m => some m
  | reference _ => none

theorem RuleRecord.HasObject.makes {r : RuleRecord} {object : ObjectMap} (h : r.HasObject object)
    {m : TermMap} (term : object.term? = some m) : r.object.Makes .object m := by
  cases h with
  | reference => cases term
  | term _ _ makes =>
    cases term
    exact makes

theorem RuleRecord.HasGraph.makes {r : RuleRecord} {m : TermMap} (h : r.HasGraph (some m)) :
    r.graph.Makes .graph m ∧ ∀ iri ∈ defaultGraphs, m.value ≠ .constant iri := by
  cases h with
  | named makes other => exact ⟨makes, other⟩

namespace MappingRule

def termMaps (rule : MappingRule) : List TermMap :=
  rule.subject :: rule.predicate :: (rule.object.term?.toList ++ rule.graph.toList)

/-- What the checks settle about a rule. -/
structure Checked (rule : MappingRule) : Prop where
  triplesMapId : rule.triplesMapId ≠ ""
  subject : rule.subject.termType ≠ .literal
  predicate : rule.predicate.termType = .iri
  graph : ∀ g, rule.graph = some g → g.termType = .iri ∧ ∀ iri ∈ defaultGraphs, g.value ≠ .constant iri
  notBoth : ∀ m ∈ rule.termMaps, m.language = none ∨ m.datatype = none
  conditions : ∀ m, rule.object = .reference m → m.joinConditions ≠ []

theorem exists_makes_of_mem {r : RuleRecord} {rule : MappingRule} (h : r.States rule) {m : TermMap}
    (hm : m ∈ rule.termMaps) :
    ∃ (part : TermMapRecord) (position : TermPosition), part.Makes position m := by
  simp only [termMaps, List.mem_cons, List.mem_append, Option.mem_toList] at hm
  obtain rfl | rfl | term | graph := hm
  · exact ⟨_, _, h.subject⟩
  · exact ⟨_, _, h.predicate⟩
  · exact ⟨_, _, h.object.makes term⟩
  · exact ⟨_, _, (graph ▸ h.graph).makes.1⟩

theorem checked_of_states {r : RuleRecord} {rule : MappingRule} (h : r.States rule) : rule.Checked where
  triplesMapId := h.triplesMapId.1 ▸ h.triplesMapId.2
  subject := by
    intro literal
    have := h.subject.admitted
    simp [TermPosition.Admits, literal] at this
  predicate := by
    have := h.predicate.admitted
    simpa [TermPosition.Admits] using this
  graph := by
    intro g some
    obtain ⟨makes, other⟩ := (some ▸ h.graph).makes
    have := makes.admitted
    exact ⟨by simpa [TermPosition.Admits] using this, other⟩
  notBoth := by
    intro m hm
    obtain ⟨part, position, makes⟩ := exists_makes_of_mem h hm
    rw [makes.language, makes.datatype]
    exact makes.notBoth
  conditions := by
    intro m reference
    have object := h.object
    rw [reference] at object
    cases object with
    | reference _ _ conditions => exact conditions

theorem listOfRecords_eq_ok_iff {records : List RuleRecord} {rules : List MappingRule} :
    listOfRecords records = .ok rules ↔ List.Forall₂ RuleRecord.States records rules := by
  rw [listOfRecords, ← toOption_eq_some_iff, toOption_mapM, mapM_eq_some_iff_forall₂]
  simp only [toOption_eq_some_iff, RuleRecord.toRule_eq_ok_iff]

end MappingRule

/-- **The checks are exact.** A record makes a term map at a position, and a record states a rule, exactly
if it is acceptable. What is accepted is the rule that the record states, which is as the statements need
it. A list of records is accepted exactly if each of them is, as the list of their rules. -/
theorem RuleRecord.toRule_accepts :
    (∀ (m : TermMapRecord) (position : TermPosition),
      (∃ t, m.compile position = .ok t) ↔ m.Acceptable position) ∧
    (∀ r : RuleRecord, (∃ rule, r.toRule = .ok rule) ↔ r.Acceptable) ∧
    (∀ (r : RuleRecord) (rule : MappingRule), r.toRule = .ok rule → r.States rule ∧ rule.Checked) ∧
    ∀ records : List RuleRecord,
      ((∃ rules, MappingRule.listOfRecords records = .ok rules) ↔ ∀ r ∈ records, r.Acceptable) ∧
      ∀ rules, MappingRule.listOfRecords records = .ok rules → List.Forall₂ States records rules := by
  refine ⟨fun m position => ?_, fun r => ?_, fun r rule h => ?_, fun records => ⟨?_, fun rules h => ?_⟩⟩
  · simp only [TermMapRecord.compile_eq_ok_iff]
    exact TermMapRecord.exists_makes_iff
  · simp only [toRule_eq_ok_iff]
    exact exists_states_iff
  · have states := toRule_eq_ok_iff.mp h
    exact ⟨states, MappingRule.checked_of_states states⟩
  · rw [exists_eq_ok_iff, MappingRule.listOfRecords, toOption_mapM, isSome_mapM_iff]
    simp only [← exists_eq_ok_iff, toRule_eq_ok_iff, exists_states_iff]
  · exact MappingRule.listOfRecords_eq_ok_iff.mp h

/-- Remarks about people, who are blank nodes, in the default graph. -/
def RuleRecord.remarks : RuleRecord where
  ruleId := "remarks"
  triplesMapId := "People"
  sqlQuery := "SELECT id, remark FROM people"
  subject := { template := "p\x7bid\x7d", termType := " http://w3id.org/rml/BlankNode\n" }
  predicate := { constant := "http://ex/remark" }
  object := { reference := "remark", language := "en" }
  graph := { constant := "http://www.w3.org/ns/r2rml#defaultGraph" }

def MappingRule.remarks : MappingRule where
  ruleId := "remarks"
  triplesMapId := "People"
  sourceName := ""
  logicalTable := .query "SELECT id, remark FROM people"
  partitionId := ""
  subject := .plain (.template ⟨"p\x7bid\x7d", [.text "p", .column "id"]⟩) .blankNode
  predicate := .iri "http://ex/remark"
  object := .term ⟨.column "remark", .literal, "en", none⟩
  graph := none

theorem RuleRecord.toRule_accepts_remarks :
    remarks.toRule = .ok .remarks ∧ remarks.Acceptable ∧ remarks.States .remarks ∧
      MappingRule.remarks.Checked ∧ List.Forall₂ States [remarks, remarks] [.remarks, .remarks] := by
  obtain ⟨-, acceptable, checked, list⟩ := toRule_accepts
  have accepted : remarks.toRule = .ok .remarks := rfl
  have both : MappingRule.listOfRecords [remarks, remarks] = .ok [.remarks, .remarks] := rfl
  obtain ⟨states, settled⟩ := checked _ _ accepted
  exact ⟨accepted, (acceptable _).mp ⟨_, accepted⟩, states, settled, (list _).2 _ both⟩

end RdfMapping
