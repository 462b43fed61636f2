import RdfMapping.Mapping.Record
import RdfMapping.Proofs.Json.Records
import RdfMapping.Proofs.Json.Values

/-!
The spellings of a rule record.

`RuleRecord.Spelled` says which JSON values spell a rule record: its fields under their own names or
other ones, in any order or by position, without those that have their default, and beside whatever else.
A value is read as a record exactly if it spells the record (`RuleRecord.ofJson?_eq_some_iff`), so all
spellings are read as the same record, and an object that gives a field twice as none
(`RuleRecord.spellings_decode`).
-/

namespace RdfMapping

open Json (RecordField Gives Repeats StandsForList IsText optional? required? text? textOrNull? list?)

namespace Json

/-- A field that holds a text and may be left out when the text is empty. -/
def RecordField.text (names : Spellings) (s : String) : RecordField :=
  .optional names (fun s j => j = .text s) "" s

def RecordField.textOrNull (names : Spellings) (s : Option String) : RecordField :=
  .optional names (fun s j => j = .textOrNull s) none s

def RecordField.needed (names : Spellings) (s : String) : RecordField :=
  .required names (fun s j => j = .text s) s

theorem takes_text_iff (names : Spellings) (s : String) (v : Option Json) :
    (RecordField.text names s).Takes v ↔ optional? "" text? v = some s :=
  (optional?_eq_some_iff text?_eq_some_iff names v).symm

theorem takes_textOrNull_iff (names : Spellings) (s : Option String) (v : Option Json) :
    (RecordField.textOrNull names s).Takes v ↔ optional? none textOrNull? v = some s :=
  (optional?_eq_some_iff textOrNull?_eq_some_iff names v).symm

theorem takes_needed_iff (names : Spellings) (s : String) (v : Option Json) :
    (RecordField.needed names s).Takes v ↔ required? text? v = some s :=
  (required?_eq_some_iff text?_eq_some_iff names v).symm

end Json

open Json (takes_text_iff takes_textOrNull_iff takes_needed_iff length_of_fields?)

/-! ## Term maps -/

namespace TermMapRecord

def fields (r : TermMapRecord) : List RecordField := [
  .textOrNull ["template"] r.template,
  .textOrNull ["reference", "column"] r.reference,
  .textOrNull ["constant"] r.constant,
  .textOrNull ["term_type", "termtype"] r.termType,
  .textOrNull ["language"] r.language,
  .textOrNull ["datatype"] r.datatype]

def Spelled (r : TermMapRecord) : Json → Prop := Json.Spelled r.fields

/-- The values that are read as a term map record are those that spell it. -/
theorem ofJson?_eq_some_iff (j : Json) (r : TermMapRecord) : ofJson? j = some r ↔ r.Spelled j := by
  have names : r.fields.map (·.names) = spellings := rfl
  rw [Spelled, Json.spelled_iff, names]
  cases found : Json.fields? spellings j with
  | none => simp [ofJson?, found]
  | some values =>
    have size : values.length = 6 := length_of_fields? found
    match values, size with
    | [template, reference, constant, termType, language, datatype], _ =>
      obtain ⟨_, _, _, _, _, _⟩ := r
      simp only [ofJson?, found, fields, List.forall₂_cons, takes_textOrNull_iff,
        Option.bind_eq_bind, Option.bind_eq_some_iff, Option.some.injEq, exists_eq_left',
        TermMapRecord.mk.injEq]
      simp

/-- A field for a term map, which may be left out when the term map has no field. -/
def field (names : Json.Spellings) (r : TermMapRecord) : RecordField := .optional names Spelled {} r

theorem takes_field_iff (names : Json.Spellings) (r : TermMapRecord) (v : Option Json) :
    (r.field names).Takes v ↔ optional? {} ofJson? v = some r :=
  (Json.optional?_eq_some_iff ofJson?_eq_some_iff names v).symm

end TermMapRecord

/-! ## Join conditions -/

namespace JoinCondition

def fields (c : JoinCondition) : List RecordField := [
  .needed ["child_column", "child", "child_value"] c.childColumn,
  .needed ["parent_column", "parent", "parent_value"] c.parentColumn]

def Spelled (c : JoinCondition) : Json → Prop := Json.Spelled c.fields

theorem ofJson?_eq_some_iff (j : Json) (c : JoinCondition) : ofJson? j = some c ↔ c.Spelled j := by
  have names : c.fields.map (·.names) = spellings := rfl
  rw [Spelled, Json.spelled_iff, names]
  cases found : Json.fields? spellings j with
  | none => simp [ofJson?, found]
  | some values =>
    have size : values.length = 2 := length_of_fields? found
    match values, size with
    | [child, parent], _ =>
      obtain ⟨_, _⟩ := c
      simp only [ofJson?, found, fields, List.forall₂_cons, takes_needed_iff,
        Option.bind_eq_bind, Option.bind_eq_some_iff, Option.some.injEq, exists_eq_left',
        JoinCondition.mk.injEq]
      simp

/-- A field for join conditions, which may be left out when there are none. -/
def field (names : Json.Spellings) (l : List JoinCondition) : RecordField :=
  .optional names (StandsForList Spelled) [] l

theorem takes_field_iff (names : Json.Spellings) (l : List JoinCondition) (v : Option Json) :
    (field names l).Takes v ↔ optional? [] (list? ofJson?) v = some l :=
  (Json.optional?_eq_some_iff (Json.list?_eq_some_iff ofJson?_eq_some_iff) names v).symm

end JoinCondition

/-! ## Rules -/

namespace RuleRecord

def fields (r : RuleRecord) : List RecordField := [
  .text ["rule_id", "id"] r.ruleId,
  .text ["triples_map_id"] r.triplesMapId,
  .text ["source_name"] r.sourceName,
  .textOrNull ["table_name"] r.tableName,
  .textOrNull ["sql_query"] r.sqlQuery,
  .text ["partition_id"] r.partitionId,
  r.subject.field ["subject"],
  r.predicate.field ["predicate"],
  r.object.field ["object"],
  .textOrNull ["parent_triples_map", "object_parent_triples_map"] r.parentTriplesMap,
  JoinCondition.field ["join_conditions"] r.joinConditions,
  r.graph.field ["graph"]]

def Spelled (r : RuleRecord) : Json → Prop := Json.Spelled r.fields

theorem ofJson?_eq_some_iff (j : Json) (r : RuleRecord) : ofJson? j = some r ↔ r.Spelled j := by
  have names : r.fields.map (·.names) = spellings := rfl
  rw [Spelled, Json.spelled_iff, names]
  cases found : Json.fields? spellings j with
  | none => simp [ofJson?, found]
  | some values =>
    have size : values.length = 12 := length_of_fields? found
    match values, size with
    | [ruleId, triplesMapId, sourceName, tableName, sqlQuery, partitionId, subject, predicate, object,
        parentTriplesMap, joinConditions, graph], _ =>
      obtain ⟨_, _, _, _, _, _, _, _, _, _, _, _⟩ := r
      simp only [ofJson?, found, fields, List.forall₂_cons, takes_text_iff, takes_textOrNull_iff,
        TermMapRecord.takes_field_iff, JoinCondition.takes_field_iff,
        Option.bind_eq_bind, Option.bind_eq_some_iff, Option.some.injEq, exists_eq_left',
        RuleRecord.mk.injEq]
      simp

/-- A value in which a record gives one of its fields twice: the rule, one of its term maps, or one of
its join conditions. -/
inductive RepeatsField : Json → Prop
  | rule {j} (twice : Repeats spellings j) : RepeatsField j
  | termMap {names j part} (slot : names ∈ [["subject"], ["predicate"], ["object"], ["graph"]])
      (given : Gives spellings names j part) (twice : Repeats TermMapRecord.spellings part) :
      RepeatsField j
  | condition {j items item} (given : Gives spellings ["join_conditions"] j (.array items))
      (member : item ∈ items) (twice : Repeats JoinCondition.spellings item) : RepeatsField j

/-- A value in which a field is given twice spells no record. -/
theorem not_spelled_of_repeatsField {j : Json} (h : RepeatsField j) (r : RuleRecord) :
    ¬r.Spelled j := by
  intro spelled
  have stands : ∀ {f : RecordField} {part : Json}, f ∈ r.fields → Gives spellings f.names j part →
      f.stands part :=
    have distinct : (r.fields.map (·.names)).Nodup := (by decide : spellings.Nodup)
    fun hf given => Json.stands_of_gives distinct hf spelled given
  have noTermMap : ∀ {m : TermMapRecord} {part : Json}, Repeats TermMapRecord.spellings part →
      ¬m.Spelled part := fun {m} _ => Json.not_spelled_of_repeats m.fields
  have noCondition : ∀ {c : JoinCondition} {part : Json}, Repeats JoinCondition.spellings part →
      ¬c.Spelled part := fun {c} _ => Json.not_spelled_of_repeats c.fields
  cases h with
  | rule twice => exact Json.not_spelled_of_repeats r.fields twice spelled
  | termMap slot given twice =>
    simp only [List.mem_cons, List.not_mem_nil, or_false] at slot
    obtain rfl | rfl | rfl | rfl := slot
    · exact noTermMap twice (stands (f := r.subject.field _) (by simp [fields]) given)
    · exact noTermMap twice (stands (f := r.predicate.field _) (by simp [fields]) given)
    · exact noTermMap twice (stands (f := r.object.field _) (by simp [fields]) given)
    · exact noTermMap twice (stands (f := r.graph.field _) (by simp [fields]) given)
  | condition given member twice =>
    obtain ⟨items, same, each⟩ :=
      stands (f := JoinCondition.field _ r.joinConditions) (by simp [fields]) given
    obtain rfl := Json.array.inj same
    obtain ⟨i, within, rfl⟩ := List.getElem_of_mem member
    exact noCondition twice (each.get (each.length_eq ▸ within) within)

theorem ofJson?_of_repeatsField {j : Json} (h : RepeatsField j) : ofJson? j = none :=
  Option.eq_none_iff_forall_not_mem.mpr fun r read =>
    not_spelled_of_repeatsField h r ((ofJson?_eq_some_iff j r).mp read)

theorem list?_eq_some_iff (items : List Json) (records : List RuleRecord) :
    list? ofJson? (.array items) = some records ↔ List.Forall₂ Spelled records items := by
  rw [Json.list?_eq_some_iff ofJson?_eq_some_iff]
  refine ⟨?_, fun each => ⟨items, rfl, each⟩⟩
  intro h
  obtain ⟨_, same, each⟩ := h
  rwa [Json.array.inj same]

/-- **All spellings are read alike.** Every text of a value that spells a rule record is read as that
record, and every text of an array of such values as the list of the records, which states the rules
that they state. A text of a value in which a record gives a field twice, under one name or two, is not
read, and a list with such a value states no rules. -/
theorem spellings_decode :
    (∀ (r : RuleRecord) (j : Json) (s : String), r.Spelled j → j.IsText s →
      (Json.parse? s).bind ofJson? = some r) ∧
    (∀ (records : List RuleRecord) (items : List Json) (s : String),
      List.Forall₂ Spelled records items → (Json.array items).IsText s →
      listOfText? s = some records ∧
        MappingRule.listOfText s = MappingRule.listOfRecords records) ∧
    (∀ (j : Json) (s : String), RepeatsField j → j.IsText s →
      (Json.parse? s).bind ofJson? = none) ∧
    (∀ (items : List Json) (s : String), (∃ j ∈ items, RepeatsField j) → (Json.array items).IsText s →
      listOfText? s = none ∧ MappingRule.listOfText s = .error (.configuration .unreadableRules)) := by
  refine ⟨?_, ?_, ?_, ?_⟩
  · intro r j s spelled text
    rw [Json.parse?_of_isText text, Option.bind_some]
    exact (ofJson?_eq_some_iff j r).mpr spelled
  · intro records items s spelled text
    have read : listOfText? s = some records := by
      rw [listOfText?, Json.parse?_of_isText text, Option.bind_some]
      exact (list?_eq_some_iff items records).mpr spelled
    refine ⟨read, ?_⟩
    rw [MappingRule.listOfText, read]
  · intro j s repeats text
    rw [Json.parse?_of_isText text, Option.bind_some]
    exact ofJson?_of_repeatsField repeats
  · intro items s given text
    obtain ⟨j, member, repeats⟩ := given
    have read : listOfText? s = none := by
      rw [listOfText?, Json.parse?_of_isText text, Option.bind_some]
      refine Option.eq_none_iff_forall_not_mem.mpr fun records some => ?_
      -- one of the records would be spelled by the value that gives a field twice
      have each := (list?_eq_some_iff items records).mp some
      obtain ⟨i, within, rfl⟩ := List.getElem_of_mem member
      exact not_spelled_of_repeatsField repeats _ (each.get (each.length_eq ▸ within) within)
    refine ⟨read, ?_⟩
    rw [MappingRule.listOfText, read]

def employers : RuleRecord where
  ruleId := "worksFor"
  triplesMapId := "People"
  tableName := "people"
  subject := { template := "http://ex/\x7bid\x7d" }
  predicate := { constant := "http://ex/worksFor" }
  parentTriplesMap := "Firms"
  joinConditions := [⟨"firm", "id"⟩, ⟨"country", "country"⟩]

/-- The join of people and their employers with other names for its fields, an unknown one among them,
with a term map and a join condition as arrays, and with nulls. -/
def employersRenamed : Json := .object [
  (some "join_conditions", .array [
    .object [(some "parent", .text "id"), (some "child", .text "firm")],
    .array [.text "country", .text "country"]]),
  (some "object_parent_triples_map", .text "Firms"),
  (some "note", .object [(some "since", .number ['1', '9']), (some "by", .string none)]),
  (some "predicate", .object [(some "constant", .text "http://ex/worksFor"), (some "column", .null)]),
  (some "subject", .array [.text "http://ex/\x7bid\x7d", .null]),
  (some "table_name", .text "people"),
  (some "sql_query", .null),
  (some "triples_map_id", .text "People"),
  (some "id", .text "worksFor")]

def employersTwice : Json := .object [
  (some "join_conditions", .array [
    .object [(some "child", .text "firm"), (some "child_value", .text "firm"),
      (some "parent", .text "id")]])]

theorem spellings_decode_employers :
    (Json.parse? employersRenamed.render).bind ofJson? = some employers ∧
    listOfText? (Json.array [employersRenamed, employersRenamed]).render = some [employers, employers] ∧
    (Json.parse? employersTwice.render).bind ofJson? = none ∧
    listOfText? (Json.array [employersRenamed, employersTwice]).render = none := by
  have spelled : employers.Spelled employersRenamed := (ofJson?_eq_some_iff _ _).mp rfl
  have repeats : RepeatsField employersTwice :=
    .condition (.named List.mem_cons_self List.mem_cons_self) List.mem_cons_self
      ⟨_, rfl, ["child_column", "child", "child_value"], by decide, by decide⟩
  have nineteen : Lexer.Whole ['1', '9'] :=
    .digits rfl (by decide) (List.all_eq_true.mp rfl)
  have number : Json.WellFormed (.number ['1', '9']) := .number (.positive nineteen .none .none)
  have renamed : Json.WellFormed employersRenamed := by simp [employersRenamed, number]
  have twice : Json.WellFormed employersTwice := by simp [employersTwice]
  obtain ⟨one, list, oneTwice, listTwice⟩ := spellings_decode
  refine ⟨?_, ?_, ?_, ?_⟩
  · exact one _ _ _ spelled (Json.isText_render renamed)
  · exact (list _ _ _ (.cons spelled (.cons spelled .nil)) (Json.isText_render (by simp [renamed]))).1
  · exact oneTwice _ _ repeats (Json.isText_render twice)
  · exact (listTwice _ _ ⟨_, by simp, repeats⟩ (Json.isText_render (by simp [renamed, twice]))).1

end RuleRecord

end RdfMapping
