import RdfMapping.Proofs.Mapping.Parents
import RdfMapping.Proofs.Run.Ends

/-!
What a run does not depend on.

Rules may be put into other partitions and into another order, as long as the rules of each triples map
keep theirs (`Rearranged`), they may be run in chunks of any size and by any number of workers, and their
partitions may complete in any order: a run then succeeds as before and gives the same lines
(`materialize_rearranged`). The order within a triples map matters because its first rule is what joins
refer to (`SubjectIndex.find?_ofRules`).
-/

namespace RdfMapping

/-- The rule as it is in any partition. -/
def MappingRule.anywhere (r : MappingRule) : MappingRule := { r with partitionId := "" }

/-- The same rules but for their partitions, and those of each triples map in the same order. -/
structure Rearranged (rules rules' : List MappingRule) : Prop where
  same : (rules.map (·.anywhere)).Perm (rules'.map (·.anywhere))
  order : ∀ id, (rules.filter (·.triplesMapId == id)).map (·.anywhere) =
    (rules'.filter (·.triplesMapId == id)).map (·.anywhere)

namespace MappingRule

theorem lines?_anywhere (r : MappingRule) (index : SubjectIndex) (st : Store) (coerce : Bool) :
    r.anywhere.lines? index st coerce = r.lines? index st coerce := rfl

theorem lines?_congr_index {index index' : SubjectIndex} (same : ∀ id, index.find? id = index'.find? id)
    (r : MappingRule) (st : Store) (coerce : Bool) :
    r.lines? index st coerce = r.lines? index' st coerce := by
  simp only [lines?, same]

end MappingRule

namespace Rearranged

variable {rules rules' : List MappingRule} (h : Rearranged rules rules')

include h

theorem find?_ofRules (id : String) :
    (SubjectIndex.ofRules rules).find? id = (SubjectIndex.ofRules rules').find? id := by
  -- the first rules of the triples map are the same but for their partitions, and a subject map
  -- does not say in which partition it was found
  have firsts := congrArg List.head? (h.order id)
  rw [List.head?_map, List.head?_map] at firsts
  have subject : ∀ r : MappingRule, SubjectMap.ofRule r = SubjectMap.ofRule r.anywhere := fun _ => rfl
  rw [SubjectIndex.find?_ofRules, SubjectIndex.find?_ofRules, funext subject]
  have lifted := congrArg (Option.map SubjectMap.ofRule) firsts
  rwa [Option.map_map, Option.map_map] at lifted

theorem lines?_ofRules (r : MappingRule) (st : Store) (coerce : Bool) :
    r.lines? (SubjectIndex.ofRules rules) st coerce =
      r.lines? (SubjectIndex.ofRules rules') st coerce :=
  r.lines?_congr_index h.find?_ofRules st coerce

theorem exists_rule_iff (p : Option (List String) → Prop) (st : Store) (coerce : Bool) :
    (∃ r ∈ rules, p (r.lines? (SubjectIndex.ofRules rules) st coerce)) ↔
      ∃ r ∈ rules', p (r.lines? (SubjectIndex.ofRules rules') st coerce) := by
  have places : ∀ table : List MappingRule,
      (∃ r ∈ table, p (r.lines? (SubjectIndex.ofRules rules') st coerce)) ↔
        ∃ r ∈ table.map (·.anywhere), p (r.lines? (SubjectIndex.ofRules rules') st coerce) := by
    intro table
    simp [MappingRule.lines?_anywhere]
  simp only [h.lines?_ofRules]
  rw [places rules, places rules']
  exact exists_congr fun r => and_congr_left fun _ => h.same.mem_iff

theorem all_rules_iff (st : Store) (coerce : Bool) :
    (∀ r ∈ rules, (r.lines? (SubjectIndex.ofRules rules) st coerce).isSome) ↔
      ∀ r ∈ rules', (r.lines? (SubjectIndex.ofRules rules') st coerce).isSome := by
  have := h.exists_rule_iff (fun lines => ¬lines.isSome) st coerce
  simpa only [not_exists, not_and, not_not] using not_congr this

end Rearranged

/-! ## Partitions that stay -/

namespace Partition

/-- A partition gives the same if its rules are in another order. -/
theorem given?_perm {index : SubjectIndex} {st : Store} {coerce : Bool} {id : String}
    {rules rules' : List MappingRule} (h : rules.Perm rules') :
    given? index st coerce ⟨id, rules⟩ = given? index st coerce ⟨id, rules'⟩ := by
  have given : ∀ {rules rules' : List MappingRule} {f : Finished}, rules.Perm rules' →
      given? index st coerce ⟨id, rules⟩ = some f → given? index st coerce ⟨id, rules'⟩ = some f := by
    intro rules rules' f perm hf
    obtain ⟨lists, all, rfl⟩ := Option.map_eq_some_iff.mp hf
    obtain ⟨lists', all', moved⟩ := perm_of_mapM (perm.map _) all
    have lines : TextSet.ofList lists'.flatten = TextSet.ofList lists.flatten :=
      TextSet.ofList_congr (by simp [moved.mem_iff])
    rw [given?, all', Option.map_some, perm.length_eq, lines]
  -- what the one gives the other gives, either way round
  cases hl : given? index st coerce ⟨id, rules⟩ with
  | some f => exact (given h hl).symm
  | none =>
    cases hr : given? index st coerce ⟨id, rules'⟩ with
    | none => rfl
    | some f => exact absurd (given h.symm hr) (by simp [hl])

theorem given?_congr_index {index index' : SubjectIndex}
    (same : ∀ id, index.find? id = index'.find? id) (st : Store) (coerce : Bool) :
    given? index st coerce = given? index' st coerce := by
  funext p
  simp only [given?, MappingRule.lines?_congr_index same]

/-- Rules in another order make up the same partitions, each with its rules in another order. -/
theorem mapM_given?_group {index : SubjectIndex} {st : Store} {coerce : Bool}
    {rules rules' : List MappingRule} (h : rules.Perm rules') :
    (group rules).mapM (given? index st coerce) = (group rules').mapM (given? index st coerce) := by
  have names : TextSet.ofList (rules.map (·.partitionId)) =
      TextSet.ofList (rules'.map (·.partitionId)) :=
    TextSet.ofList_congr fun _ => (h.map _).mem_iff
  rw [group, group, names, List.mapM_map, List.mapM_map]
  exact mapM_congr fun id _ => given?_perm (h.filter _)

end Partition

namespace Rearranged

variable {rules rules' : List MappingRule} (h : Rearranged rules rules') {st : Store} {s s' : Settings}
  (valid : s.validate = .ok ()) (valid' : s'.validate = .ok ()) (coerce : s.coerceFloat = s'.coerceFloat)
  {ended ended' : Except RunError (List Finished)} (ends : Run.Ends rules st.dataSource s ended)
  (ends' : Run.Ends rules' st.dataSource s' ended')

include h valid valid' coerce ends ends'

theorem united_ok_iff : (∃ out, Run.united ended = .ok out) ↔ ∃ out, Run.united ended' = .ok out := by
  rw [ends.united_ok_iff valid, ends'.united_ok_iff valid', ← coerce]
  exact h.all_rules_iff st s.coerceFloat

theorem lines_eq {out out' : Materialization} (gives : Run.united ended = .ok out)
    (gives' : Run.united ended' = .ok out') : out.lines = out'.lines := by
  apply TextSet.ext_mem
  intro text
  rw [ends.mem_lines valid gives, ends'.mem_lines valid' gives', ← coerce]
  exact h.exists_rule_iff (fun found => ∃ lines, found = some lines ∧ text ∈ lines) st _

theorem partitions_eq (perm : rules.Perm rules') {out out' : Materialization}
    (gives : Run.united ended = .ok out) (gives' : Run.united ended' = .ok out') :
    out.partitions = out'.partitions := by
  rw [← toOption_eq_some_iff, ends.toOption_united valid, Option.map_eq_some_iff] at gives
  rw [← toOption_eq_some_iff, ends'.toOption_united valid', Option.map_eq_some_iff] at gives'
  obtain ⟨given, all, rfl⟩ := gives
  obtain ⟨given', all', rfl⟩ := gives'
  rw [Partition.mapM_given?_group perm, coerce, Partition.given?_congr_index h.find?_ofRules] at all
  exact Option.some.inj (all.symm.trans all')

end Rearranged

/-- **Invariance of a run.** Take settings that are valid, without a time limit and with no more workers
than a pool can have, which differ at most in the size of the chunks and in the workers. Then a run of a
rule table succeeds exactly if a run of a rearranged table does, and both give the same lines; and if the
rules are in the same partitions, both report the same of every partition. This holds whatever the order
in which the partitions of the one and of the other complete. -/
theorem materialize_rearranged {rules rules' : List MappingRule} (h : Rearranged rules rules')
    (st : Store) {s s' : Settings} (valid : s.validate = .ok ()) (valid' : s'.validate = .ok ())
    (limit : s.timeoutSeconds = none) (limit' : s'.timeoutSeconds = none)
    (workers : s.processes ≤ Run.maxWorkers) (workers' : s'.processes ≤ Run.maxWorkers)
    (coerce : s.coerceFloat = s'.coerceFloat) :
    ((∃ out, (materialize rules st.dataSource s none).outcome = .ok out) ↔
      ∃ out, (materialize rules' st.dataSource s' none).outcome = .ok out) ∧
    (∀ out out', (materialize rules st.dataSource s none).outcome = .ok out →
      (materialize rules' st.dataSource s' none).outcome = .ok out' →
        out.lines = out'.lines ∧ (rules.Perm rules' → out.partitions = out'.partitions)) ∧
    ∀ ended ended', Run.Ends rules st.dataSource s ended → Run.Ends rules' st.dataSource s' ended' →
      ((∃ out, Run.united ended = .ok out) ↔ ∃ out, Run.united ended' = .ok out) ∧
      ∀ out out', Run.united ended = .ok out → Run.united ended' = .ok out' →
        out.lines = out'.lines ∧ (rules.Perm rules' → out.partitions = out'.partitions) := by
  have law : ∀ ended ended', Run.Ends rules st.dataSource s ended →
      Run.Ends rules' st.dataSource s' ended' →
      ((∃ out, Run.united ended = .ok out) ↔ ∃ out, Run.united ended' = .ok out) ∧
      ∀ out out', Run.united ended = .ok out → Run.united ended' = .ok out' →
        out.lines = out'.lines ∧ (rules.Perm rules' → out.partitions = out'.partitions) := by
    intro ended ended' ends ends'
    refine ⟨h.united_ok_iff valid valid' coerce ends ends', fun out out' gives gives' => ?_⟩
    exact ⟨h.lines_eq valid valid' coerce ends ends' gives gives',
      fun perm => h.partitions_eq valid valid' coerce ends ends' perm gives gives'⟩
  -- the run itself comes to one of its ends
  rw [Run.materialize_eq_united valid limit, Run.materialize_eq_united valid' limit']
  obtain ⟨succeeds, same⟩ := law _ _ (Run.ends_progress workers) (Run.ends_progress workers')
  exact ⟨succeeds, same, law⟩

def countryRule (triplesMap partition object : String) : MappingRule :=
  ⟨triplesMap, triplesMap, "db", .table "countries", partition, .iri "http://ex/country",
    .iri "http://ex/is", .term (.iri object), none⟩

def countryStore : Store :=
  ⟨[("db", [("countries", ⟨[⟨⟨"id", .string, false⟩, ⟨.string, #[some "1"]⟩⟩], 1⟩)])], 0, 0⟩

theorem isSome_lines?_countryRule (triplesMap partition object : String) (index : SubjectIndex) :
    ((countryRule triplesMap partition object).lines? index countryStore false).isSome := by
  have columns : (countryRule triplesMap partition object).columns = ∅ :=
    TextSet.ext_mem (by
      simp [MappingRule.columns, MappingRule.objectColumns, countryRule, TermMap.iri, TermMap.plain,
        TermMap.columns])
  have terms : ∀ (text : String) (row : Row), ((TermMap.iri text).term? row).isSome := by
    intro text row
    exact TermMap.isSome_term?_iff.mpr
      ⟨by simp [TermMap.iri, TermMap.plain], by simp [TermMap.iri, TermMap.plain, TermMap.columns]⟩
  have line : ∀ b row, (((countryRule triplesMap partition object).statement (.iri object)).lineAt? b
      .plain row).isSome := by
    intro b row
    exact StatementMap.isSome_line?_iff.mpr ⟨terms _ _, terms _ _, terms _ _, rfl⟩
  have answer : ∃ b, (Connection.mk "db" [("countries",
      ⟨[⟨⟨"id", .string, false⟩, ⟨.string, #[some "1"]⟩⟩], 1⟩)]).select
        (.project ⟨.table "countries", []⟩) = .ok b := ⟨_, rfl⟩
  obtain ⟨b, hb⟩ := answer
  obtain ⟨lines, hl⟩ := Option.isSome_iff_exists.mp
    (isSome_mapM_iff.mpr fun row (_ : row ∈ List.range b.numRows) => line (b.delivered false) row)
  refine Option.isSome_iff_exists.mpr ⟨lines, Store.lines?_eq_some_iff.mpr ⟨_, rfl, b, ?_, hl⟩⟩
  rw [columns]
  exact hb

theorem materialize_countries : ∃ out out',
    (materialize [countryRule "size" "p1" "http://ex/big", countryRule "age" "p2" "http://ex/old"]
      countryStore.dataSource { chunkSize := 1 } none).outcome = .ok out ∧
    (materialize [countryRule "age" "p3" "http://ex/old", countryRule "size" "p3" "http://ex/big"]
      countryStore.dataSource { processes := 4 } none).outcome = .ok out' ∧
    out.lines = out'.lines ∧
    ∀ ended, Run.Ends [countryRule "age" "p3" "http://ex/old", countryRule "size" "p3" "http://ex/big"]
      countryStore.dataSource { processes := 4 } ended →
        ∃ last, Run.united ended = .ok last ∧ out.lines = last.lines := by
  have rearranged : Rearranged
      [countryRule "size" "p1" "http://ex/big", countryRule "age" "p2" "http://ex/old"]
      [countryRule "age" "p3" "http://ex/old", countryRule "size" "p3" "http://ex/big"] := by
    refine ⟨.swap _ _ _, fun id => ?_⟩
    by_cases size : "size" = id
    · subst size
      rfl
    · by_cases age : "age" = id
      · subst age
        rfl
      · simp [countryRule, size, age]
  have valid : Settings.validate { chunkSize := 1 } = .ok () := rfl
  have valid' : Settings.validate { processes := 4 } = .ok () := rfl
  have room : 4 ≤ Run.maxWorkers := by decide
  obtain ⟨succeeds, same, any⟩ := materialize_rearranged rearranged countryStore valid valid' rfl rfl
    (Nat.le_trans (by decide) room) room rfl
  have first : ∃ out, (materialize
      [countryRule "size" "p1" "http://ex/big", countryRule "age" "p2" "http://ex/old"]
      countryStore.dataSource { chunkSize := 1 } none).outcome = .ok out := by
    rw [Run.materialize_eq_united valid rfl,
      (Run.ends_progress (Nat.le_trans (by decide) room)).united_ok_iff valid]
    intro r hr
    rcases List.mem_pair.mp hr with rfl | rfl
    · exact isSome_lines?_countryRule ..
    · exact isSome_lines?_countryRule ..
  obtain ⟨out, hout⟩ := first
  obtain ⟨out', hout'⟩ := succeeds.mp ⟨out, hout⟩
  refine ⟨out, out', hout, hout', (same out out' hout hout').1, fun ended ends => ?_⟩
  rw [Run.materialize_eq_united valid rfl] at hout
  obtain ⟨succeeds, same⟩ := any _ ended (Run.ends_progress (Nat.le_trans (by decide) room)) ends
  obtain ⟨last, gives⟩ := succeeds.mp ⟨out, hout⟩
  exact ⟨last, gives, (same out last hout gives).1⟩

end RdfMapping
