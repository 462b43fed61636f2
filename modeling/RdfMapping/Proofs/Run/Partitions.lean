import RdfMapping.Proofs.Run.RuleMeaning
import RdfMapping.Run.Materialize

/-!
What the partitions of a rule table give, and in which order it is united.

A partition over tables in memory finishes exactly if each of its rules has lines, with the lines of all
of them (`Partition.given?`, `Partition.toOption_run`). The names of the partitions are in ascending
order, so what has finished in any order is handed on in one (`Run.inOrder_of_perm`).
-/

namespace RdfMapping

/-! ## Rules one after the other -/

theorem toOption_andThen {α β : Type} (first : Attempt α) (second : α → Attempt β) :
    (first.andThen second).outcome.toOption =
      first.outcome.toOption.bind fun a => (second a).outcome.toOption := by
  rw [Attempt.andThen]
  cases first.outcome <;> rfl

namespace Partition

/-- What a partition gives, if each of its rules has lines. -/
def given? (index : SubjectIndex) (st : Store) (coerce : Bool) (p : Partition) : Option Finished :=
  (p.rules.mapM fun r : MappingRule => r.lines? index st coerce).map fun lists =>
    ⟨p.id, p.rules.length, TextSet.ofList lists.flatten⟩

theorem isSome_given?_iff {index : SubjectIndex} {st : Store} {coerce : Bool} {p : Partition} :
    (p.given? index st coerce).isSome ↔ ∀ r ∈ p.rules, (r.lines? index st coerce).isSome := by
  rw [given?, Option.isSome_map, isSome_mapM_iff]

theorem mem_lines_given? {index : SubjectIndex} {st : Store} {coerce : Bool} {p : Partition}
    {f : Finished} (h : p.given? index st coerce = some f) {text : String} :
    text ∈ f.lines ↔ ∃ r ∈ p.rules, ∃ lines, r.lines? index st coerce = some lines ∧ text ∈ lines := by
  obtain ⟨lists, all, rfl⟩ := Option.map_eq_some_iff.mp h
  simp only [TextSet.mem_ofList, List.mem_flatten, mem_of_mapM all]
  refine ⟨?_, ?_⟩
  · intro h
    obtain ⟨lines, ⟨r, hr, hl⟩, ht⟩ := h
    exact ⟨r, hr, lines, hl, ht⟩
  · intro h
    obtain ⟨r, hr, lines, hl, ht⟩ := h
    exact ⟨lines, ⟨r, hr, hl⟩, ht⟩

section Runs

variable {index : SubjectIndex} {st : Store} {s : Settings}

theorem toOption_runRules (chunks : 0 < s.chunkSize) (rules : List MappingRule) (lines : TextSet) :
    (runRules index st.dataSource s rules lines).outcome.toOption =
      (rules.mapM fun r : MappingRule => r.lines? index st s.coerceFloat).map fun lists =>
        lines ∪ TextSet.ofList lists.flatten := by
  induction rules generalizing lines with
  | nil => simp [runRules, Attempt.done]
  | cons r rest ih =>
    rw [runRules, toOption_andThen, r.toOption_run index st chunks, List.mapM_cons]
    cases r.lines? index st s.coerceFloat with
    | none => rfl
    | some list =>
      simp only [Option.map_some, Option.bind_some, ih, Option.bind_eq_bind]
      cases rest.mapM fun r : MappingRule => r.lines? index st s.coerceFloat with
      | none => rfl
      | some lists => simp [RuleOutput.ofLines]

theorem toOption_run (chunks : 0 < s.chunkSize) (p : Partition) :
    (p.run index st.dataSource s).outcome.toOption = p.given? index st s.coerceFloat := by
  rw [run, Attempt.map, toOption_map, toOption_runRules chunks, given?, Option.map_map]
  congr 1
  funext lists
  rw [Function.comp_apply, TextSet.empty_union]

end Runs

/-! ## Partitions -/

theorem ascending_group (rules : List MappingRule) :
    (group rules).Pairwise fun p q => p.id < q.id := by
  rw [group, List.pairwise_map]
  exact (TextSet.ofList (rules.map (·.partitionId))).ascending

/-- A partition has a name that a rule has, and the rules that have it. -/
theorem mem_group {rules : List MappingRule} {p : Partition} :
    p ∈ group rules ↔
      (∃ r ∈ rules, r.partitionId = p.id) ∧ p.rules = rules.filter (·.partitionId == p.id) := by
  have named : ∀ id, id ∈ (TextSet.ofList (rules.map (·.partitionId))).toList ↔
      ∃ r ∈ rules, r.partitionId = id := fun id => TextSet.mem_ofList.trans List.mem_map
  rw [group, List.mem_map]
  refine ⟨?_, ?_⟩
  · intro h
    obtain ⟨id, h, rfl⟩ := h
    exact ⟨(named id).mp h, rfl⟩
  · intro h
    obtain ⟨h, same⟩ := h
    exact ⟨p.id, (named p.id).mpr h, by rw [← same]⟩

theorem mem_group_iff {rules : List MappingRule} {r : MappingRule} :
    (∃ p ∈ group rules, r ∈ p.rules) ↔ r ∈ rules := by
  refine ⟨?_, ?_⟩
  · intro h
    obtain ⟨p, hp, hr⟩ := h
    rw [(mem_group.mp hp).2] at hr
    exact List.mem_of_mem_filter hr
  · intro hr
    refine ⟨⟨r.partitionId, rules.filter (·.partitionId == r.partitionId)⟩,
      mem_group.mpr ⟨⟨r, hr, rfl⟩, rfl⟩, ?_⟩
    exact List.mem_filter.mpr ⟨hr, beq_self_eq_true _⟩

theorem ascending_of_mapM {rules : List MappingRule} {index : SubjectIndex} {st : Store}
    {coerce : Bool} {given : List Finished}
    (h : (group rules).mapM (given? index st coerce) = some given) :
    given.Pairwise fun f g => f.id < g.id := by
  have names : given.map (·.id) = (group rules).map (·.id) := by
    apply map_of_mapM h
    intro p f hf
    obtain ⟨lists, -, rfl⟩ := Option.map_eq_some_iff.mp hf
    rfl
  have ordered : (given.map (·.id)).Pairwise (· < ·) := by
    rw [names, List.pairwise_map]
    exact ascending_group rules
  exact List.pairwise_map.mp ordered

end Partition

/-! ## Publishing -/

namespace Run

theorem mem_corpus {finished : List Finished} {text : String} :
    text ∈ corpus finished ↔ ∃ f ∈ finished, text ∈ f.lines := by
  rw [corpus, TextSet.mem_foldl_union Finished.lines]
  simp

/-- What has finished in any order is handed on in the order of the names. -/
theorem inOrder_of_perm {finished given : List Finished}
    (ascending : given.Pairwise fun f g => f.id < g.id) (h : finished.Perm given) :
    inOrder finished = given := by
  have sorted : (inOrder finished).Pairwise fun f g => decide (f.id ≤ g.id) = true := by
    apply List.pairwise_mergeSort
    · intro a b c
      simpa using String.le_trans
    · intro a b
      simpa using String.le_total a.id b.id
  have ids : ∀ f g, f ∈ given → g ∈ given → f.id = g.id → f = g := by
    have distinct : (given.map (·.id)).Nodup := by
      rw [List.Nodup, List.pairwise_map]
      refine ascending.imp ?_
      intro f g lt same
      exact String.lt_irrefl g.id (same ▸ lt)
    exact fun f g hf hg => List.inj_on_of_nodup_map distinct hf hg
  have perm : (inOrder finished).Perm given := (List.mergeSort_perm _ _).trans h
  -- distinct names have one order only
  refine List.Perm.eq_of_pairwise ?_ sorted (ascending.imp fun lt => ?_) perm
  · intro f g hf hg le ge
    have same := String.le_antisymm (of_decide_eq_true le) (of_decide_eq_true ge)
    exact ids f g (perm.mem_iff.mp hf) hg same
  · exact decide_eq_true (String.not_lt.mp (String.lt_asymm lt))

end Run

end RdfMapping
