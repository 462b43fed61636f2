import RdfMapping.Proofs.Run.AnyOrder
import RdfMapping.Proofs.Run.Connections

/-!
The accounts of a run on one process.

A rule opens a connection if it reaches a source that is known (`MappingRule.reaches`), and closes it
whatever comes of it. A run on one process takes the rules in turn, up to the first that fails. So at
the end of each rule as many connections have been closed as opened, one for each rule so far that
reaches its source (`sequential_accounts`).
-/

namespace RdfMapping

namespace MappingRule

/-- Whether a rule that is run over a store gets as far as a connection: its source is known, and if it
joins, its parent is known and in the same source, and there is a condition. -/
def reaches (r : MappingRule) (index : SubjectIndex) (st : Store) : Bool :=
  (st.tables? r.sourceName).isSome &&
    match r.object with
    | .term _ => true
    | .reference m =>
      match index.find? m.parentTriplesMap with
      | some parent => m.hasConditions && parent.sourceName == r.sourceName
      | none => false

section Runs

variable {r : MappingRule} {index : SubjectIndex} {d : DataSource} {st : Store} {s : Settings}

theorem reaches_eq (r : MappingRule) (index : SubjectIndex) (st : Store) :
    r.reaches index st = ((st.tables? r.sourceName).isSome && (r.plan index).toOption.isSome) := by
  rw [reaches]
  cases hr : r.object with
  | term o => simp [plan, hr]
  | reference m =>
    simp only [plan, hr, toOption_joinPlan]
    cases index.find? m.parentTriplesMap with
    | none => rfl
    | some parent =>
      simp only [ReferencingObjectMap.hasConditions, Option.bind_some]
      by_cases conditions : m.joinConditions = []
      · simp [conditions]
      · by_cases source : parent.sourceName = r.sourceName <;> simp [conditions, source]

theorem opened_run (r : MappingRule) (index : SubjectIndex) (st : Store) (s : Settings) :
    (r.run index st.dataSource s).journal.opened = (r.reaches index st).toNat := by
  rw [reaches_eq, run]
  cases r.plan index with
  | error e => simp [Attempt.failed, Journal.opened]
  | ok p =>
    simp only [st.run_eq, Store.connect]
    cases st.tables? r.sourceName <;> rfl

theorem failed_of_run {stop : Stop} (h : (r.run index st.dataSource s).outcome = .error stop) :
    ∃ error, stop = .failed error := by
  rw [run] at h
  cases planned : r.plan index with
  | error e =>
    rw [planned] at h
    cases h
    exact ⟨e, rfl⟩
  | ok p =>
    simp only [planned, Store.outcome_run] at h
    obtain ⟨e, -, rfl⟩ := mapError_eq_error_iff.mp h
    exact ⟨e, rfl⟩

end Runs

end MappingRule

namespace Partition

variable {index : SubjectIndex} {st : Store} {s : Settings}

theorem opened_journal (rules : List MappingRule) :
    (journal index st.dataSource s rules).opened = rules.countP (·.reaches index st) := by
  induction rules with
  | nil => rfl
  | cons r rest ih =>
    rw [journal_cons, Journal.opened_append, r.opened_run, ih, List.countP_cons]
    cases r.reaches index st <;> simp [Nat.add_comm]

theorem closed_journal (rules : List MappingRule) :
    (journal index st.dataSource s rules).closed = rules.countP (·.reaches index st) := by
  rw [(balanced_journal st.counted_dataSource index s rules).released, opened_journal]

end Partition

/-! ## The order in which one process runs the rules -/

namespace Run

/-- The rules of a table in the order in which one process runs them. -/
def order (rules : List MappingRule) : List MappingRule := (Partition.group rules).flatMap (·.rules)

theorem ascending_order (rules : List MappingRule) :
    (order rules).Pairwise fun a b => a.partitionId ≤ b.partitionId := by
  rw [order, Partition.group, List.flatMap_map, List.pairwise_flatMap]
  have named : ∀ {id : String} {r : MappingRule}, r ∈ rules.filter (·.partitionId == id) →
      r.partitionId = id := fun hr => eq_of_beq (List.mem_filter.mp hr).2
  refine ⟨?_, ?_⟩
  · intro id _
    refine List.pairwise_of_forall_mem_list fun a ha b hb => ?_
    have same : a.partitionId = b.partitionId := (named ha).trans (named hb).symm
    exact same ▸ String.le_refl _
  · refine (TextSet.ofList (rules.map (·.partitionId))).ascending.imp ?_
    intro i j lt a ha b hb
    rw [named ha, named hb]
    exact String.not_lt.mp (String.lt_asymm lt)

theorem flatMap_of_nodup {α : Type} {ids : List String} (once : ids.Nodup) (id : String) (l : List α) :
    (ids.flatMap fun i => if i = id then l else []) = if id ∈ ids then l else [] := by
  induction ids with
  | nil => rfl
  | cons i rest ih =>
    obtain ⟨apart, once⟩ := List.nodup_cons.mp once
    rw [List.flatMap_cons, ih once]
    by_cases same : i = id
    · subst i
      simp [apart]
    · simp [same, Ne.symm same]

theorem filter_order (rules : List MappingRule) (id : String) :
    (order rules).filter (·.partitionId == id) = rules.filter (·.partitionId == id) := by
  have own : ∀ i, (rules.filter (·.partitionId == i)).filter (·.partitionId == id) =
      if i = id then rules.filter (·.partitionId == id) else [] := by
    intro i
    rw [List.filter_filter]
    split
    · subst i
      simp
    · rename_i other
      refine List.filter_eq_nil_iff.mpr fun r _ both => ?_
      simp only [Bool.and_eq_true, beq_iff_eq] at both
      exact other (both.2.symm.trans both.1)
  rw [order, Partition.group, List.flatMap_map, List.filter_flatMap]
  simp only [own]
  rw [flatMap_of_nodup (TextSet.nodup _)]
  split
  · rfl
  · rename_i missing
    refine (List.filter_eq_nil_iff.mpr fun r hr named => missing ?_).symm
    exact TextSet.mem_ofList.mpr (List.mem_map.mpr ⟨r, hr, eq_of_beq named⟩)

/-- What happened when rules were run one after the other. It starts with what happened up to the end of
each of them, and by then as many connections had been closed as opened, one for each rule so far that
reaches its source. This is also what the store has counted, and all it holds, when each of these rules
has connected, asked and closed as a client. -/
structure Accounts (rules : List MappingRule) (st : Store) (s : Settings) (ran : List MappingRule)
    (happened : Option Journal) : Prop where
  whole : happened = some (Partition.journal (SubjectIndex.ofRules rules) st.dataSource s ran)
  starts : ∀ done, done <+: ran →
    Partition.journal (SubjectIndex.ofRules rules) st.dataSource s done <+:
      Partition.journal (SubjectIndex.ofRules rules) st.dataSource s ran
  opened : ∀ done, done <+: ran →
    (st.noting (Partition.journal (SubjectIndex.ofRules rules) st.dataSource s done)).opened =
      st.opened + done.countP (·.reaches (SubjectIndex.ofRules rules) st)
  closed : ∀ done, done <+: ran →
    (st.noting (Partition.journal (SubjectIndex.ofRules rules) st.dataSource s done)).closed =
      st.closed + done.countP (·.reaches (SubjectIndex.ofRules rules) st)
  balanced :
    (Partition.journal (SubjectIndex.ofRules rules) st.dataSource s ran).Balanced
  counted : ∀ done, done <+: ran →
    (Clients.mk st []).run (done.flatMap (·.steps (SubjectIndex.ofRules rules) s)) =
      ⟨st.noting (Partition.journal (SubjectIndex.ofRules rules) st.dataSource s done), []⟩

section Sequential

variable {rules : List MappingRule} {st : Store} {s : Settings} {sink : Option Sink}

theorem accounts (rules : List MappingRule) (st : Store) (s : Settings) (ran : List MappingRule) :
    Accounts rules st s ran
      (some (Partition.journal (SubjectIndex.ofRules rules) st.dataSource s ran)) where
  whole := rfl
  starts := by
    rintro done ⟨more, rfl⟩
    rw [Partition.journal_append]
    exact List.prefix_append ..
  opened done _ := by rw [Store.noting, Partition.opened_journal]
  closed done _ := by rw [Store.noting, Partition.closed_journal]
  balanced := Partition.balanced_journal st.counted_dataSource _ s ran
  counted done _ := Partition.run_steps _ st s done

/-- On one process and without a time limit, a run is its partitions in turn. -/
theorem materialize_one (one : s.processes = 1) (limit : s.timeoutSeconds = none)
    (valid : s.validate = .ok ()) (d : DataSource) :
    materialize rules d s sink =
      let attempt := Partition.runAll (SubjectIndex.ofRules rules) d s (Partition.group rules)
      match attempt.outcome with
      | .error stop => ⟨some attempt.journal, sink, .error (stopAlone stop)⟩
      | .ok finished =>
        ⟨some attempt.journal, (publish sink finished).1, (publish sink finished).2⟩ := by
  simp only [materialize, valid, limit, limited, progress, one, Nat.le_refl, if_true, sequential]
  cases (Partition.runAll (SubjectIndex.ofRules rules) d s (Partition.group rules)).outcome <;> rfl

theorem publish_ok (accepts : ∀ x ∈ sink, ∀ label, x.refuses label = false)
    (finished : List Finished) : ∃ out, (publish sink finished).2 = .ok out := by
  cases sink with
  | none => exact ⟨_, rfl⟩
  | some x =>
    have open_ : ∀ y : Sink, (∀ label, y.refuses label = false) → ∀ label lines,
        ∃ next, y.write? label lines = some next ∧ ∀ label, next.refuses label = false := by
      intro y accepts label lines
      exact ⟨{ y with shelves := Sink.put label lines y.shelves }, by simp [Sink.write?, accepts],
        accepts⟩
    obtain ⟨last, takes⟩ := Receiver.exists_takes open_ (accepts x rfl)
      ((inOrder finished).map (·.write))
    have published := Receiver.publish_of_takes takes
    simp only [Receiver.publish, ← writeAll_eq] at published
    exact ⟨_, congrArg Prod.snd published⟩

end Sequential

/-- **The accounts of a run on one process.** Without a time limit and over tables in memory: settings
that are not valid end it before anything is opened. Otherwise the rules are run in turn, those of the
partitions in ascending order of their names and those of a partition in the order of the table. If one
fails, the run ends with the error of the first that does and the sink is as it was; if none fails, the
run succeeds. Whenever a rule has ended, every connection has been closed, and there was one for each
rule so far that reaches its source. Over any other sources too, whatever goes wrong with them, there is
one connection at a time, and every connection has been closed when a rule has ended. -/
theorem sequential_accounts (rules : List MappingRule) (st : Store) {s : Settings} {sink : Option Sink}
    (one : s.processes = 1) (limit : s.timeoutSeconds = none)
    (accepts : ∀ x ∈ sink, ∀ label, x.refuses label = false) :
    let result := materialize rules st.dataSource s sink
    let outcome := fun r : MappingRule =>
      (r.run (SubjectIndex.ofRules rules) st.dataSource s).outcome
    ((order rules).Pairwise fun a b => a.partitionId ≤ b.partitionId) ∧
    (∀ id, (order rules).filter (·.partitionId == id) = rules.filter (·.partitionId == id)) ∧
    (∀ fault, s.validate = .error fault → result = ⟨some [], sink, .error (.settings fault)⟩) ∧
    (s.validate = .ok () →
      (∀ before k after stop, order rules = before ++ k :: after →
        (∀ r ∈ before, ∃ out, outcome r = .ok out) → outcome k = .error stop →
        ∃ error, stop = .failed error ∧ result.outcome = .error (.mapping error) ∧
          result.sink = sink ∧ Accounts rules st s (before ++ [k]) result.journal) ∧
      ((∀ r ∈ order rules, ∃ out, outcome r = .ok out) →
        (∃ out, result.outcome = .ok out) ∧ Accounts rules st s (order rules) result.journal) ∧
      ∀ d : DataSource, d.Counted → ∃ ran, ran <+: order rules ∧
        (materialize rules d s sink).journal =
          some (Partition.journal (SubjectIndex.ofRules rules) d s ran) ∧
        ∀ done, done <+: ran → (Partition.journal (SubjectIndex.ofRules rules) d s done).Balanced) := by
  refine ⟨ascending_order rules, filter_order rules, ?_, ?_⟩
  · intro fault invalid
    rw [materialize, invalid]
  intro valid
  refine ⟨?_, ?_, ?_⟩
  · intro before k after stop parts earlier stops
    obtain ⟨error, rfl⟩ := MappingRule.failed_of_run stops
    have first := Partition.runAll_eq_of_first parts earlier stops
    refine ⟨error, rfl, ?_⟩
    rw [materialize_one one limit valid, first]
    exact ⟨rfl, rfl, accounts ..⟩
  · intro all
    obtain ⟨finished, whole⟩ := Partition.runAll_eq_of_all all
    rw [materialize_one one limit valid, whole]
    exact ⟨publish_ok accepts finished, accounts ..⟩
  · intro d counted
    obtain ⟨ran, first, happened⟩ :=
      Partition.exists_journal_runAll (SubjectIndex.ofRules rules) d s (Partition.group rules)
    refine ⟨ran, first, ?_, fun done _ => Partition.balanced_journal counted _ s done⟩
    rw [materialize_one one limit valid, ← happened]
    generalize Partition.runAll (SubjectIndex.ofRules rules) d s (Partition.group rules) = attempt
    obtain ⟨whole, outcome⟩ := attempt
    cases outcome <;> rfl

def lostLast : List MappingRule := [lostRule "p2", countryRule "age" "p1" "http://ex/old"]

theorem order_lostLast : order lostLast = [countryRule "age" "p1" "http://ex/old", lostRule "p2"] := by
  rw [order, lostLast, Partition.group_pair (by decide)]
  rfl

theorem outcome_countryRule (triplesMap partition object : String) (index : SubjectIndex) : ∃ out,
    ((countryRule triplesMap partition object).run index countryStore.dataSource {}).outcome = .ok out := by
  obtain ⟨lines, hl⟩ := Option.isSome_iff_exists.mp
    (isSome_lines?_countryRule triplesMap partition object index)
  exact ⟨_, (MappingRule.run_eq_ok_iff (by decide)).mpr ⟨lines, hl, rfl⟩⟩

theorem materialize_lostLast {d : Disruption} (opens : d.opens) :
    materialize lostLast (countryStore.dataSource.disturbed [("db", ⟨2, some d⟩)]) {} (some {}) =
      ⟨some [.stalled 2, .opened, .closed], some {}, .error (stopAlone (d.stop "db"))⟩ := by
  obtain ⟨out, well⟩ := outcome_countryRule "age" "p1" "http://ex/old" (SubjectIndex.ofRules lostLast)
  have run : (countryRule "age" "p1" "http://ex/old").run (SubjectIndex.ofRules lostLast)
      (countryStore.dataSource.disturbed [("db", ⟨2, some d⟩)]) {} =
        ⟨.stalled 2 :: if d.opens then [.opened, .closed] else [], .error (d.stop "db")⟩ :=
    Store.run_disturbed well rfl
  have parts : (Partition.group lostLast).flatMap (·.rules) =
      [] ++ countryRule "age" "p1" "http://ex/old" :: [lostRule "p2"] := order_lostLast
  have whole := Partition.runAll_eq_of_first parts (by simp) (congrArg Attempt.outcome run)
  simp only [materialize_one (s := {}) rfl rfl rfl, whole, Partition.journal, List.nil_append,
    List.flatMap_singleton, run, opens, if_true]

/-- The rule that has lines comes first, and the run fails for the other. If the answer to the first breaks
off, or its connection reports an error when it is closed, the run fails for that, and the connection has
been closed all the same. -/
theorem accounts_of_lostRule :
    let result := materialize lostLast countryStore.dataSource {} (some {})
    let faulty := fun d : Disruption =>
      materialize lostLast (countryStore.dataSource.disturbed [("db", ⟨2, some d⟩)]) {} (some {})
    (result.outcome = .error (.mapping (.dataSource (.unknownSource "nowhere"))) ∧
      result.sink = some {} ∧
      ∃ j, result.journal = some j ∧ (countryStore.noting j).opened = 1 ∧
        (countryStore.noting j).closed = 1) ∧
    ((faulty (.breakAfter 0)).outcome = .error (.mapping (.dataSource .streamBroke)) ∧
      ∃ j, (faulty (.breakAfter 0)).journal = some j ∧ j.opened = 1 ∧ j.Balanced) ∧
    ((faulty .failClose).outcome = .error (.mapping (.dataSource .closeFailed)) ∧
      ∃ j, (faulty .failClose).journal = some j ∧ j.opened = 1 ∧ j.Balanced) := by
  intro result faulty
  have accepts : ∀ x ∈ (some {} : Option Sink), ∀ label, x.refuses label = false := by
    intro x hx label
    cases hx
    rfl
  obtain ⟨-, -, -, valid⟩ := sequential_accounts lostLast countryStore (s := {}) rfl rfl accepts
  obtain ⟨fails, -, others⟩ := valid rfl
  have stopped : ∀ d : Disruption, d.opens → (faulty d).outcome = .error (stopAlone (d.stop "db")) ∧
      ∃ j, (faulty d).journal = some j ∧ j.opened = 1 ∧ j.Balanced := by
    intro d opens
    obtain ⟨ran, -, happened, balanced⟩ := others _ (countryStore.counted_dataSource.disturbed _)
    have ended : faulty d = _ := materialize_lostLast opens
    refine ⟨by rw [ended], _, happened, ?_, balanced ran List.prefix_rfl⟩
    rw [materialize_lostLast opens] at happened
    rw [← Option.some.inj happened]
    rfl
  refine ⟨?_, stopped _ rfl, stopped _ rfl⟩
  have earlier : ∀ r ∈ [countryRule "age" "p1" "http://ex/old"], ∃ out,
      (r.run (SubjectIndex.ofRules lostLast) countryStore.dataSource {}).outcome = .ok out := by
    intro r hr
    rw [List.mem_singleton.mp hr]
    exact outcome_countryRule ..
  obtain ⟨error, stops, outcome, sink, counted⟩ :=
    fails [countryRule "age" "p1" "http://ex/old"] _ [] _ order_lostLast earlier rfl
  cases stops
  exact ⟨outcome, sink, _, counted.whole, counted.opened _ List.prefix_rfl,
    counted.closed _ List.prefix_rfl⟩

end Run

end RdfMapping
