import Mathlib.Algebra.BigOperators.Group.List.Basic
import Mathlib.Data.List.Dedup
import RdfMapping.Proofs.Run.Ends
import RdfMapping.Proofs.Run.Invariance

/-!
The order in which partitions complete does not matter to a sink.

Whatever end a run comes to, the sink gets the same writes in the same order, the reports are the same,
and a run that is stopped writes nothing (`published_in_any_order`).
-/

namespace RdfMapping

namespace Partition

theorem runRules_processes {index : SubjectIndex} {d : DataSource} {s : Settings} (n : Nat)
    (rules : List MappingRule) (lines : TextSet) :
    runRules index d { s with processes := n } rules lines = runRules index d s rules lines := by
  induction rules generalizing lines with
  | nil => rfl
  | cons r rest ih =>
    rw [runRules, runRules]
    simp only [ih]
    rfl

theorem alone_processes (n : Nat) (rules : List MappingRule) (d : DataSource) (s : Settings) :
    alone rules d { s with processes := n } = alone rules d s := by
  funext p
  rw [alone, alone, run, run, runRules_processes]

theorem ids_perm_dedup (rules : List MappingRule) :
    (TextSet.ofList (rules.map (·.partitionId))).toList.Perm (rules.map (·.partitionId)).dedup := by
  refine (List.perm_ext_iff_of_nodup (TextSet.nodup _) (List.nodup_dedup _)).mpr fun id => ?_
  rw [List.mem_dedup]
  exact TextSet.mem_ofList

theorem sum_rules_group (rules : List MappingRule) :
    ((group rules).map fun p => p.rules.length).sum = rules.length := by
  have counts : ∀ id, (rules.filter (·.partitionId == id)).length =
      (rules.map (·.partitionId)).count id := by
    intro id
    rw [← List.countP_eq_length_filter, List.count, List.countP_map]
    rfl
  rw [group, List.map_map]
  calc _ = ((TextSet.ofList (rules.map (·.partitionId))).toList.map fun id =>
          (rules.map (·.partitionId)).count id).sum :=
        congrArg List.sum (List.map_congr_left fun id _ => counts id)
    _ = ((rules.map (·.partitionId)).dedup.map fun id =>
          (rules.map (·.partitionId)).count id).sum := ((ids_perm_dedup rules).map _).sum_eq
    _ = rules.length := by rw [List.sum_map_count_dedup_eq_length, List.length_map]

end Partition

namespace Run

open RdfMapping.Partition (alone group)
open Receiver (Takes deliver)

/-- **Any order of completion.** Whatever kind of sink a run has and in whatever order its partitions
complete: if all of them finish and the sink takes the writes, it gets one write for each partition, in
ascending order of the names, the reports are in that order, and the lines are those of all partitions,
as if the partitions had been run in turn. If the sink refuses a write, it has got those before it. If
a partition is stopped, the run fails as one that is stopped does and the sink gets nothing. -/
theorem published_in_any_order {σ : Type} (write? : Receiver σ) (sink : σ) (rules : List MappingRule)
    (d : DataSource) (s : Settings) :
    (∃ ended, Ends rules d s ended) ∧
    (s.validate = .ok () → s.timeoutSeconds = none → s.processes ≤ maxWorkers → ∀ store : Sink,
      ∃ ended, Ends rules d s ended ∧
        (materialize rules d s (some store)).sink = some (deliver Sink.write? store ended).1 ∧
        (materialize rules d s (some store)).outcome = (deliver Sink.write? store ended).2) ∧
    ((group rules).Pairwise fun p q => p.id < q.id) ∧
    ((group rules).map fun p => p.rules.length).sum = rules.length ∧
    ∀ ended, Ends rules d s ended →
      ((∀ p ∈ group rules, ∃ f, alone rules d s p = .ok f) → ∃ lines : Partition → TextSet,
        (∀ p ∈ group rules, alone rules d s p = .ok (p.finished (lines p))) ∧
        (∀ last, Takes write? sink ((group rules).map fun p => (p.id, lines p)) last →
          ∃ out, deliver write? sink ended = (last, .ok out) ∧
            deliver write? sink (progress rules d { s with processes := 1 }).outcome =
              (last, .ok out) ∧
            out.partitions.map (·.report) =
              (group rules).map (fun p => (p.id, p.rules.length, (lines p).size)) ∧
            ∀ text, text ∈ out.lines ↔ ∃ p ∈ group rules, text ∈ lines p) ∧
        ∀ before p after last, group rules = before ++ p :: after →
          Takes write? sink (before.map fun p => (p.id, lines p)) last →
          write? last p.id (lines p) = none →
          deliver write? sink ended = (last, .error (.refused p.id))) ∧
      ((∃ p ∈ group rules, ∃ stop, alone rules d s p = .error stop) →
        ∃ p ∈ group rules, ∃ stop, alone rules d s p = .error stop ∧
          deliver write? sink ended = (sink, .error (stopOn s.processes stop))) := by
  refine ⟨exists_ends rules d s, ?_, Partition.ascending_group rules,
    Partition.sum_rules_group rules, ?_⟩
  · intro valid limit room store
    exact ⟨_, ends_progress room, materialize_eq_deliver valid limit store⟩
  intro ended h
  refine ⟨?_, ?_⟩
  · intro finish
    obtain ⟨lines, given⟩ := Partition.exists_lines finish
    have room : 1 ≤ maxWorkers := by decide
    have inTurn : Ends rules d { s with processes := 1 }
        (progress rules d { s with processes := 1 }).outcome := ends_progress room
    have given' : ∀ p ∈ group rules, alone rules d { s with processes := 1 } p =
        .ok (p.finished (lines p)) := by
      rw [Partition.alone_processes]
      exact given
    rw [h.deliver_eq given, inTurn.deliver_eq given']
    refine ⟨lines, given, ?_, ?_⟩
    · intro last takes
      rw [Receiver.publish_of_takes (by rw [List.map_map]; exact takes)]
      refine ⟨_, rfl, rfl, by rw [List.map_map]; rfl, ?_⟩
      intro text
      rw [mem_corpus]
      simp [Partition.finished]
    · intro before p after last parts takes refused
      rw [parts, List.map_append, List.map_cons]
      exact Receiver.publish_of_refused (by rw [List.map_map]; exact takes) refused
  · intro failing
    obtain ⟨p, hp, stop, error, rfl⟩ := h.stopped failing
    exact ⟨p, hp, stop, error, rfl⟩

/-- A sink that keeps a list of what it is given. -/
def recorder : Receiver (List (String × TextSet)) := fun got label lines => some (got ++ [(label, lines)])

def countryRules : List MappingRule :=
  [countryRule "age" "p2" "http://ex/old", countryRule "size" "p1" "http://ex/big"]

def lostRule (partition : String) : MappingRule :=
  { countryRule "size" partition "http://ex/big" with sourceName := "nowhere" }

def lostRules : List MappingRule := [countryRule "age" "p2" "http://ex/old", lostRule "p1"]

theorem group_countryRules : group countryRules =
    [⟨"p1", [countryRule "size" "p1" "http://ex/big"]⟩,
      ⟨"p2", [countryRule "age" "p2" "http://ex/old"]⟩] :=
  Partition.group_pair (by decide)

theorem finish_countryRules (p : Partition) (hp : p ∈ group countryRules) :
    ∃ f, alone countryRules countryStore.dataSource { processes := 2 } p = .ok f := by
  have some_lines : (p.given? (SubjectIndex.ofRules countryRules) countryStore false).isSome := by
    rw [Partition.isSome_given?_iff]
    intro r hr
    rcases List.mem_pair.mp (Partition.mem_group_iff.mp ⟨p, hp, hr⟩) with rfl | rfl
    · exact isSome_lines?_countryRule ..
    · exact isSome_lines?_countryRule ..
  obtain ⟨f, hf⟩ := Option.isSome_iff_exists.mp some_lines
  have chunks : 0 < Settings.chunkSize { processes := 2 } := by decide
  exact ⟨f, toOption_eq_some_iff.mp ((Partition.toOption_run chunks p).trans hf)⟩

theorem stop_lostRules : ∃ p ∈ group lostRules, ∃ stop,
    alone lostRules countryStore.dataSource { processes := 2 } p = .error stop := by
  rw [lostRules, Partition.group_pair (by decide)]
  exact ⟨_, List.mem_cons_self, _, rfl⟩

/-- On two workers the partitions of the countries are recorded in their order, and nothing is recorded
if a source is not known. -/
theorem countries_in_any_order :
    (∀ ended, Ends countryRules countryStore.dataSource { processes := 2 } ended →
      ∃ size age out, deliver recorder [] ended = ([("p1", size), ("p2", age)], .ok out)) ∧
    ∀ ended, Ends lostRules countryStore.dataSource { processes := 2 } ended →
      ∃ error, deliver recorder [] ended = ([], .error error) := by
  refine ⟨?_, ?_⟩
  · intro ended h
    obtain ⟨-, -, -, -, ends⟩ := published_in_any_order recorder [] countryRules
      countryStore.dataSource { processes := 2 }
    obtain ⟨lines, -, published, -⟩ := (ends ended h).1 finish_countryRules
    have takes : Takes recorder [] ((group countryRules).map fun p => (p.id, lines p))
        ((group countryRules).map fun p => (p.id, lines p)) := by
      rw [group_countryRules]
      exact .cons rfl (.cons rfl .nil)
    obtain ⟨out, delivered, -⟩ := published _ takes
    rw [group_countryRules] at delivered
    exact ⟨_, _, out, delivered⟩
  · intro ended h
    obtain ⟨-, -, -, -, ends⟩ := published_in_any_order recorder [] lostRules
      countryStore.dataSource { processes := 2 }
    obtain ⟨p, -, stop, -, delivered⟩ := (ends ended h).2 stop_lostRules
    exact ⟨_, delivered⟩

end Run

end RdfMapping
