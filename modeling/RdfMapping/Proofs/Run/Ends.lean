import RdfMapping.Proofs.Run.Publication
import RdfMapping.Proofs.Run.Sequence
import RdfMapping.Proofs.Run.Workers

/-!
The ends that a run may come to.

`Run.Ends` are the ends of a run whose partitions complete in any order, at most `processes` of them under
way at a time. If every partition finishes, all ends have come to the same but for the order
(`Ends.finished`), and if one of them is stopped, every end is the stop of one of them (`Ends.stopped`).
Over tables in memory this is said of the rules: whatever the order, what comes of the end is what the
partitions give (`Ends.toOption_united`), so a run succeeds exactly if each of its rules has lines
(`Ends.united_ok_iff`), and then gives these (`Ends.mem_lines`). `materialize` comes to one of its ends
(`ends_progress`, `materialize_eq_united`).
-/

namespace RdfMapping

namespace Partition

/-- What a partition of a rule table comes to on its own. -/
def alone (rules : List MappingRule) (d : DataSource) (s : Settings) (p : Partition) :
    Except Stop Finished :=
  (p.run (SubjectIndex.ofRules rules) d s).outcome

def finished (p : Partition) (lines : TextSet) : Finished := ⟨p.id, p.rules.length, lines⟩

theorem finished_of_alone {rules : List MappingRule} {d : DataSource} {s : Settings} {p : Partition}
    {f : Finished} (h : alone rules d s p = .ok f) : f = p.finished f.lines := by
  rw [alone, run, Attempt.map, map_eq_ok_iff] at h
  obtain ⟨lines, -, rfl⟩ := h
  rfl

theorem exists_lines {rules : List MappingRule} {d : DataSource} {s : Settings} {l : List Partition}
    (h : ∀ p ∈ l, ∃ f, alone rules d s p = .ok f) :
    ∃ lines : Partition → TextSet, ∀ p ∈ l, alone rules d s p = .ok (p.finished (lines p)) := by
  have shaped : ∀ p ∈ l, ∃ lines, alone rules d s p = .ok (p.finished lines) := by
    intro p hp
    obtain ⟨f, hf⟩ := h p hp
    exact ⟨f.lines, finished_of_alone hf ▸ hf⟩
  choose! lines given using shaped
  exact ⟨lines, given⟩

end Partition

theorem Settings.chunkSize_pos {s : Settings} (valid : s.validate = .ok ()) : 0 < s.chunkSize := by
  unfold Settings.validate at valid
  split at valid
  · cases valid
  · split at valid
    · cases valid
    · omega

namespace Run

open RdfMapping.Partition (alone group given?)
open Receiver (deliver)

def stopOn (processes : Nat) : Stop → RunError := if processes ≤ 1 then stopAlone else stopInPool

/-- The ends that a run without a time limit may come to. On one process the partitions run in turn, and
otherwise they are work that is done in any order. -/
inductive Ends (rules : List MappingRule) (d : DataSource) (s : Settings) :
    Except RunError (List Finished) → Prop
  | inTurn (one : s.processes ≤ 1) : Ends rules d s
      ((Partition.runAll (SubjectIndex.ofRules rules) d s (group rules)).outcome.mapError stopAlone)
  | inPool {w : Work} (several : 1 < s.processes)
      (reached : Work.Reached s.processes (alone rules d s) (group rules) w)
      (idle : Work.Over s.processes (alone rules d s) w) : Ends rules d s w.outcome

section Ends

variable {rules : List MappingRule} {d : DataSource} {s : Settings} {lines : Partition → TextSet}
  {ended : Except RunError (List Finished)}

theorem exists_ends (rules : List MappingRule) (d : DataSource) (s : Settings) :
    ∃ ended, Ends rules d s ended := by
  by_cases one : s.processes ≤ 1
  · exact ⟨_, .inTurn one⟩
  · obtain ⟨w, reached, idle⟩ :=
      Work.exists_over s.processes (alone rules d s) (.going (group rules) [] [])
    exact ⟨_, .inPool (Nat.lt_of_not_le one) reached idle⟩

theorem ends_progress (room : s.processes ≤ maxWorkers) :
    Ends rules d s (progress rules d s).outcome := by
  rw [progress]
  by_cases one : s.processes ≤ 1
  · rw [if_pos one]
    exact .inTurn one
  · have several := Nat.lt_of_not_le one
    have reached := Work.reached_schedule (Nat.lt_trans Nat.zero_lt_one several)
      (fun p => p.run (SubjectIndex.ofRules rules) d s) (group rules)
    have outcome : (pooled (group rules) (SubjectIndex.ofRules rules) d s).outcome =
        (Work.ofCollected (Schedule.collect 0 [] (Schedule.completions s.processes
          ((group rules).map fun p => p.run (SubjectIndex.ofRules rules) d s))).2).outcome := by
      simp only [pooled, if_neg (Nat.not_lt.mpr room)]
      generalize Schedule.collect 0 [] _ = collected
      obtain ⟨elapsed, result⟩ := collected
      cases result <;> rfl
    rw [if_neg one, outcome]
    exact .inPool several reached (Work.over_ofCollected _ _ _)

theorem Ends.finished (h : Ends rules d s ended)
    (given : ∀ p ∈ group rules, alone rules d s p = .ok (p.finished (lines p))) :
    ∃ finished, ended = .ok finished ∧
      finished.Perm ((group rules).map fun p => p.finished (lines p)) := by
  cases h with
  | inTurn one =>
    rw [Partition.runAll_eq_sequence, Attempt.sequence_eq_of_all given]
    exact ⟨_, rfl, .refl _⟩
  | @inPool w several reached idle =>
    rcases Work.sound_over (Nat.lt_trans Nat.zero_lt_one several) reached idle with
      ⟨finished, done, rfl, all, came⟩ | ⟨stop, rfl, p, hp, error⟩
    · have gave : done.map (alone rules d s) =
          (done.map fun p => p.finished (lines p)).map .ok := by
        rw [List.map_map]
        exact List.map_congr_left fun p hp => given p (all.mem_iff.mp hp)
      have same := (List.map_inj_right fun _ _ => Except.ok.inj).mp (came.symm.trans gave)
      exact ⟨finished, rfl, same ▸ all.map _⟩
    · cases (given p hp).symm.trans error

/-- If a partition is stopped, the run ends as one of those that are stopped. -/
theorem Ends.stopped (h : Ends rules d s ended)
    (failing : ∃ p ∈ group rules, ∃ stop, alone rules d s p = .error stop) :
    ∃ p ∈ group rules, ∃ stop, alone rules d s p = .error stop ∧
      ended = .error (stopOn s.processes stop) := by
  cases h with
  | inTurn one =>
    obtain ⟨p, hp, stop, error, last⟩ := Attempt.sequence_eq_of_some failing
    refine ⟨p, hp, stop, error, ?_⟩
    rw [Partition.runAll_eq_sequence, last, stopOn, if_pos one]
    rfl
  | @inPool w several reached idle =>
    rcases Work.sound_over (Nat.lt_trans Nat.zero_lt_one several) reached idle with
      ⟨finished, done, rfl, all, came⟩ | ⟨stop, rfl, p, hp, error⟩
    · -- all that were done have given something, and one of them was stopped
      obtain ⟨p, hp, stop, error⟩ := failing
      have member : alone rules d s p ∈ done.map (alone rules d s) :=
        List.mem_map_of_mem (all.mem_iff.mpr hp)
      rw [came, error] at member
      obtain ⟨f, -, absurd⟩ := List.mem_map.mp member
      cases absurd
    · refine ⟨p, hp, stop, error, ?_⟩
      rw [stopOn, if_neg (Nat.not_le.mpr several)]
      rfl

theorem Ends.deliver_eq {σ : Type} (h : Ends rules d s ended)
    (given : ∀ p ∈ group rules, alone rules d s p = .ok (p.finished (lines p))) (write? : Receiver σ)
    (sink : σ) :
    deliver write? sink ended =
      (Receiver.publish write? sink ((group rules).map fun p => p.finished (lines p))) := by
  obtain ⟨finished, rfl, perm⟩ := h.finished given
  have ascending : ((group rules).map fun p => p.finished (lines p)).Pairwise
      fun f g => f.id < g.id := by
    rw [List.pairwise_map]
    exact Partition.ascending_group rules
  rw [deliver, inOrder_of_perm ascending perm]

end Ends

/-! ## Over tables in memory -/

/-- What a run without a sink gives, if it comes to a given end. -/
def united (ended : Except RunError (List Finished)) : Except RunError Materialization :=
  ended.map fun finished => ⟨corpus (inOrder finished), inOrder finished⟩

theorem materialize_eq_united {rules : List MappingRule} {d : DataSource} {s : Settings}
    (valid : s.validate = .ok ()) (limit : s.timeoutSeconds = none) :
    (materialize rules d s none).outcome = united (progress rules d s).outcome := by
  simp only [materialize, valid, limit, limited]
  cases (progress rules d s).outcome <;> rfl

section Stores

variable {rules : List MappingRule} {st : Store} {s : Settings}
  {ended : Except RunError (List Finished)} (h : Ends rules st.dataSource s ended)
  (valid : s.validate = .ok ())

include h valid

/-- Whatever the order in which partitions complete, a run gives what they give, in the order of their
names, and nothing if one of them does not finish. -/
theorem Ends.toOption_united : (united ended).toOption =
    ((group rules).mapM (given? (SubjectIndex.ofRules rules) st s.coerceFloat)).map fun given =>
      ⟨corpus given, given⟩ := by
  have each : ∀ p, (alone rules st.dataSource s p).toOption =
      given? (SubjectIndex.ofRules rules) st s.coerceFloat p :=
    Partition.toOption_run (Settings.chunkSize_pos valid)
  -- all partitions finish, or one is stopped; the order of the ends matters in neither case
  cases all : (group rules).mapM (given? (SubjectIndex.ofRules rules) st s.coerceFloat) with
  | some given =>
    have finish : ∀ p ∈ group rules, ∃ f, alone rules st.dataSource s p = .ok f := by
      intro p hp
      obtain ⟨f, hf⟩ := Option.isSome_iff_exists.mp (isSome_of_mapM all p hp)
      exact ⟨f, toOption_eq_some_iff.mp ((each p).trans hf)⟩
    obtain ⟨lines, gave⟩ := Partition.exists_lines finish
    obtain ⟨finished, rfl, perm⟩ := h.finished gave
    have same : (group rules).mapM (given? (SubjectIndex.ofRules rules) st s.coerceFloat) =
        some ((group rules).map fun p => p.finished (lines p)) := by
      apply mapM_eq_map
      intro p hp
      rw [← each p, gave p hp, toOption_ok]
    obtain rfl := Option.some.inj (all.symm.trans same)
    rw [united, toOption_map, toOption_ok, Option.map_some, Option.map_some,
      inOrder_of_perm (Partition.ascending_of_mapM all) perm]
  | none =>
    have failing : ∃ p ∈ group rules, ∃ stop, alone rules st.dataSource s p = .error stop := by
      have some_missing : ¬∀ p ∈ group rules,
          (given? (SubjectIndex.ofRules rules) st s.coerceFloat p).isSome := by
        rw [← isSome_mapM_iff, all]
        exact Bool.false_ne_true
      push Not at some_missing
      obtain ⟨p, hp, missing⟩ := some_missing
      rw [← each p] at missing
      cases stops : alone rules st.dataSource s p with
      | error stop => exact ⟨p, hp, stop, stops⟩
      | ok f => simp [stops] at missing
    obtain ⟨p, -, stop, -, rfl⟩ := h.stopped failing
    rfl

theorem Ends.united_ok_iff : (∃ out, united ended = .ok out) ↔
    ∀ r ∈ rules, (r.lines? (SubjectIndex.ofRules rules) st s.coerceFloat).isSome := by
  simp only [← toOption_eq_some_iff, h.toOption_united valid]
  rw [← Option.isSome_iff_exists, Option.isSome_map, isSome_mapM_iff]
  refine ⟨?_, ?_⟩
  · intro all r hr
    obtain ⟨p, hp, hrp⟩ := Partition.mem_group_iff.mpr hr
    exact Partition.isSome_given?_iff.mp (all p hp) r hrp
  · intro all p hp
    exact Partition.isSome_given?_iff.mpr fun r hr => all r (Partition.mem_group_iff.mp ⟨p, hp, hr⟩)

theorem Ends.mem_lines {out : Materialization} (gives : united ended = .ok out) {text : String} :
    text ∈ out.lines ↔ ∃ r ∈ rules, ∃ lines,
      r.lines? (SubjectIndex.ofRules rules) st s.coerceFloat = some lines ∧ text ∈ lines := by
  rw [← toOption_eq_some_iff, h.toOption_united valid] at gives
  obtain ⟨given, all, rfl⟩ := Option.map_eq_some_iff.mp gives
  rw [mem_corpus]
  refine ⟨?_, ?_⟩
  · intro written
    obtain ⟨f, hf, ht⟩ := written
    obtain ⟨p, hp, hpf⟩ := (mem_of_mapM all).mp hf
    obtain ⟨r, hr, lines, hl, hm⟩ := (Partition.mem_lines_given? hpf).mp ht
    exact ⟨r, Partition.mem_group_iff.mp ⟨p, hp, hr⟩, lines, hl, hm⟩
  · intro written
    obtain ⟨r, hr, lines, hl, hm⟩ := written
    obtain ⟨p, hp, hrp⟩ := Partition.mem_group_iff.mpr hr
    obtain ⟨f, hpf⟩ := Option.isSome_iff_exists.mp (isSome_of_mapM all p hp)
    exact ⟨f, (mem_of_mapM all).mpr ⟨p, hp, hpf⟩,
      (Partition.mem_lines_given? hpf).mpr ⟨r, hrp, lines, hl, hm⟩⟩

end Stores

end Run

end RdfMapping
