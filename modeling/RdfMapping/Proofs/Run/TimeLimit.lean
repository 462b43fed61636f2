import RdfMapping.Proofs.Run.VirtualTime

/-!
A time limit only cuts a run off.

`Moment.Follows` sets a run under a time limit beside the run without one that takes the same steps. The
limit cuts the run off when the time has come, unless it is over or publishes, which takes no time. So the
run under the limit either ends as the one without it, or it was cut off and the sink is as it was at the
start, and the latter only if the other takes as long as the limit (`Follows.ends`). A run over tables in
memory takes no time (`elapsed_run_store`, `latest_start`). What `materialize` comes to with and without a
limit is a pair of such runs (`follows_materialize`).
-/

namespace RdfMapping

namespace Journal

theorem elapsed_append (j k : Journal) : Journal.elapsed (j ++ k) = j.elapsed + k.elapsed := by
  induction j with
  | nil => exact (Nat.zero_add _).symm
  | cons e rest ih =>
    show secondsOf e + Journal.elapsed (rest ++ k) = secondsOf e + Journal.elapsed rest + k.elapsed
    omega

end Journal

namespace Run

open RdfMapping.Partition (group)

/-! ## The settings of a run -/

theorem runRules_limit {index : SubjectIndex} {d : DataSource} {s : Settings} (limit : Option Nat)
    (rules : List MappingRule) (lines : TextSet) :
    Partition.runRules index d { s with timeoutSeconds := limit } rules lines =
      Partition.runRules index d s rules lines := by
  induction rules generalizing lines with
  | nil => rfl
  | cons r rest ih =>
    rw [Partition.runRules, Partition.runRules]
    simp only [ih]
    rfl

theorem progress_limit (rules : List MappingRule) (d : DataSource) (s : Settings) (limit : Option Nat) :
    progress rules d { s with timeoutSeconds := limit } = progress rules d s := by
  have same : ∀ p : Partition, p.run (SubjectIndex.ofRules rules) d { s with timeoutSeconds := limit } =
      p.run (SubjectIndex.ofRules rules) d s := by
    intro p
    unfold Partition.run
    rw [runRules_limit]
  have inTurn : Partition.runAll (SubjectIndex.ofRules rules) d { s with timeoutSeconds := limit }
      (group rules) = Partition.runAll (SubjectIndex.ofRules rules) d s (group rules) := by
    simp only [Partition.runAll_eq_sequence, same]
  unfold progress sequential pooled
  simp only [inTurn, same]

theorem processes_pos {s : Settings} (valid : s.validate = .ok ()) : 0 < s.processes := by
  unfold Settings.validate at valid
  split at valid
  · cases valid
  · omega

theorem validate_limit {s : Settings} (valid : s.validate = .ok ()) {seconds : Nat} (some_ : 1 ≤ seconds) :
    { s with timeoutSeconds := some seconds }.validate = .ok () := by
  unfold Settings.validate at valid ⊢
  split at valid
  · cases valid
  · rename_i processes
    split at valid
    · cases valid
    · rename_i rows
      rw [if_neg processes, if_neg rows, if_neg (by simp; omega)]

section Materialize

variable {rules : List MappingRule} {d : DataSource} {s : Settings} (valid : s.validate = .ok ())

include valid

theorem ended_materialize (free : s.timeoutSeconds = none) (sink : Option Sink) (time : Nat) :
    Moment.ended sink time (progress rules d s).outcome =
      ⟨time, .done (materialize rules d s sink).outcome, (materialize rules d s sink).sink⟩ := by
  unfold materialize limited
  rw [valid, free]
  dsimp only
  cases (progress rules d s).outcome <;> rfl

section Limited

variable {seconds : Nat} (some_ : 1 ≤ seconds) (sink : Option Sink)

include some_

theorem materialize_of_le (free : s.timeoutSeconds = none) (inTime : (progress rules d s).elapsed ≤ seconds) :
    materialize rules d { s with timeoutSeconds := some seconds } sink = materialize rules d s sink := by
  unfold materialize
  rw [validate_limit valid some_, valid, progress_limit rules d s (some seconds), free]
  unfold limited
  simp only [if_neg (Nat.not_lt.mpr inTime)]

theorem materialize_of_lt (late : seconds < (progress rules d s).elapsed) :
    (materialize rules d { s with timeoutSeconds := some seconds } sink).outcome =
        .error (.timedOut seconds) ∧
      (materialize rules d { s with timeoutSeconds := some seconds } sink).sink = sink := by
  unfold materialize
  rw [validate_limit valid some_, progress_limit rules d s (some seconds)]
  unfold limited
  simp only [if_pos late, and_self]

end Limited

end Materialize

namespace Moment

/-! ## Runs that are cut off -/

/-- A run under a limit of so many seconds, each of them `perSecond` ticks long, beside the run without a
limit that takes the same steps: the last moment of the latter, and the sink and the outcome of the former.
A run that works when the time has come may be cut off. -/
inductive Follows (processes perSecond seconds : Nat) :
    Moment → Moment → Option Sink × Except RunError Materialization → Prop
  | done {m outcome} (is_done : m.stage = .done outcome) :
      Follows processes perSecond seconds m m (m.sink, outcome)
  | step {m next last given} (first : Step processes m next) (inTime : next.now ≤ seconds * perSecond)
      (others : Follows processes perSecond seconds next last given) :
      Follows processes perSecond seconds m last given
  | cut {m last} (working : m.Working) (now : m.now = seconds * perSecond)
      (goes_on : Runs processes m last) :
      Follows processes perSecond seconds m last (m.sink, .error (.timedOut seconds))

section Limit

variable {processes perSecond seconds : Nat} {m last : Moment}
  {given : Option Sink × Except RunError Materialization}

theorem Follows.runs (h : Follows processes perSecond seconds m last given) : Runs processes m last := by
  induction h with
  | done is_done => exact .done is_done
  | step first _ _ ih => exact .step first ih
  | cut _ _ goes_on => exact goes_on

/-- A run under a limit ends as without it, and in time, or it is cut off before it has done anything but
work. -/
theorem Follows.ends (h : Follows processes perSecond seconds m last given)
    (inTime : m.now ≤ seconds * perSecond) :
    (last.now ≤ seconds * perSecond ∧ ∃ outcome, last.stage = .done outcome ∧ given = (last.sink, outcome)) ∨
      m.Working ∧ seconds * perSecond ≤ last.now ∧ given = (m.sink, .error (.timedOut seconds)) := by
  induction h with
  | done is_done => exact .inl ⟨inTime, _, is_done, rfl⟩
  | step first next _ ih =>
    rcases ih next with whole | ⟨working, late, rfl⟩
    · exact .inl whole
    · obtain ⟨earlier, sink⟩ := first.of_working working
      exact .inr ⟨earlier, late, by rw [sink]⟩
  | cut working now goes_on => exact .inr ⟨working, now ▸ goes_on.now_ge, rfl⟩

theorem Runs.follows_of_le (h : Runs processes m last) (inTime : last.now ≤ seconds * perSecond)
    {outcome : Except RunError Materialization} (is_done : last.stage = .done outcome) :
    Follows processes perSecond seconds m last (last.sink, outcome) := by
  induction h with
  | done => exact .done is_done
  | step first others ih => exact .step first (Nat.le_trans others.now_ge inTime) (ih inTime is_done)

theorem Runs.exists_follows (h : Runs processes m last) (inTime : m.now ≤ seconds * perSecond) :
    ∃ given, Follows processes perSecond seconds m last given := by
  induction h with
  | done is_done => exact ⟨_, .done is_done⟩
  | @step m next last first others ih =>
    by_cases later : next.now ≤ seconds * perSecond
    · obtain ⟨given, rest⟩ := ih later
      exact ⟨given, .step first later rest⟩
    · -- the time would pass the limit, so this is when the run is cut off
      rcases first.now_eq with same | ⟨passed, working⟩
      · omega
      · exact ⟨_, .cut working (by omega) (.step first others)⟩

theorem Runs.follows_of_lt (h : Runs processes m last) (inTime : m.now ≤ seconds * perSecond)
    (late : seconds * perSecond < last.now) :
    Follows processes perSecond seconds m last (m.sink, .error (.timedOut seconds)) := by
  obtain ⟨given, follows⟩ := h.exists_follows inTime
  rcases follows.ends inTime with ⟨early, -⟩ | ⟨-, -, rfl⟩
  · omega
  · exact follows

end Limit

/-- What `materialize` comes to with a limit and without one is such a pair. -/
theorem follows_materialize (rules : List MappingRule) (d : DataSource) {s : Settings}
    (valid : s.validate = .ok ()) (free : s.timeoutSeconds = none) {seconds : Nat} (some_ : 1 ≤ seconds)
    (sink : Option Sink) :
    let limited := materialize rules d { s with timeoutSeconds := some seconds } sink
    let whole := materialize rules d s sink
    Follows s.processes 1 seconds
      (start s.processes ((group rules).map fun p => p.run (SubjectIndex.ofRules rules) d s) sink)
      ⟨(progress rules d s).elapsed, .done whole.outcome, whole.sink⟩ (limited.sink, limited.outcome) := by
  intro limited whole
  have runs := runs_progress rules d (processes_pos valid) sink
  rw [ended_materialize valid free] at runs
  by_cases late : seconds < (progress rules d s).elapsed
  · obtain ⟨outcome, same⟩ := materialize_of_lt valid some_ sink late
    rw [show limited.outcome = _ from outcome, show limited.sink = _ from same]
    exact runs.follows_of_lt (Nat.zero_le _) (by simpa using late)
  · have inTime := Nat.le_of_not_lt late
    rw [show limited = whole from materialize_of_le valid some_ sink free inTime]
    exact runs.follows_of_le (by simpa using inTime) rfl

/-! ## Tables in memory -/

theorem elapsed_andThen {α β : Type} {a : Attempt α} {f : α → Attempt β} (first : a.journal.elapsed = 0)
    (second : ∀ x, (f x).journal.elapsed = 0) : (a.andThen f).journal.elapsed = 0 := by
  unfold Attempt.andThen
  cases a.outcome with
  | error stop => exact first
  | ok x =>
    show Journal.elapsed (a.journal ++ (f x).journal) = 0
    rw [Journal.elapsed_append, first, second]

theorem elapsed_sequence {α : Type} {attempts : List (Attempt α)}
    (instant : ∀ a ∈ attempts, a.journal.elapsed = 0) :
    (Attempt.sequence attempts).journal.elapsed = 0 := by
  induction attempts with
  | nil => rfl
  | cons a rest ih =>
    obtain ⟨head, tail⟩ := List.forall_mem_cons.mp instant
    exact elapsed_andThen head fun _ => ih tail

/-- Over tables in memory a partition takes no time. -/
theorem elapsed_run_store (p : Partition) (index : SubjectIndex) (st : Store) (s : Settings) :
    (p.run index st.dataSource s).journal.elapsed = 0 := by
  show (Partition.runRules index st.dataSource s p.rules ∅).journal.elapsed = 0
  rw [Partition.runRules_eq_sequence]
  show (Attempt.sequence _).journal.elapsed = 0
  refine elapsed_sequence fun a ha => ?_
  obtain ⟨r, -, rfl⟩ := List.mem_map.mp ha
  unfold MappingRule.run
  cases r.plan index with
  | error e => rfl
  | ok plan =>
    show (st.dataSource.run _ _ _).journal.elapsed = 0
    rw [st.run_eq]
    cases st.connect r.sourceName <;> rfl

theorem latest_start {processes : Nat} {attempts : List (Attempt Finished)}
    (instant : ∀ a ∈ attempts, a.journal.elapsed = 0) (sink : Option Sink) :
    (start processes attempts sink).latest = 0 := by
  have none : timeLeft (tasks processes attempts) = 0 := by
    refine List.sum_eq_zero fun n hn => ?_
    obtain ⟨t, ht, rfl⟩ := List.mem_map.mp hn
    unfold tasks at ht
    split at ht
    · rw [List.mem_singleton.mp ht]
      exact elapsed_sequence instant
    · obtain ⟨a, ha, rfl⟩ := List.mem_map.mp ht
      exact instant a ha
  unfold start latest
  split
  · rename_i same
    split at same
    · cases same
    · cases same
      show 0 + timeLeft (tasks processes attempts) + timeLeft [] = 0
      rw [none]
      rfl
  · rfl

end Moment

open Moment (Follows Runs)

/-- **A time limit only cuts a run off.** Whatever the partitions of a rule table come to, however long
they stall and in whatever order they are worked on, a run comes to an end, and the run under a limit that
takes the same steps either ends as it does, or it has timed out and left the sink as it was. It ends as
the other if that ends before the limit. What `materialize` gives with and without the limit is a pair of
such runs. Over tables in memory no run is cut off. A limit is set in whole seconds, at least one, so it is
never one that is not allowed. -/
theorem limit_only_cuts (rules : List MappingRule) {s : Settings} (valid : s.validate = .ok ())
    (free : s.timeoutSeconds = none) {seconds : Nat} (some_ : 1 ≤ seconds) (sink : Option Sink) :
    let limited : Settings := { s with timeoutSeconds := some seconds }
    let begins := fun attempt : Partition → Attempt Finished =>
      Moment.start s.processes ((group rules).map attempt) sink
    limited.validate = .ok () ∧
    (∀ (attempt : Partition → Attempt Finished) (perSecond : Nat),
      (∃ last, Runs s.processes (begins attempt) last) ∧
      (∀ last, Runs s.processes (begins attempt) last →
        ∃ given, Follows s.processes perSecond seconds (begins attempt) last given) ∧
      ∀ last given, Follows s.processes perSecond seconds (begins attempt) last given →
        Runs s.processes (begins attempt) last ∧ ∃ outcome, last.stage = .done outcome ∧
          (given = (last.sink, outcome) ∨ given = (sink, .error (.timedOut seconds))) ∧
          (last.now < seconds * perSecond → given = (last.sink, outcome))) ∧
    (∀ d : DataSource,
      let whole := materialize rules d s sink
      let cut := materialize rules d limited sink
      ((progress rules d s).elapsed ≤ seconds → cut = whole) ∧
      (seconds < (progress rules d s).elapsed →
        cut.outcome = .error (.timedOut seconds) ∧ cut.sink = sink) ∧
      Follows s.processes 1 seconds (begins fun p => p.run (SubjectIndex.ofRules rules) d s)
        ⟨(progress rules d s).elapsed, .done whole.outcome, whole.sink⟩ (cut.sink, cut.outcome)) ∧
    (∀ st : Store,
      materialize rules st.dataSource limited sink = materialize rules st.dataSource s sink ∧
      ∀ perSecond, 0 < perSecond → ∀ last given,
        Follows s.processes perSecond seconds
          (begins fun p => p.run (SubjectIndex.ofRules rules) st.dataSource s) last given →
        ∃ outcome, last.stage = .done outcome ∧ given = (last.sink, outcome)) ∧
    ∀ (t : Settings) (d : Duration), (t.withTimeout d).timeoutSeconds = some (max d.seconds 1) ∧
      (t.withTimeout d).validate = { t with timeoutSeconds := none }.validate := by
  intro limited begins
  -- how a run under the limit may end, which is needed for any attempts and again for tables
  have ends : ∀ (attempt : Partition → Attempt Finished) (perSecond : Nat) (last given),
      Follows s.processes perSecond seconds (begins attempt) last given →
        ∃ outcome, last.stage = .done outcome ∧
          (given = (last.sink, outcome) ∨ given = (sink, .error (.timedOut seconds))) ∧
          (last.now < seconds * perSecond → given = (last.sink, outcome)) := by
    intro attempt perSecond last given follows
    rcases follows.ends (Nat.zero_le _) with ⟨-, outcome, is_done, same⟩ | ⟨-, late, same⟩
    · exact ⟨outcome, is_done, .inl same, fun _ => same⟩
    · obtain ⟨outcome, is_done⟩ := follows.runs.exists_done
      exact ⟨outcome, is_done, .inr same, fun early => absurd early (Nat.not_lt.mpr late)⟩
  refine ⟨validate_limit valid some_, ?_, ?_, ?_, ?_⟩
  · intro attempt perSecond
    refine ⟨Moment.exists_runs (processes_pos valid) _, fun last runs => ?_, fun last given follows => ?_⟩
    · exact runs.exists_follows (Nat.zero_le _)
    · exact ⟨follows.runs, ends attempt perSecond last given follows⟩
  · intro d
    exact ⟨materialize_of_le valid some_ sink free, materialize_of_lt valid some_ sink,
      Moment.follows_materialize rules d valid free some_ sink⟩
  · intro st
    have instant : ∀ a ∈ (group rules).map fun p => p.run (SubjectIndex.ofRules rules) st.dataSource s,
        a.journal.elapsed = 0 := by
      intro a ha
      obtain ⟨p, -, rfl⟩ := List.mem_map.mp ha
      exact Moment.elapsed_run_store ..
    refine ⟨?_, fun perSecond positive last given follows => ?_⟩
    · have runs := Moment.runs_progress rules st.dataSource (processes_pos valid) sink
      rw [ended_materialize valid free] at runs
      have none : (progress rules st.dataSource s).elapsed ≤ 0 :=
        Moment.latest_start instant sink ▸ runs.now_le
      exact materialize_of_le valid some_ sink free (Nat.le_trans none (Nat.zero_le _))
    · obtain ⟨outcome, is_done, -, same⟩ := ends _ perSecond last given follows
      refine ⟨outcome, is_done, same ?_⟩
      have early : last.now ≤ 0 := Moment.latest_start instant sink ▸ follows.runs.now_le
      exact Nat.lt_of_le_of_lt early (Nat.mul_pos some_ positive)
  · intro t d
    refine ⟨rfl, ?_⟩
    have positive : max d.seconds 1 ≠ 0 := by omega
    unfold Settings.validate Settings.withTimeout
    simp [positive]

def tardy : DataSource where
  connect source :=
    (Attempt.happens (.stalled 5)).andThen fun _ => .failed (.dataSource (.refused source))

/-- On two workers the tardy source is cut off after three seconds, and not after seven, and tables in
memory are not cut off after one. -/
theorem countries_cut_off :
    let run := fun (d : DataSource) (limit : Option Nat) =>
      materialize countryRules d { processes := 2, timeoutSeconds := limit } (some {})
    ((run tardy (some 3)).outcome = .error (.timedOut 3) ∧ (run tardy (some 3)).sink = some {}) ∧
      run tardy (some 7) = run tardy none ∧
      run countryStore.dataSource (some 1) = run countryStore.dataSource none := by
  intro run
  have elapsed : (progress countryRules tardy { processes := 2 }).elapsed = 5 := by
    unfold progress
    rw [group_countryRules]
    rfl
  have limited := fun seconds (some_ : 1 ≤ seconds) =>
    limit_only_cuts countryRules (s := { processes := 2 }) rfl rfl some_ (some {})
  obtain ⟨-, -, three, -⟩ := limited 3 (by decide)
  obtain ⟨-, -, seven, -⟩ := limited 7 (by decide)
  obtain ⟨-, -, -, memory, -⟩ := limited 1 (by decide)
  exact ⟨(three tardy).2.1 (by rw [elapsed]; decide), (seven tardy).1 (by rw [elapsed]; decide),
    (memory countryStore).1⟩

end Run

end RdfMapping
