import RdfMapping.Proofs.Run.AnyOrder

/-!
A run from moment to moment.

Tasks are worked on in any order by one thread (`Moment.Step`), and time passes only when every task that
has a worker is stalled and nothing else can be done. Time is counted in ticks, however long a tick may
be. A run hands nothing to the sink before all of its tasks have ended and given something
(`Step.of_working`), so a run that is cut off while it works leaves the sink as it was. Every run comes to
an end (`exists_runs`), and not later than if its tasks were run in turn (`Runs.now_le`).
-/

namespace RdfMapping.Run

/-- A task: what is still to happen in it, and what it gives then. -/
abbrev Task := Attempt (List Finished)

namespace Task

def Stalled (t : Task) : Prop := ∃ n rest, t.journal = .stalled (n + 1) :: rest

def tick (t : Task) : Task :=
  match t.journal with
  | .stalled n :: rest => ⟨.stalled (n - 1) :: rest, t.outcome⟩
  | _ => t

end Task

/-- What a run is about: it works on its tasks, of which some wait for a worker, some have one, some have
ended and some have been found to have finished; it publishes what has finished; or it is over. -/
inductive Stage where
  | working (waiting running : List Task) (ended : List (Except Stop (List Finished)))
      (finished : List Finished)
  | publishing (left all : List Finished)
  | done (outcome : Except RunError Materialization)

structure Moment where
  now : Nat
  stage : Stage
  sink : Option Sink

namespace Moment

/-- What can happen next. A free worker takes a task that waits, a task goes on until it stalls, a task
ends, the run finds a task that has ended and either keeps what it gives or stops, a tick passes, or
the run publishes, one partition after the other. -/
inductive Step (processes : Nat) : Moment → Moment → Prop
  | start {now sink before t after running ended finished} (free : running.length < processes) :
      Step processes ⟨now, .working (before ++ t :: after) running ended finished, sink⟩
        ⟨now, .working (before ++ after) (running ++ [t]) ended finished, sink⟩
  | proceed {now sink waiting before e journal outcome after ended finished}
      (instant : Journal.secondsOf e = 0) :
      Step processes
        ⟨now, .working waiting (before ++ ⟨e :: journal, outcome⟩ :: after) ended finished, sink⟩
        ⟨now, .working waiting (before ++ ⟨journal, outcome⟩ :: after) ended finished, sink⟩
  | finish {now sink waiting before outcome after ended finished} :
      Step processes
        ⟨now, .working waiting (before ++ ⟨[], outcome⟩ :: after) ended finished, sink⟩
        ⟨now, .working waiting (before ++ after) (ended ++ [outcome]) finished, sink⟩
  | join {now sink waiting running before more after finished} :
      Step processes ⟨now, .working waiting running (before ++ .ok more :: after) finished, sink⟩
        ⟨now, .working waiting running (before ++ after) (finished ++ more), sink⟩
  | stop {now sink waiting running before stop after finished} :
      Step processes ⟨now, .working waiting running (before ++ .error stop :: after) finished, sink⟩
        ⟨now, .done (.error (stopOn processes stop)), sink⟩
  | pass {now sink waiting running finished} (busy : waiting = [] ∨ processes ≤ running.length)
      (some_ : running ≠ []) (stalled : ∀ t ∈ running, Task.Stalled t) :
      Step processes ⟨now, .working waiting running [] finished, sink⟩
        ⟨now + 1, .working waiting (running.map Task.tick) [] finished, sink⟩
  | publish {now sink finished} :
      Step processes ⟨now, .working [] [] [] finished, sink⟩
        ⟨now, .publishing (inOrder finished) (inOrder finished), sink⟩
  | write {now x next f left all} (taken : Sink.write? x f.id f.lines = some next) :
      Step processes ⟨now, .publishing (f :: left) all, some x⟩ ⟨now, .publishing left all, some next⟩
  | refuse {now x f left all} (refused : Sink.write? x f.id f.lines = none) :
      Step processes ⟨now, .publishing (f :: left) all, some x⟩
        ⟨now, .done (.error (.refused f.id)), some x⟩
  | unite {now sink left all} (handed : left = [] ∨ sink = none) :
      Step processes ⟨now, .publishing left all, sink⟩ ⟨now, .done (.ok ⟨corpus all, all⟩), sink⟩

/-- The tasks of a run: on one process, all partitions in turn are one task. -/
def tasks (processes : Nat) (attempts : List (Attempt Finished)) : List Task :=
  if processes ≤ 1 then [Attempt.sequence attempts] else attempts.map (·.map ([·]))

/-- A run at its start. It crashes at once if there cannot be as many workers. -/
def start (processes : Nat) (attempts : List (Attempt Finished)) (sink : Option Sink) : Moment :=
  ⟨0, if maxWorkers < processes then .done (.error .crashed)
    else .working (tasks processes attempts) [] [] [], sink⟩

def Working (m : Moment) : Prop :=
  ∃ waiting running ended finished, m.stage = .working waiting running ended finished

/-- A whole run from a moment on, without a time limit, and its last moment. -/
inductive Runs (processes : Nat) : Moment → Moment → Prop
  | done {m outcome} (is_done : m.stage = .done outcome) : Runs processes m m
  | step {m next last} (first : Step processes m next) (others : Runs processes next last) :
      Runs processes m last

section Steps

variable {processes : Nat} {m next last : Moment}

/-- Time does not go back, and it passes only while the run works. -/
theorem Step.now_eq (h : Step processes m next) :
    next.now = m.now ∨ next.now = m.now + 1 ∧ m.Working := by
  cases h with
  | pass => exact .inr ⟨rfl, _, _, _, _, rfl⟩
  | _ => exact .inl rfl

theorem Step.of_working (h : Step processes m next) (working : next.Working) :
    m.Working ∧ next.sink = m.sink := by
  obtain ⟨waiting, running, ended, finished, same⟩ := working
  cases h with
  | start | proceed | finish | join | pass => exact ⟨⟨_, _, _, _, rfl⟩, rfl⟩
  | _ => cases same

theorem Runs.now_ge (h : Runs processes m last) : m.now ≤ last.now := by
  induction h with
  | done => exact Nat.le_refl _
  | step first _ ih =>
    rcases first.now_eq with same | ⟨later, -⟩ <;> omega

theorem Runs.exists_done (h : Runs processes m last) : ∃ outcome, last.stage = .done outcome := by
  induction h with
  | done is_done => exact ⟨_, is_done⟩
  | step _ _ ih => exact ih

theorem Runs.trans (h : Relation.ReflTransGen (Step processes) m next) (rest : Runs processes next last) :
    Runs processes m last := by
  induction h using Relation.ReflTransGen.head_induction_on with
  | refl => exact rest
  | head first _ ih => exact .step first ih

/-! ## Every run comes to an end -/

/-- The time that tasks still take. -/
def timeLeft (tasks : List Task) : Nat := (tasks.map fun t => t.journal.elapsed).sum

def workLeft (tasks : List Task) : Nat := (tasks.map fun t => t.journal.length + t.journal.elapsed).sum

def left : Stage → Nat
  | .working waiting running ended _ =>
    workLeft waiting + 3 * waiting.length + (workLeft running + 2 * running.length) + ended.length
  | _ => 0

theorem elapsed_tick {t : Task} (h : t.Stalled) :
    (Task.tick t).journal.elapsed + 1 = t.journal.elapsed ∧
      (Task.tick t).journal.length = t.journal.length ∧ (Task.tick t).outcome = t.outcome := by
  obtain ⟨n, rest, same⟩ := h
  unfold Task.tick
  rw [same]
  refine ⟨?_, rfl, rfl⟩
  show n + 1 - 1 + Journal.elapsed rest + 1 = n + 1 + Journal.elapsed rest
  omega

theorem timeLeft_tick {tasks : List Task} (stalled : ∀ t ∈ tasks, Task.Stalled t) :
    timeLeft (tasks.map Task.tick) + tasks.length = timeLeft tasks ∧
      workLeft (tasks.map Task.tick) + tasks.length = workLeft tasks := by
  induction tasks with
  | nil => exact ⟨rfl, rfl⟩
  | cons t rest ih =>
    obtain ⟨head, tail⟩ := List.forall_mem_cons.mp stalled
    obtain ⟨time, length, -⟩ := elapsed_tick head
    obtain ⟨times, works⟩ := ih tail
    simp only [timeLeft, workLeft, List.map_cons, List.sum_cons, List.length_cons] at times works ⊢
    omega

/-- While the run works, less and less is left to do. -/
theorem left_step (h : Step processes m next) (working : next.Working) :
    left next.stage < left m.stage := by
  obtain ⟨_, _, _, _, same⟩ := working
  cases h with
  | start =>
    simp only [left, workLeft, List.map_append, List.map_cons, List.map_nil, List.sum_append,
      List.sum_cons, List.sum_nil, List.length_append, List.length_cons, List.length_nil]
    omega
  | proceed =>
    simp only [left, workLeft, List.map_append, List.map_cons, List.sum_append, List.sum_cons,
      List.length_append, List.length_cons, Journal.elapsed]
    omega
  | finish =>
    simp only [left, workLeft, List.map_append, List.map_cons, List.sum_append,
      List.sum_cons, List.length_append, List.length_cons, List.length_nil]
    omega
  | join =>
    simp only [left, List.length_append, List.length_cons]
    omega
  | @pass now sink waiting running finished busy some_ stalled =>
    -- the only step in which nothing moves: the stalls themselves get shorter
    have works := (timeLeft_tick stalled).2
    have count := List.length_pos_iff.mpr some_
    simp only [left, List.length_map, List.length_nil]
    omega
  | _ => cases same

theorem ended_or_goes_on_or_stalled (t : Task) :
    (∃ outcome, t = ⟨[], outcome⟩) ∨
      (∃ e journal outcome, t = ⟨e :: journal, outcome⟩ ∧ Journal.secondsOf e = 0) ∨ t.Stalled := by
  obtain ⟨journal, outcome⟩ := t
  cases journal with
  | nil => exact .inl ⟨outcome, rfl⟩
  | cons e rest =>
    right
    cases e with
    | stalled n =>
      cases n with
      | zero => exact .inl ⟨_, rest, outcome, rfl, rfl⟩
      | succ n => exact .inr ⟨n, rest, rfl⟩
    | opened => exact .inl ⟨_, rest, outcome, rfl, rfl⟩
    | closed => exact .inl ⟨_, rest, outcome, rfl, rfl⟩

theorem exists_step (some_ : 0 < processes) (working : m.Working) : ∃ next, Step processes m next := by
  obtain ⟨now, stage, sink⟩ := m
  obtain ⟨waiting, running, ended, finished, rfl⟩ := working
  -- what has ended is found first; else a worker is free, or something goes on, or all wait
  cases ended with
  | cons outcome rest =>
    cases outcome with
    | ok more => exact ⟨_, @Step.join processes now sink waiting running [] more rest finished⟩
    | error stop => exact ⟨_, @Step.stop processes now sink waiting running [] stop rest finished⟩
  | nil =>
    by_cases stalled : ∀ t ∈ running, Task.Stalled t
    · by_cases free : running.length < processes
      · cases waiting with
        | cons t rest => exact ⟨_, @Step.start processes now sink [] t rest running [] finished free⟩
        | nil =>
          by_cases none : running = []
          · subst none
            exact ⟨_, .publish⟩
          · exact ⟨_, .pass (.inl rfl) none stalled⟩
      · have full := Nat.le_of_not_lt free
        exact ⟨_, .pass (.inr full) (List.length_pos_iff.mp (Nat.lt_of_lt_of_le some_ full)) stalled⟩
    · push Not at stalled
      obtain ⟨t, ht, ready⟩ := stalled
      obtain ⟨before, after, rfl⟩ := List.append_of_mem ht
      rcases ended_or_goes_on_or_stalled t with ⟨outcome, rfl⟩ | ⟨e, journal, outcome, rfl, instant⟩ | waits
      · exact ⟨_, .finish⟩
      · exact ⟨_, .proceed instant⟩
      · exact absurd waits ready

theorem exists_runs_of_publishing (processes now : Nat) (left_ all : List Finished) (sink : Option Sink) :
    ∃ last, Runs processes ⟨now, .publishing left_ all, sink⟩ last := by
  induction left_ generalizing sink with
  | nil => exact ⟨_, .step (.unite (.inl rfl)) (.done rfl)⟩
  | cons f rest ih =>
    cases sink with
    | none => exact ⟨_, .step (.unite (.inr rfl)) (.done rfl)⟩
    | some x =>
      cases taken : x.write? f.id f.lines with
      | none => exact ⟨_, .step (.refuse taken) (.done rfl)⟩
      | some next =>
        obtain ⟨last, others⟩ := ih (some next)
        exact ⟨last, .step (.write taken) others⟩

/-- Whatever happens, a run comes to an end. -/
theorem exists_runs (some_ : 0 < processes) (m : Moment) : ∃ last, Runs processes m last := by
  -- on what is left to do, of which every step of a working run takes something
  induction h : left m.stage using Nat.strong_induction_on generalizing m with
  | _ n ih =>
    obtain ⟨now, stage, sink⟩ := m
    cases stage with
    | done outcome => exact ⟨_, .done rfl⟩
    | publishing left_ all => exact exists_runs_of_publishing processes now left_ all sink
    | working waiting running ended finished =>
      obtain ⟨next, first⟩ := exists_step some_
        (m := ⟨now, .working waiting running ended finished, sink⟩) ⟨_, _, _, _, rfl⟩
      by_cases working : next.Working
      · obtain ⟨last, others⟩ := ih _ (h ▸ left_step first working) next rfl
        exact ⟨last, .step first others⟩
      · obtain ⟨later, stage, sink⟩ := next
        cases stage with
        | working => exact absurd ⟨_, _, _, _, rfl⟩ working
        | done outcome => exact ⟨_, .step first (.done rfl)⟩
        | publishing left_ all =>
          obtain ⟨last, others⟩ := exists_runs_of_publishing processes later left_ all sink
          exact ⟨last, .step first others⟩

/-- The latest time at which a run from here on can end: that when its tasks are run in turn. -/
def latest (m : Moment) : Nat :=
  match m.stage with
  | .working waiting running _ _ => m.now + timeLeft waiting + timeLeft running
  | _ => m.now

theorem latest_step (h : Step processes m next) : next.latest ≤ m.latest := by
  cases h with
  | start =>
    simp only [latest, timeLeft, List.map_append, List.map_cons, List.map_nil, List.sum_append,
      List.sum_cons, List.sum_nil]
    omega
  | proceed instant =>
    simp only [latest, timeLeft, List.map_append, List.map_cons, List.sum_append, List.sum_cons,
      Journal.elapsed]
    omega
  | finish =>
    simp only [latest, timeLeft, List.map_append, List.map_cons, List.sum_append, List.sum_cons]
    omega
  | pass busy some_ stalled =>
    -- a tick is taken from each of the tasks that wait, and there is one at least
    have times := (timeLeft_tick stalled).1
    have count := List.length_pos_iff.mpr some_
    simp only [latest]
    omega
  | publish =>
    simp only [latest]
    omega
  | stop =>
    simp only [latest]
    omega
  | _ => exact Nat.le_refl _

theorem Runs.now_le (h : Runs processes m last) : last.now ≤ m.latest := by
  induction h with
  | @done m outcome is_done =>
    unfold latest
    rw [is_done]
  | step first _ ih => exact Nat.le_trans ih (latest_step first)

end Steps

end Moment

end RdfMapping.Run
