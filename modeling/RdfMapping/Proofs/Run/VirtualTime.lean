import RdfMapping.Proofs.Run.Moments

/-!
The run in virtual time is one of the runs that can happen.

Until the first completion, a run lets time pass (`exists_wait`), and then the task that completes ends
(`exists_complete`). So the completions of a schedule come about one after the other
(`steps_completions`), and what `materialize` gives without a time limit is the last moment of a run
that can happen (`runs_progress`).
-/

namespace RdfMapping.Run.Moment

open Schedule (Completion collect completions proceed)
open Relation (ReflTransGen)

section Steps

variable {processes now : Nat} {sink : Option Sink} {waiting running : List Task} {finished : List Finished}

/-- What is left of a task as far as the schedule knows: when it will end, from a given time on, and what
it will give. -/
def due (now : Nat) (t : Task) : Nat × Except Stop (List Finished) :=
  (now + t.journal.elapsed, t.outcome)

theorem exists_settled (processes now : Nat) (sink : Option Sink) (waiting running : List Task)
    (finished : List Finished) : ∃ settled,
      ReflTransGen (Step processes) ⟨now, .working waiting running [] finished, sink⟩
        ⟨now, .working waiting settled [] finished, sink⟩ ∧
      settled.map (due now) = running.map (due now) ∧
      ∀ t ∈ settled, t.journal = [] ∨ Task.Stalled t := by
  -- on the events that are still to come: each event that takes no time is one less
  induction h : (running.map fun t => t.journal.length).sum using Nat.strong_induction_on
    generalizing running with
  | _ n ih =>
    by_cases settled : ∀ t ∈ running, t.journal = [] ∨ Task.Stalled t
    · exact ⟨running, .refl, rfl, settled⟩
    · push Not at settled
      obtain ⟨t, ht, goes_on, ready⟩ := settled
      rcases ended_or_goes_on_or_stalled t with ⟨outcome, rfl⟩ | ⟨e, journal, outcome, rfl, instant⟩ | waits
      · exact absurd rfl goes_on
      · obtain ⟨before, after, rfl⟩ := List.append_of_mem ht
        have fewer : ((before ++ ⟨journal, outcome⟩ :: after).map fun t : Task =>
            t.journal.length).sum < n := by
          rw [← h]
          simp
        obtain ⟨settled, steps, same, all⟩ := ih _ fewer _ rfl
        refine ⟨settled, .head (.proceed instant) steps, same.trans ?_, all⟩
        simp [due, Journal.elapsed, instant]
      · exact absurd waits ready

theorem exists_wait (now : Nat) (sink : Option Sink) (finished : List Finished) (d : Nat)
    (busy : waiting = [] ∨ processes ≤ running.length) (some_ : running ≠ [])
    (far : ∀ t ∈ running, d ≤ t.journal.elapsed) : ∃ later,
      ReflTransGen (Step processes) ⟨now, .working waiting running [] finished, sink⟩
        ⟨now + d, .working waiting later [] finished, sink⟩ ∧
      later.map (due (now + d)) = running.map (due now) := by
  -- tick by tick; before each one, what takes no time has to be done (`exists_settled`)
  induction d generalizing now running with
  | zero => exact ⟨running, .refl, rfl⟩
  | succ d ih =>
    obtain ⟨settled, steps, same, all⟩ := exists_settled processes now sink waiting running finished
    have length : settled.length = running.length := by simpa using congrArg List.length same
    have far' : ∀ t ∈ settled, d + 1 ≤ t.journal.elapsed := by
      intro t ht
      have member : due now t ∈ running.map (due now) := same ▸ List.mem_map_of_mem ht
      obtain ⟨u, hu, eq⟩ := List.mem_map.mp member
      have times : now + u.journal.elapsed = now + t.journal.elapsed := congrArg Prod.fst eq
      have := far u hu
      omega
    have stalled : ∀ t ∈ settled, Task.Stalled t := by
      intro t ht
      refine (all t ht).resolve_left fun ended => ?_
      have := far' t ht
      rw [ended] at this
      exact Nat.not_succ_le_zero d this
    -- a tick later a task has one tick less to go, so that it is due when it was
    have ticked : ∀ t ∈ settled, due (now + 1) (Task.tick t) = due now t := by
      intro t ht
      obtain ⟨time, -, outcome⟩ := elapsed_tick (stalled t ht)
      unfold due
      rw [outcome, ← time]
      congr 1
      omega
    have busy' : waiting = [] ∨ processes ≤ settled.length := by rwa [length]
    have some' : settled ≠ [] := by simpa [← List.length_pos_iff, length] using some_
    have nearer : ∀ t ∈ settled.map Task.tick, d ≤ t.journal.elapsed := by
      intro t ht
      obtain ⟨u, hu, rfl⟩ := List.mem_map.mp ht
      have := (elapsed_tick (stalled u hu)).1
      have := far' u hu
      omega
    obtain ⟨later, others, rest⟩ := ih (now + 1) (by rwa [List.length_map])
      (by simpa using some') nearer
    have order : now + 1 + d = now + (d + 1) := by omega
    refine ⟨later, (steps.tail (.pass busy' some' stalled)).trans (order ▸ others), ?_⟩
    rw [← order, rest, List.map_map, ← same]
    exact List.map_congr_left ticked

theorem steps_end {before after : List Task} {journal : Journal} {outcome : Except Stop (List Finished)}
    (instant : journal.elapsed = 0) :
    ReflTransGen (Step processes)
      ⟨now, .working waiting (before ++ ⟨journal, outcome⟩ :: after) [] finished, sink⟩
      ⟨now, .working waiting (before ++ after) [outcome] finished, sink⟩ := by
  induction journal with
  | nil => exact .single .finish
  | cons e rest ih =>
    rw [Journal.elapsed] at instant
    have head : Journal.secondsOf e = 0 := by omega
    have tail : Journal.elapsed rest = 0 := by omega
    exact .head (.proceed head) (ih tail)

variable (sink finished) in
/-- The first task to be due ends when it is. -/
theorem exists_complete {time : Nat} {outcome : Except Stop (List Finished)}
    {others : List (Nat × Except Stop (List Finished))}
    (busy : waiting = [] ∨ processes ≤ running.length)
    (first : ((time, outcome) :: others).Perm (running.map (due now))) (not_past : now ≤ time)
    (next : ∀ c ∈ others, time ≤ c.1) : ∃ rest,
      ReflTransGen (Step processes) ⟨now, .working waiting running [] finished, sink⟩
        ⟨time, .working waiting rest [outcome] finished, sink⟩ ∧
      others.Perm (rest.map (due time)) ∧ rest.length + 1 = running.length := by
  have some_ : running ≠ [] := by
    rintro rfl
    exact absurd first.eq_nil (by simp)
  have far : ∀ t ∈ running, time - now ≤ t.journal.elapsed := by
    intro t ht
    have member : due now t ∈ (time, outcome) :: others := first.mem_iff.mpr (List.mem_map_of_mem ht)
    have late : time ≤ now + t.journal.elapsed := by
      rcases List.mem_cons.mp member with same | other
      · exact Nat.le_of_eq (congrArg Prod.fst same).symm
      · exact next _ other
    omega
  -- no task is due before `time`, so that all can wait until then
  obtain ⟨later, steps, same⟩ := exists_wait now sink finished (time - now) busy some_ far
  rw [Nat.add_sub_cancel' not_past] at steps same
  rw [← same] at first
  obtain ⟨t, ht, now_due⟩ := List.mem_map.mp (first.mem_iff.mp List.mem_cons_self)
  obtain ⟨before, after, rfl⟩ := List.append_of_mem ht
  obtain ⟨journal, given⟩ := t
  obtain ⟨ends, rfl⟩ := Prod.mk.inj now_due
  have instant : journal.elapsed = 0 := by
    have : time + Journal.elapsed journal = time := ends
    omega
  refine ⟨before ++ after, steps.trans (steps_end instant), ?_, ?_⟩
  · have middle : ((before ++ (⟨journal, given⟩ : Task) :: after).map (due time)).Perm
        (due time ⟨journal, given⟩ :: (before ++ after).map (due time)) := List.perm_middle.map _
    rw [now_due] at middle
    exact (first.trans middle).cons_inv
  · have lengths := congrArg List.length same
    simp only [List.length_map, List.length_append, List.length_cons] at lengths ⊢
    omega

variable (processes now sink finished) in
theorem steps_start (running taken waiting : List Task) (room : running.length + taken.length ≤ processes) :
    ReflTransGen (Step processes) ⟨now, .working (taken ++ waiting) running [] finished, sink⟩
      ⟨now, .working waiting (running ++ taken) [] finished, sink⟩ := by
  induction taken generalizing running with
  | nil =>
    rw [List.append_nil]
    exact .refl
  | cons t rest ih =>
    rw [List.length_cons] at room
    have free : running.length < processes := by omega
    have others := ih (running ++ [t]) (by simp; omega)
    rw [List.append_assoc, List.singleton_append] at others
    exact .head (@Step.start processes now sink [] t (rest ++ waiting) running [] finished free) others

/-! ## Completions -/

def ofCompletion (c : Completion) : Nat × Except Stop (List Finished) :=
  (c.time, c.outcome.map ([·]))

def ofAttempt (a : Attempt Finished) : Task := a.map ([·])

theorem ofCompletion_ofAttempt (now : Nat) (a : Attempt Finished) :
    ofCompletion (Completion.ofAttempt now a) = due now (ofAttempt a) := rfl

def collected (processes : Nat) (sink : Option Sink) :
    Nat × Except Stop (List Finished) → Moment
  | (time, .ok finished) => ⟨time, .working [] [] [] finished, sink⟩
  | (time, .error stop) => ⟨time, .done (.error (stopOn processes stop)), sink⟩

def Sorted (cs : List Completion) : Prop := cs.Pairwise fun c d => c.time ≤ d.time

theorem sorted_insert {cs : List Completion} (sorted : Sorted cs) (c : Completion) :
    Sorted (Schedule.insert c cs) := by
  induction cs with
  | nil => exact List.pairwise_singleton _ _
  | cons d rest ih =>
    obtain ⟨least, sorted⟩ := List.pairwise_cons.mp sorted
    unfold Schedule.insert
    split
    · rename_i before
      refine List.pairwise_cons.mpr ⟨fun e he => ?_, List.pairwise_cons.mpr ⟨least, sorted⟩⟩
      rcases List.mem_cons.mp he with rfl | he
      · exact Nat.le_of_lt before
      · exact Nat.le_trans (Nat.le_of_lt before) (least e he)
    · rename_i after
      refine List.pairwise_cons.mpr ⟨fun e he => ?_, ih sorted⟩
      rcases List.mem_cons.mp ((Schedule.insert_perm c rest).mem_iff.mp he) with rfl | he
      · exact Nat.le_of_not_lt after
      · exact least e he

theorem sorted_foldl_insert {cs sorted : List Completion} (h : Sorted sorted) :
    Sorted (cs.foldl (fun sorted c => Schedule.insert c sorted) sorted) := by
  induction cs generalizing sorted with
  | nil => exact h
  | cons c rest ih => exact ih (sorted_insert h c)

variable (sink finished) in
theorem exists_found {c : Completion} {cs : List Completion}
    (busy : waiting = [] ∨ processes ≤ running.length)
    (first : ((c :: cs).map ofCompletion).Perm (running.map (due now))) (not_past : now ≤ c.time)
    (sorted : Sorted (c :: cs)) : ∃ rest,
      ReflTransGen (Step processes) ⟨now, .working waiting running [] finished, sink⟩
        (match c.outcome with
          | .ok f => ⟨c.time, .working waiting rest [] (finished ++ [f]), sink⟩
          | .error stop => ⟨c.time, .done (.error (stopOn processes stop)), sink⟩) ∧
      (cs.map ofCompletion).Perm (rest.map (due c.time)) ∧ rest.length + 1 = running.length := by
  obtain ⟨rest, steps, others, length⟩ := exists_complete sink finished busy first not_past
    fun d hd => by
      obtain ⟨e, he, rfl⟩ := List.mem_map.mp hd
      exact (List.pairwise_cons.mp sorted).1 e he
  refine ⟨rest, steps.tail ?_, others, length⟩
  cases c.outcome with
  | ok f => exact @Step.join processes c.time sink waiting rest [] [f] [] finished
  | error stop => exact @Step.stop processes c.time sink waiting rest [] stop [] finished

/-- When no task waits any more, the completions come about one after the other. -/
theorem steps_collect {cs : List Completion} (due_now : (cs.map ofCompletion).Perm (running.map (due now)))
    (not_past : ∀ c ∈ cs, now ≤ c.time) (sorted : Sorted cs) :
    ReflTransGen (Step processes) ⟨now, .working [] running [] finished, sink⟩
      (collected processes sink (collect now finished cs)) := by
  induction cs generalizing now running finished with
  | nil =>
    have none : running = [] := by simpa using due_now
    subst none
    exact .refl
  | cons c cs ih =>
    obtain ⟨rest, steps, others, -⟩ := exists_found sink finished (.inl rfl) due_now
      (not_past c List.mem_cons_self) sorted
    refine steps.trans ?_
    rw [collect]
    cases c.outcome with
    | error stop => exact .refl
    | ok f =>
      obtain ⟨least, sorted⟩ := List.pairwise_cons.mp sorted
      exact ih others least sorted

/-- As long as tasks wait, one of them is taken whenever another ends. -/
theorem steps_proceed {attempts : List (Attempt Finished)} {cs : List Completion}
    (some_ : 0 < processes) (full : attempts = [] ∨ running.length = processes)
    (due_now : (cs.map ofCompletion).Perm (running.map (due now)))
    (not_past : ∀ c ∈ cs, now ≤ c.time) (sorted : Sorted cs) :
    ReflTransGen (Step processes) ⟨now, .working (attempts.map ofAttempt) running [] finished, sink⟩
      (collected processes sink (collect now finished (proceed cs attempts))) := by
  -- on the attempts that wait; those that run stay the due ones, in some order
  induction attempts generalizing cs running now finished with
  | nil =>
    rw [show proceed cs [] = cs by cases cs <;> rfl]
    exact steps_collect due_now not_past sorted
  | cons w attempts ih =>
    have full := full.resolve_left (List.cons_ne_nil _ _)
    cases cs with
    | nil =>
      have none : running = [] := by simpa using due_now
      rw [none] at full
      exact absurd full (Nat.ne_of_lt some_)
    | cons c cs =>
      obtain ⟨rest, steps, others, length⟩ := exists_found sink finished
        (.inr (Nat.le_of_eq full.symm)) due_now (not_past c List.mem_cons_self) sorted
      obtain ⟨least, sorted⟩ := List.pairwise_cons.mp sorted
      refine steps.trans ?_
      rw [proceed, collect]
      cases c.outcome with
      | error stop => exact .refl
      | ok f =>
        have free : rest.length < processes := by omega
        have next := @Step.start processes c.time sink [] (ofAttempt w) (attempts.map ofAttempt) rest []
          (finished ++ [f]) free
        refine .head next (ih (.inr (by simp; omega)) ?_ ?_ (sorted_insert sorted _))
        · have inserted := (Schedule.insert_perm (Completion.ofAttempt c.time w) cs).map ofCompletion
          rw [List.map_cons, ofCompletion_ofAttempt] at inserted
          refine inserted.trans ((others.cons _).trans ?_)
          rw [List.map_append]
          exact (List.perm_append_singleton _ _).symm
        · intro d hd
          rcases List.mem_cons.mp ((Schedule.insert_perm _ cs).mem_iff.mp hd) with rfl | hd
          · exact Nat.le_add_right _ _
          · exact least d hd

variable (sink) in
theorem steps_alone (some_ : 0 < processes) (t : Task) :
    ReflTransGen (Step processes) ⟨0, .working [t] [] [] [], sink⟩
      (collected processes sink (t.journal.elapsed, t.outcome)) := by
  have taken := steps_start processes 0 sink [] [] [t] [] some_
  have first : [due 0 t].Perm ([t].map (due 0)) := .refl _
  obtain ⟨rest, steps, others, -⟩ := exists_complete sink [] (.inl rfl) first (Nat.zero_le _) (by simp)
  have none : rest = [] := by simpa using others
  subst none
  refine (ReflTransGen.trans taken steps).tail ?_
  rw [Nat.zero_add]
  cases t.outcome with
  | ok more => exact @Step.join processes _ sink [] [] [] more [] []
  | error stop => exact @Step.stop processes _ sink [] [] [] stop [] []

variable (sink) in
theorem steps_completions (some_ : 0 < processes) (attempts : List (Attempt Finished)) :
    ReflTransGen (Step processes) ⟨0, .working (attempts.map ofAttempt) [] [] [], sink⟩
      (collected processes sink (collect 0 [] (Schedule.completions processes attempts))) := by
  have taken := steps_start processes 0 sink [] [] ((attempts.take processes).map ofAttempt)
    ((attempts.drop processes).map ofAttempt) (by simp)
  rw [← List.map_append, List.take_append_drop, List.nil_append] at taken
  have started := Schedule.foldl_insert_perm
    ((attempts.take processes).map (Completion.ofAttempt 0)) []
  rw [List.append_nil] at started
  refine taken.trans (steps_proceed some_ ?_ ?_ (fun _ _ => Nat.zero_le _)
    (sorted_foldl_insert List.Pairwise.nil))
  · by_cases enough : processes ≤ attempts.length
    · exact .inr (by simpa using enough)
    · exact .inl (List.drop_eq_nil_of_le (by omega))
  · refine (started.map ofCompletion).trans ?_
    rw [List.map_map, List.map_map]
    exact .refl _

/-! ## Publication -/

theorem runs_writeAll (now : Nat) (x : Sink) (left_ all : List Finished) :
    Runs processes ⟨now, .publishing left_ all, some x⟩
      ⟨now, .done ((writeAll x left_).2.map fun _ => ⟨corpus all, all⟩), some (writeAll x left_).1⟩ := by
  induction left_ generalizing x with
  | nil => exact .step (.unite (.inl rfl)) (.done rfl)
  | cons f rest ih =>
    unfold writeAll
    cases taken : x.write? f.id f.lines with
    | none => exact .step (.refuse taken) (.done rfl)
    | some next => exact .step (.write taken) (ih next)

theorem runs_publish (now : Nat) (sink : Option Sink) (finished : List Finished) :
    Runs processes ⟨now, .working [] [] [] finished, sink⟩
      ⟨now, .done (publish sink finished).2, (publish sink finished).1⟩ := by
  refine .step .publish ?_
  cases sink with
  | none => exact .step (.unite (.inr rfl)) (.done rfl)
  | some x => exact runs_writeAll now x _ _

/-- The end of a run that has come to something. -/
def ended (sink : Option Sink) (time : Nat) : Except RunError (List Finished) → Moment
  | .ok finished => ⟨time, .done (publish sink finished).2, (publish sink finished).1⟩
  | .error error => ⟨time, .done (.error error), sink⟩

theorem runs_collected (sink : Option Sink) (time : Nat) (outcome : Except Stop (List Finished)) :
    Runs processes (collected processes sink (time, outcome))
      (ended sink time (outcome.mapError (stopOn processes))) := by
  cases outcome with
  | ok finished => exact runs_publish time sink finished
  | error stop => exact .done rfl

end Steps

/-! ## The run of a rule table -/

/-- What `materialize` comes to without a time limit is the end of a run that can happen. -/
theorem runs_progress (rules : List MappingRule) (d : DataSource) {s : Settings} (some_ : 0 < s.processes)
    (sink : Option Sink) :
    Runs s.processes
      (start s.processes ((Partition.group rules).map fun p =>
        p.run (SubjectIndex.ofRules rules) d s) sink)
      (ended sink (progress rules d s).elapsed (progress rules d s).outcome) := by
  unfold progress start
  by_cases one : s.processes ≤ 1
  · have room : ¬maxWorkers < s.processes := by
      have : 1 ≤ maxWorkers := by decide
      omega
    rw [if_pos one, if_neg room, tasks, if_pos one, ← Partition.runAll_eq_sequence]
    have blame : stopAlone = stopOn s.processes := by
      unfold stopOn
      rw [if_pos one]
    unfold sequential
    rw [blame]
    exact .trans (steps_alone sink some_ _) (runs_collected sink _ _)
  · rw [if_neg one, tasks, if_neg one]
    unfold pooled
    by_cases room : maxWorkers < s.processes
    · rw [if_pos room, if_pos room]
      exact .done rfl
    · rw [if_neg room, if_neg room]
      have blame : stopInPool = stopOn s.processes := by
        unfold stopOn
        rw [if_neg one]
      have steps := steps_completions sink some_
        ((Partition.group rules).map fun p => p.run (SubjectIndex.ofRules rules) d s)
      simp only [blame]
      generalize collect 0 [] _ = result at steps ⊢
      obtain ⟨time, outcome⟩ := result
      have whole := Runs.trans steps (runs_collected sink time outcome)
      cases outcome with
      | ok finished => exact whole
      | error stop => exact whole

end RdfMapping.Run.Moment
