import Mathlib.Logic.Relation
import Mathlib.Order.WellFounded
import RdfMapping.Proofs.Outcome
import RdfMapping.Run.Materialize

/-!
Workers that take partitions in any order.

Which partition a free worker takes, and which partition ends next, is left open (`Work.Step`). Whatever
happens, each partition is waiting, worked on or done, and none is in two of these places
(`sound_step`, `sound_reached`). So work that is over has come to all that the partitions give, in some
order, or to the stop of one of them (`sound_over`), and it is always over in the end (`exists_over`).
The schedule in virtual time is one of these orders (`reached_schedule`).
-/

namespace RdfMapping

/-- Work on partitions: under way, with those that wait, those that workers have and what has finished
so far; or stopped. -/
inductive Work where
  | going (waiting running : List Partition) (finished : List Finished)
  | stopped (stop : Stop)

namespace Work

open scoped List

/-- A free worker takes a partition that waits, or one that a worker has ends. The first that is stopped
stops all work. -/
inductive Step (workers : Nat) (outcome : Partition → Except Stop Finished) : Work → Work → Prop
  | start {waiting running finished p rest} (free : running.length < workers)
      (waits : waiting.Perm (p :: rest)) :
      Step workers outcome (.going waiting running finished) (.going rest (p :: running) finished)
  | finish {waiting running finished p rest f} (runs : running.Perm (p :: rest))
      (ended : outcome p = .ok f) :
      Step workers outcome (.going waiting running finished) (.going waiting rest (finished ++ [f]))
  | stop {waiting running finished p stop} (runs : p ∈ running) (ended : outcome p = .error stop) :
      Step workers outcome (.going waiting running finished) (.stopped stop)

def Reached (workers : Nat) (outcome : Partition → Except Stop Finished) (partitions : List Partition) :
    Work → Prop :=
  Relation.ReflTransGen (Step workers outcome) (.going partitions [] [])

def Over (workers : Nat) (outcome : Partition → Except Stop Finished) (w : Work) : Prop :=
  ∀ w', ¬Step workers outcome w w'

def outcome : Work → Except RunError (List Finished)
  | .going _ _ finished => .ok finished
  | .stopped stop => .error (Run.stopInPool stop)

/-- Workers have no more partitions than they may, each partition is in one place, and what has finished
is what those that are done give; or one of the partitions was stopped. -/
def Sound (workers : Nat) (outcome : Partition → Except Stop Finished) (partitions : List Partition) :
    Work → Prop
  | .going waiting running finished =>
    running.length ≤ workers ∧ ∃ done, (waiting ++ (running ++ done)).Perm partitions ∧
      done.map outcome = finished.map .ok
  | .stopped stop => ∃ p ∈ partitions, outcome p = .error stop

section Steps

variable {workers : Nat} {outcome : Partition → Except Stop Finished} {partitions : List Partition}
  {w w' : Work}

theorem sound_step (sound : Sound workers outcome partitions w) (step : Step workers outcome w w') :
    Sound workers outcome partitions w' := by
  cases step with
  | @start waiting running finished p rest free waits =>
    obtain ⟨-, done, places, given⟩ := sound
    refine ⟨free, done, ?_, given⟩
    refine List.Perm.trans ?_ places
    exact List.perm_middle.trans (waits.append_right _).symm
  | @finish waiting running finished p rest f runs ended =>
    obtain ⟨room, done, places, given⟩ := sound
    have fewer : rest.length ≤ workers := by
      have := runs.length_eq
      rw [List.length_cons] at this
      omega
    refine ⟨fewer, done ++ [p], ?_, by simp [given, ended]⟩
    refine List.Perm.trans (List.Perm.append_left _ ?_) places
    -- the partition moves from those that run to those that are done
    calc rest ++ (done ++ [p]) = rest ++ done ++ [p] := by rw [List.append_assoc]
      _ ~ p :: (rest ++ done) := List.perm_append_singleton p _
      _ ~ running ++ done := (runs.append_right done).symm
  | @stop waiting running finished p stop runs ended =>
    obtain ⟨-, done, places, -⟩ := sound
    refine ⟨p, places.mem_iff.mp ?_, ended⟩
    exact List.mem_append_right _ (List.mem_append_left _ runs)

theorem sound_reached (h : Reached workers outcome partitions w) :
    Sound workers outcome partitions w := by
  induction h with
  | refl => exact ⟨Nat.zero_le _, [], by simp, rfl⟩
  | tail _ step ih => exact sound_step ih step

theorem eq_of_over (some_ : 0 < workers) (idle : Over workers outcome w) :
    (∃ finished, w = .going [] [] finished) ∨ ∃ stop, w = .stopped stop := by
  cases w with
  | stopped stop => exact .inr ⟨stop, rfl⟩
  | going waiting running finished =>
    left
    cases running with
    | cons p rest =>
      cases h : outcome p with
      | ok f => exact (idle _ (.finish (.refl _) h)).elim
      | error stop => exact (idle _ (.stop List.mem_cons_self h)).elim
    | nil =>
      cases waiting with
      | cons p rest => exact (idle _ (.start some_ (.refl _))).elim
      | nil => exact ⟨finished, rfl⟩

/-- Work that is over has come to all that the partitions give, or to the stop of one of them. -/
theorem sound_over (some_ : 0 < workers) (h : Reached workers outcome partitions w)
    (idle : Over workers outcome w) :
    (∃ (finished : List Finished) (done : List Partition), w = .going [] [] finished ∧
        done.Perm partitions ∧ done.map outcome = finished.map .ok) ∨
      ∃ stop, w = .stopped stop ∧ ∃ p ∈ partitions, outcome p = .error stop := by
  have sound := sound_reached h
  rcases eq_of_over some_ idle with ⟨finished, rfl⟩ | ⟨stop, rfl⟩
  · obtain ⟨-, done, places, given⟩ := sound
    exact .inl ⟨finished, done, rfl, places, given⟩
  · exact .inr ⟨stop, rfl, sound⟩

def left : Work → Nat
  | .going waiting running _ => 2 * waiting.length + running.length + 1
  | .stopped _ => 0

theorem left_step (step : Step workers outcome w w') : w'.left < w.left := by
  cases step with
  | start _ waits =>
    have := waits.length_eq
    simp only [left, List.length_cons] at this ⊢
    omega
  | finish runs _ =>
    have := runs.length_eq
    simp only [left, List.length_cons] at this ⊢
    omega
  | stop => simp [left]

theorem exists_over (workers : Nat) (outcome : Partition → Except Stop Finished) (w : Work) :
    ∃ w', Relation.ReflTransGen (Step workers outcome) w w' ∧ Over workers outcome w' := by
  induction h : w.left using Nat.strong_induction_on generalizing w with
  | _ n ih =>
    by_cases idle : Over workers outcome w
    · exact ⟨w, .refl, idle⟩
    · obtain ⟨next, step⟩ : ∃ next, Step workers outcome w next := by simpa [Over] using idle
      obtain ⟨last, steps, idle⟩ := ih next.left (h ▸ left_step step) next rfl
      exact ⟨last, .head step steps, idle⟩

end Steps

/-! ## The schedule is one of the orders -/

end Work

/-! ## The schedule in virtual time -/

namespace Schedule

theorem insert_perm (c : Completion) (l : List Completion) : (insert c l).Perm (c :: l) := by
  induction l with
  | nil => exact .refl _
  | cons d rest ih =>
    rw [insert]
    split
    · exact .refl _
    · exact (ih.cons d).trans (.swap c d rest)

theorem foldl_insert_perm (l sorted : List Completion) :
    (l.foldl (fun sorted c => insert c sorted) sorted).Perm (l ++ sorted) := by
  induction l generalizing sorted with
  | nil => exact .refl _
  | cons c rest ih =>
    refine (ih (insert c sorted)).trans ?_
    exact ((insert_perm c sorted).append_left rest).trans List.perm_middle

end Schedule

namespace Work

section Schedule

open Schedule (Completion collect completions proceed)

/-- Work that has come to what completions come to. -/
def ofCollected : Except Stop (List Finished) → Work
  | .ok finished => .going [] [] finished
  | .error stop => .stopped stop

theorem over_ofCollected (workers : Nat) (outcome : Partition → Except Stop Finished)
    (ended : Except Stop (List Finished)) : Over workers outcome (ofCollected ended) := by
  intro w' step
  cases ended with
  | error stop => cases step
  | ok finished =>
    cases step with
    | start _ waits => exact absurd waits.symm.eq_nil (by simp)
    | finish runs _ => exact absurd runs.symm.eq_nil (by simp)
    | stop runs _ => exact absurd runs List.not_mem_nil

theorem exists_running {g : Partition → Except Stop Finished} {x : Except Stop Finished}
    {l : List (Except Stop Finished)} {running : List Partition} (h : (x :: l).Perm (running.map g)) :
    ∃ p rest, running.Perm (p :: rest) ∧ g p = x ∧ l.Perm (rest.map g) := by
  obtain ⟨p, hp, rfl⟩ := List.mem_map.mp (h.mem_iff.mp List.mem_cons_self)
  have out := List.perm_cons_erase hp
  refine ⟨p, running.erase p, out, rfl, ?_⟩
  exact (h.trans (out.map g)).cons_inv

section Simulation

variable {workers : Nat} {attempt : Partition → Attempt Finished} {cs : List Completion}
  {running : List Partition}

theorem steps_collect (h : (cs.map (·.outcome)).Perm (running.map fun p => (attempt p).outcome))
    (now : Nat) (finished : List Finished) :
    Relation.ReflTransGen (Step workers fun p => (attempt p).outcome) (.going [] running finished)
      (ofCollected (collect now finished cs).2) := by
  induction cs generalizing running now finished with
  | nil =>
    have none : running = [] := by simpa using h
    subst none
    exact .refl
  | cons c cs ih =>
    obtain ⟨p, rest, runs, ended, others⟩ := exists_running h
    rw [collect]
    cases hc : c.outcome with
    | error stop =>
      exact .single (.stop (runs.mem_iff.mpr List.mem_cons_self) (ended.trans hc))
    | ok f => exact .head (.finish runs (ended.trans hc)) (ih others c.time _)

/-- Whenever a partition ends, the next one that waits is taken. -/
theorem steps_proceed (some_ : 0 < workers) {waiting : List Partition}
    (h : (cs.map (·.outcome)).Perm (running.map fun p => (attempt p).outcome))
    (room : running.length ≤ workers) (now : Nat) (finished : List Finished) :
    Relation.ReflTransGen (Step workers fun p => (attempt p).outcome)
      (.going waiting running finished)
      (ofCollected (collect now finished (proceed cs (waiting.map attempt))).2) := by
  -- on the partitions that wait; those that run have the outcomes of `cs`, in some order
  induction waiting generalizing cs running now finished with
  | nil =>
    have all : proceed cs [] = cs := by cases cs <;> rfl
    rw [List.map_nil, all]
    exact steps_collect h now finished
  | cons q waiting ih =>
    cases cs with
    | nil =>
      -- nothing runs, so that the first that waits is started alone
      have none : running = [] := by simpa using h
      subst none
      rw [List.map_cons, proceed]
      have first := @ih [Completion.ofAttempt 0 (attempt q)] [q] (.refl _) some_
      exact .head (.start some_ (.refl _)) (first now finished)
    | cons next cs =>
      obtain ⟨p, rest, runs, ended, others⟩ := exists_running h
      have fewer := runs.length_eq
      rw [List.length_cons] at fewer
      rw [List.map_cons, proceed, collect]
      cases hc : next.outcome with
      | error stop =>
        exact .single (.stop (runs.mem_iff.mpr List.mem_cons_self) (ended.trans hc))
      | ok f =>
        refine .head (.finish runs (ended.trans hc)) (.head (.start (by omega) (.refl _)) ?_)
        refine ih ?_ (by rw [List.length_cons]; omega) next.time _
        exact ((Schedule.insert_perm _ cs).map _).trans (others.cons _)

theorem steps_start {taken waiting : List Partition} {finished : List Finished}
    {outcome : Partition → Except Stop Finished} (room : running.length + taken.length ≤ workers) :
    Relation.ReflTransGen (Step workers outcome) (.going (taken ++ waiting) running finished)
      (.going waiting (taken.reverse ++ running) finished) := by
  induction taken generalizing running with
  | nil => exact .refl
  | cons p taken ih =>
    rw [List.length_cons] at room
    refine .head (.start (by omega) (.refl _)) ?_
    rw [List.reverse_cons, List.append_assoc]
    exact ih (by rw [List.length_cons]; omega)

/-- What the schedule comes to is what work in one order comes to. -/
theorem reached_schedule (some_ : 0 < workers) (attempt : Partition → Attempt Finished)
    (partitions : List Partition) :
    Reached workers (fun p => (attempt p).outcome) partitions
      (ofCollected (collect 0 [] (completions workers (partitions.map attempt))).2) := by
  have few : (partitions.take workers).length ≤ workers := by
    rw [List.length_take]
    exact Nat.min_le_left ..
  -- as many as there are workers are started at once; from then on one for each that ends
  have started : Relation.ReflTransGen (Step workers fun p => (attempt p).outcome)
      (.going (partitions.take workers ++ partitions.drop workers) [] [])
      (.going (partitions.drop workers) ((partitions.take workers).reverse ++ []) []) :=
    steps_start (by rwa [List.length_nil, Nat.zero_add])
  rw [List.take_append_drop, List.append_nil] at started
  refine started.trans ?_
  rw [completions, ← List.map_take, ← List.map_drop]
  refine steps_proceed some_ ?_ ?_ 0 []
  · refine ((Schedule.foldl_insert_perm _ []).map (·.outcome)).trans ?_
    have outcomes : (((partitions.take workers).map attempt).map (Completion.ofAttempt 0)).map
        (·.outcome) = (partitions.take workers).map fun p => (attempt p).outcome := by
      rw [List.map_map, List.map_map]
      rfl
    rw [List.append_nil, outcomes]
    exact ((List.reverse_perm _).map _).symm
  · rwa [List.length_reverse]

end Simulation

end Schedule

end Work

end RdfMapping
