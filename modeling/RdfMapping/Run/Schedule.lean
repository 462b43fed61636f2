import RdfMapping.Run.Partition

/-!
Working on several partitions at a time, in virtual time.

The partitions start in order, at most as many at a time as there are workers, and the next one starts
when one ends (`Schedule.completions`). Of partitions that end at the same time the one that started
first ends first. The completions are then collected up to the first that was stopped
(`Schedule.collect`).
-/

namespace RdfMapping.Schedule

/-- A partition that has ended, and when. -/
structure Completion where
  time : Nat
  outcome : Except Stop Finished

def Completion.ofAttempt (start : Nat) (attempt : Attempt Finished) : Completion :=
  ⟨start + attempt.journal.elapsed, attempt.outcome⟩

/-- Puts a completion after all that are not later. -/
def insert (c : Completion) : List Completion → List Completion
  | [] => [c]
  | d :: rest => if c.time < d.time then c :: d :: rest else d :: insert c rest

/-- The completions that are still to come, the next one first, when the attempts in progress have
the completions `running` and others wait. -/
def proceed : List Completion → List (Attempt Finished) → List Completion
  | running, [] => running
  | [], waiting :: rest => proceed [Completion.ofAttempt 0 waiting] rest
  | next :: running, waiting :: rest =>
    next :: proceed (insert (Completion.ofAttempt next.time waiting) running) rest

/-- The completions of all attempts, in order of time. -/
def completions (workers : Nat) (attempts : List (Attempt Finished)) : List Completion :=
  let running := (attempts.take workers).map (Completion.ofAttempt 0)
  proceed (running.foldl (fun sorted c => insert c sorted) []) (attempts.drop workers)

/-- What the completions come to: all that has finished, or the first stop; and when. -/
def collect : Nat → List Finished → List Completion → Nat × Except Stop (List Finished)
  | now, finished, [] => (now, .ok finished)
  | _, finished, c :: rest =>
    match c.outcome with
    | .ok f => collect c.time (finished ++ [f]) rest
    | .error stop => (c.time, .error stop)

end RdfMapping.Schedule
