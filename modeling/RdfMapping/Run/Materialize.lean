import RdfMapping.Number.Power
import RdfMapping.Run.Schedule
import RdfMapping.Run.Sink

/-!
Materializing a rule table: all partitions are run, and only if all of them finish are their lines
published.

With one process the partitions run in order, and the first that is stopped stops the run. With
several, the first stop in time is the outcome. A run that goes on past its time limit is cut off.
What has finished is handed to the sink in the order of the partition names, and then united.
-/

namespace RdfMapping

/-- Why a run gave nothing. -/
inductive RunError where
  | mapping (error : MappingError)
  | settings (fault : SettingsFault)
  | timedOut (seconds : Nat)
  /-- A worker crashed. -/
  | worker
  /-- The run itself crashed. -/
  | crashed
  | refused (label : String)
deriving DecidableEq

/-- The error in words; a crash has none. -/
def RunError.message : RunError → String
  | mapping error => error.message
  | settings fault => "Configuration error: " ++ fault.message
  | timedOut seconds => "Materialization timed out after " ++ toString seconds ++ "s"
  | worker => ""
  | crashed => ""
  | refused label => "Sink error: refused '" ++ label ++ "'"

/-- What a run gives: the lines of all partitions, and a report of each. -/
structure Materialization where
  lines : TextSet
  partitions : List Finished
deriving DecidableEq

/-- The end of a run before publication: when it came, what the connections did until then, if that
is determined, and what has finished. -/
structure Progress where
  elapsed : Nat
  journal : Option Journal
  outcome : Except RunError (List Finished)

/-- The end of a run: what the connections did, if that is determined, the sink, and what came of the
run. -/
structure RunResult where
  journal : Option Journal
  sink : Option Sink
  outcome : Except RunError Materialization

namespace Run

def maxWorkers : Nat := twoTo 61 - 1

/-- What a stop means for a run on one process. -/
def stopAlone : Stop → RunError
  | .failed error => .mapping error
  | .crashed => .crashed

/-- What a stop means for a run on several workers. -/
def stopInPool : Stop → RunError
  | .failed error => .mapping error
  | .crashed => .worker

def sequential (partitions : List Partition) (index : SubjectIndex) (d : DataSource)
    (s : Settings) : Progress :=
  let attempt := Partition.runAll index d s partitions
  ⟨attempt.journal.elapsed, some attempt.journal, attempt.outcome.mapError stopAlone⟩

/-- Runs partitions on several workers. What the connections did is determined if all have
finished. -/
def pooled (partitions : List Partition) (index : SubjectIndex) (d : DataSource)
    (s : Settings) : Progress :=
  if maxWorkers < s.processes then ⟨0, none, .error .crashed⟩
  else
    let attempts := partitions.map fun p => p.run index d s
    let (elapsed, outcome) := Schedule.collect 0 [] (Schedule.completions s.processes attempts)
    match outcome with
    | .ok finished => ⟨elapsed, some (attempts.flatMap (·.journal)), .ok finished⟩
    | .error stop => ⟨elapsed, none, .error (stopInPool stop)⟩

def progress (rules : List MappingRule) (d : DataSource) (s : Settings) : Progress :=
  let partitions := Partition.group rules
  let index := SubjectIndex.ofRules rules
  if s.processes ≤ 1 then sequential partitions index d s else pooled partitions index d s

/-- Cuts a run off at its time limit. -/
def limited (limit : Option Nat) (p : Progress) : Progress :=
  match limit with
  | some seconds =>
    if seconds < p.elapsed then
      ⟨seconds, p.journal.map (Journal.before seconds), .error (.timedOut seconds)⟩
    else p
  | none => p

/-- Writes finished partitions to a sink in order; the first that is refused stops it. -/
def writeAll : Sink → List Finished → Sink × Except RunError Unit
  | sink, [] => (sink, .ok ())
  | sink, f :: rest =>
    match sink.write? f.id f.lines with
    | some sink => writeAll sink rest
    | none => (sink, .error (.refused f.id))

def inOrder (finished : List Finished) : List Finished :=
  finished.mergeSort fun a b => decide (a.id ≤ b.id)

def corpus (finished : List Finished) : TextSet :=
  finished.foldl (fun all f => all ∪ f.lines) ∅

/-- Hands finished partitions to the sink, if there is one, and unites them. -/
def publish (sink : Option Sink) (finished : List Finished) :
    Option Sink × Except RunError Materialization :=
  let sorted := inOrder finished
  let result : Materialization := ⟨corpus sorted, sorted⟩
  match sink with
  | none => (none, .ok result)
  | some sink =>
    let (sink, written) := writeAll sink sorted
    (some sink, written.map fun _ => result)

end Run

/-- Runs a rule table over a source and publishes the lines. -/
def materialize (rules : List MappingRule) (d : DataSource) (s : Settings) (sink : Option Sink) :
    RunResult :=
  match s.validate with
  | .error fault => ⟨some [], sink, .error (.settings fault)⟩
  | .ok () =>
    let p := Run.limited s.timeoutSeconds (Run.progress rules d s)
    match p.outcome with
    | .error error => ⟨p.journal, sink, .error error⟩
    | .ok finished =>
      let (sink, outcome) := Run.publish sink finished
      ⟨p.journal, sink, outcome⟩

/-- A store when what happened in a run has been counted. -/
def Store.noting (s : Store) (j : Journal) : Store :=
  { s with opened := s.opened + j.opened, closed := s.closed + j.closed }

end RdfMapping
