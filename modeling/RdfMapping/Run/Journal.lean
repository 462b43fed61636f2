import RdfMapping.Mapping.Error

/-!
What happens in the course of a run, in virtual time.

Only stalls take time. An attempt is the journal of its events together with its outcome; attempts are
made one after the other (`Attempt.andThen`), and the first that is stopped stops all, unless its failure
is kept for later (`Attempt.settle`). `Journal.before` is the part of a journal that happens within a
time limit.
-/

namespace RdfMapping

inductive Event where
  | stalled (seconds : Nat)
  | opened
  | closed
deriving DecidableEq, Repr

abbrev Journal := List Event

namespace Journal

def secondsOf : Event → Nat
  | .stalled n => n
  | _ => 0

def elapsed : Journal → Nat
  | [] => 0
  | e :: rest => secondsOf e + elapsed rest

def opened (j : Journal) : Nat := j.count .opened

def closed (j : Journal) : Nat := j.count .closed

/-- The events up to the first stall that goes on past the limit. -/
def before : Nat → Journal → Journal
  | _, [] => []
  | limit, .stalled n :: rest =>
    if limit < n then [] else .stalled n :: before (limit - n) rest
  | limit, e :: rest => e :: before limit rest

end Journal

/-- Why an attempt was stopped. -/
inductive Stop where
  | failed (error : MappingError)
  | crashed
deriving DecidableEq

/-- Something that was tried: what happened, and what came of it. -/
structure Attempt (α : Type) where
  journal : Journal
  outcome : Except Stop α

namespace Attempt

variable {α β : Type}

def done (a : α) : Attempt α := ⟨[], .ok a⟩

def failed (error : MappingError) : Attempt α := ⟨[], .error (.failed error)⟩

def crashed : Attempt α := ⟨[], .error .crashed⟩

def happens (e : Event) : Attempt Unit := ⟨[e], .ok ()⟩

def ofResult (result : Except MappingError α) : Attempt α := ⟨[], result.mapError .failed⟩

/-- A second attempt, made with what came of the first. -/
def andThen (first : Attempt α) (second : α → Attempt β) : Attempt β :=
  match first.outcome with
  | .ok a => ⟨first.journal ++ (second a).journal, (second a).outcome⟩
  | .error stop => ⟨first.journal, .error stop⟩

/-- An attempt whose failure does not stop what comes after it; a crash does. -/
def settle (attempt : Attempt α) : Attempt (Except MappingError α) :=
  match attempt.outcome with
  | .ok a => ⟨attempt.journal, .ok (.ok a)⟩
  | .error (.failed error) => ⟨attempt.journal, .ok (.error error)⟩
  | .error .crashed => ⟨attempt.journal, .error .crashed⟩

def map (f : α → β) (attempt : Attempt α) : Attempt β := ⟨attempt.journal, attempt.outcome.map f⟩

end Attempt

end RdfMapping
