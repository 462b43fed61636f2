import RdfMapping.Proofs.Run.Partitions
import RdfMapping.Run.Materialize

/-!
Publishing what has finished.

A sink may be of any kind (`Receiver`): all that is known is what it becomes when lines are written to
it, or that it refuses them. `Receiver.deliver` is the end of a run for such a sink, and that of
`materialize` for the sink of the library (`materialize_eq_deliver`). The writes that a sink took are a
list (`Takes`), so a delivery is described by the writes it comes to.
-/

namespace RdfMapping

/-- A sink of any kind: what it becomes when lines are written under a label, unless it refuses them. -/
abbrev Receiver (σ : Type) := σ → String → TextSet → Option σ

def Finished.write (f : Finished) : String × TextSet := (f.id, f.lines)

/-- The report of a finished partition: its name, and how many rules and statements it has. -/
def Finished.report (f : Finished) : String × Nat × Nat := (f.id, f.rules, f.lines.size)

namespace Receiver

variable {σ : Type}

/-- Writes finished partitions in order; the first that is refused stops it. -/
def writeAll (write? : Receiver σ) : σ → List Finished → σ × Except RunError Unit
  | sink, [] => (sink, .ok ())
  | sink, f :: rest =>
    match write? sink f.id f.lines with
    | some sink => writeAll write? sink rest
    | none => (sink, .error (.refused f.id))

def publish (write? : Receiver σ) (sink : σ) (finished : List Finished) :
    σ × Except RunError Materialization :=
  let (sink, written) := writeAll write? sink finished
  (sink, written.map fun _ => ⟨Run.corpus finished, finished⟩)

/-- The end of a run: what has finished is published in the order of the names, and nothing is written
if the run was stopped. -/
def deliver (write? : Receiver σ) (sink : σ) :
    Except RunError (List Finished) → σ × Except RunError Materialization
  | .ok finished => publish write? sink (Run.inOrder finished)
  | .error error => (sink, .error error)

/-- Writes that a sink takes, one after the other. -/
inductive Takes (write? : Receiver σ) : σ → List (String × TextSet) → σ → Prop
  | nil {sink} : Takes write? sink [] sink
  | cons {sink next last label lines writes} (first : write? sink label lines = some next)
      (others : Takes write? next writes last) : Takes write? sink ((label, lines) :: writes) last

section Writes

variable {write? : Receiver σ} {sink last : σ}

/-- A sink that accepts, and still does after a write, takes any writes. -/
theorem exists_takes {accepting : σ → Prop}
    (accepts : ∀ x, accepting x → ∀ label lines, ∃ next, write? x label lines = some next ∧ accepting next)
    (ready : accepting sink) (writes : List (String × TextSet)) :
    ∃ last, Takes write? sink writes last := by
  induction writes generalizing sink with
  | nil => exact ⟨sink, .nil⟩
  | cons w writes ih =>
    obtain ⟨next, first, ready⟩ := accepts sink ready w.1 w.2
    obtain ⟨last, others⟩ := ih ready
    exact ⟨last, .cons first others⟩

theorem writeAll_append {before : List Finished} (h : Takes write? sink (before.map (·.write)) last)
    (after : List Finished) : writeAll write? sink (before ++ after) = writeAll write? last after := by
  induction before generalizing sink with
  | nil =>
    cases h
    rfl
  | cons f before ih =>
    cases h with
    | cons first others =>
      rw [List.cons_append, writeAll, first]
      exact ih others

theorem publish_of_takes {finished : List Finished}
    (h : Takes write? sink (finished.map (·.write)) last) :
    publish write? sink finished = (last, .ok ⟨Run.corpus finished, finished⟩) := by
  have all := writeAll_append h []
  rw [List.append_nil] at all
  rw [publish, all]
  rfl

theorem publish_of_refused {before after : List Finished} {f : Finished}
    (h : Takes write? sink (before.map (·.write)) last) (refused : write? last f.id f.lines = none) :
    publish write? sink (before ++ f :: after) = (last, .error (.refused f.id)) := by
  rw [publish, writeAll_append h, writeAll, refused]
  rfl

end Writes

end Receiver

/-! ## The sink of the library -/

theorem writeAll_eq (sink : Sink) (finished : List Finished) :
    Run.writeAll sink finished = Receiver.writeAll Sink.write? sink finished := by
  induction finished generalizing sink with
  | nil => rfl
  | cons f rest ih =>
    rw [Run.writeAll, Receiver.writeAll]
    cases sink.write? f.id f.lines with
    | none => rfl
    | some next => exact ih next

/-- Without a time limit, a run delivers what has finished. -/
theorem materialize_eq_deliver {rules : List MappingRule} {d : DataSource} {s : Settings}
    (valid : s.validate = .ok ()) (limit : s.timeoutSeconds = none) (sink : Sink) :
    let delivered := Receiver.deliver Sink.write? sink (Run.progress rules d s).outcome
    (materialize rules d s (some sink)).sink = some delivered.1 ∧
      (materialize rules d s (some sink)).outcome = delivered.2 := by
  simp only [materialize, valid, limit, Run.limited]
  cases (Run.progress rules d s).outcome with
  | error error => exact ⟨rfl, rfl⟩
  | ok finished => simp only [Receiver.deliver, Receiver.publish, Run.publish, writeAll_eq, and_self]

end RdfMapping
