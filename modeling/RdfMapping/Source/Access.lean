import RdfMapping.Run.Journal
import RdfMapping.Source.Store

/-!
Sources as a run sees them.

To open a connection is an attempt: it may take time, and a connection is granted, refused, or the
attempt crashes. A connection that is granted answers a query with batches, which may end early with an
error; to close it is an attempt as well. `Store.dataSource` are the tables of a store, whose connections
are noted as they are opened and closed; `Disturbance` makes a source slow or faulty.
-/

namespace RdfMapping

/-- The batches that answer a query, one after the other, and the error that ends them early. -/
structure Delivery where
  batches : List Batch
  broken : Option MappingError

structure Session where
  query : Query → Except MappingError Delivery
  close : Attempt Unit

structure DataSource where
  connect : String → Attempt Session

/-- A connection to tables in memory answers completely and closes without fail. -/
def Connection.session (c : Connection) : Session where
  query q := (c.answer q).map fun batches => ⟨batches, none⟩
  close := .happens .closed

/-- The tables of a store, opened without delay. A source that is not known opens no connection. -/
def Store.dataSource (s : Store) : DataSource where
  connect source :=
    match s.connect source with
    | .ok c => (Attempt.happens .opened).map fun _ => c.session
    | .error error => .failed error

inductive Disruption where
  | refuse
  | crash
  | failQuery
  /-- The answer breaks off after a number of batches. -/
  | breakAfter (batches : Nat)
  /-- The connection is closed, but reports an error. -/
  | failClose
deriving DecidableEq, Repr

/-- How a source is disturbed: a delay of opening, and something that goes wrong. -/
structure Disturbance where
  delay : Nat := 0
  disruption : Option Disruption := none
deriving DecidableEq, Repr

def Disruption.apply (s : Session) : Disruption → Session
  | failQuery => { s with query := fun _ => .error (.dataSource .queryFailed) }
  | breakAfter batches =>
    { s with query := fun q => (s.query q).map fun d =>
        ⟨d.batches.take batches, some (.dataSource .streamBroke)⟩ }
  | failClose => { s with close := s.close.andThen fun _ => .failed (.dataSource .closeFailed) }
  | refuse => s
  | crash => s

def Disruption.connect (source : String) (opening : Attempt Session) : Option Disruption → Attempt Session
  | some .refuse => .failed (.dataSource (.refused source))
  | some .crash => .crashed
  | some d => opening.map d.apply
  | none => opening

def DataSource.disturbed (d : DataSource) (plan : List (String × Disturbance)) : DataSource where
  connect source :=
    match plan.lookup source with
    | some disturbance =>
      (Attempt.happens (.stalled disturbance.delay)).andThen fun _ =>
        Disruption.connect source (d.connect source) disturbance.disruption
    | none => d.connect source

end RdfMapping
