import RdfMapping.Source.Store

/-!
A store in use: connections are opened, asked and closed under names of their own, in any order, while
tables come and change.

`Clients.step` takes one step and gives its reply; `Clients.run` takes a list of steps.
-/

namespace RdfMapping

/-- A store and the connections that are held, each name at most once. -/
structure Clients where
  store : Store := {}
  held : List (String × Connection) := []

/-- What a client, or the keeper of the tables, does. -/
inductive ClientStep where
  | insertTable (source table : String) (b : Batch)
  | connect (name source : String)
  | ask (name : String) (q : Query)
  | close (name : String)

inductive Reply where
  | inserted
  | opened
  | refused (error : MappingError)
  | answered (answer : Except MappingError (List Batch))
  | closed
  | notOpen

namespace Clients

def connection? (c : Clients) (name : String) : Option Connection := c.held.lookup name

def others (c : Clients) (name : String) : List (String × Connection) :=
  c.held.filter (·.1 != name)

/-- Takes a step. A connection that is opened takes the place of one of its name, which is not closed
by that. -/
def step (c : Clients) : ClientStep → Clients × Reply
  | .insertTable source table b => ({ c with store := c.store.insertTable source table b }, .inserted)
  | .connect name source =>
    match c.store.openConnection source with
    | .ok (connection, store) => (⟨store, (name, connection) :: c.others name⟩, .opened)
    | .error error => (c, .refused error)
  | .ask name q =>
    match c.connection? name with
    | some connection => (c, .answered (connection.answer q))
    | none => (c, .notOpen)
  | .close name =>
    match c.connection? name with
    | some _ => (⟨c.store.closeConnection, c.others name⟩, .closed)
    | none => (c, .notOpen)

def run (c : Clients) : List ClientStep → Clients
  | [] => c
  | s :: rest => (c.step s).1.run rest

end Clients

end RdfMapping
