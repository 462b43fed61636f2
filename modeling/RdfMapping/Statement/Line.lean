import RdfMapping.Mapping.SubjectIndex
import RdfMapping.Statement.Term

/-!
Rendering statements, one line for each row of a batch.

A line is the terms of subject, predicate and object, then that of a graph other than the default
graph, and a full stop. The terms are rendered in this order, so the first of them that fails stops
the batch.
-/

namespace RdfMapping

/-- The side of a row that each term reads. -/
structure TermRoles where
  subject : Role
  predicate : Role
  object : Role
  graph : Role
deriving DecidableEq, Repr

namespace TermRoles

def plain : TermRoles := ⟨.plain, .plain, .plain, .plain⟩

/-- The object reads the parent side of a joined batch, the other terms the child side. -/
def join : TermRoles := ⟨.child, .child, .parent, .child⟩

end TermRoles

structure StatementMap where
  subject : TermMap
  predicate : TermMap
  object : TermMap
  graph : Option TermMap
deriving DecidableEq, Repr

namespace StatementMap

/-- The graph map that shows in a line. -/
def namedGraph (m : StatementMap) : Option TermMap := m.graph.filter (!·.isDefaultGraph)

/-- The terms of the graph that shows in a line: no text at all for the default graph. -/
def renderGraph (m : StatementMap) (b : Batch) (role : Role) : Except MappingError (List String) :=
  match m.namedGraph with
  | some g => g.render b role
  | none => .ok (List.replicate b.numRows "")

def joinTerms (subjects predicates objects graphs : List String) : List String :=
  (((subjects.zipWith (· ++ ·) predicates).zipWith (· ++ ·) objects).zipWith (· ++ ·) graphs).map
    (· ++ ".")

def render (m : StatementMap) (b : Batch) (roles : TermRoles) :
    Except MappingError (List String) := do
  let subjects ← m.subject.render b roles.subject
  let predicates ← m.predicate.render b roles.predicate
  let objects ← m.object.render b roles.object
  let graphs ← m.renderGraph b roles.graph
  .ok (joinTerms subjects predicates objects graphs)

end StatementMap

/-- The lines of a rule over a batch of its own table; a rule that joins has no object there. -/
def MappingRule.render (r : MappingRule) (b : Batch) : Except MappingError (List String) :=
  match r.object with
  | .term object =>
    StatementMap.render ⟨r.subject, r.predicate, object, r.graph⟩ b TermRoles.plain
  | .reference _ => .error (.configuration (.needsJoinedBatch r.ruleId))

/-- The lines of a rule over a batch that joins its table with that of a parent. -/
def MappingRule.renderJoined (r : MappingRule) (parent : SubjectMap) (b : Batch) :
    Except MappingError (List String) :=
  StatementMap.render ⟨r.subject, r.predicate, parent.subject, r.graph⟩ b TermRoles.join

end RdfMapping
