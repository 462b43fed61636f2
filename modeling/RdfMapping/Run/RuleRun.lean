import RdfMapping.Run.Journal
import RdfMapping.Run.Settings
import RdfMapping.Source.Access
import RdfMapping.Statement.Line

/-!
Running one rule: what it asks of its source, and the statements that the answer gives.

A rule opens one connection, renders the batches of the answer one after the other, and closes the
connection whatever came of them; an error of the query or of rendering wins over one of closing.
-/

namespace RdfMapping

/-- What a rule gives: its lines, and how many batches and rows they come from. -/
structure RuleOutput where
  lines : TextSet := ∅
  batches : Nat := 0
  rows : Nat := 0
deriving DecidableEq

def RuleOutput.add (out : RuleOutput) (b : Batch) (lines : List String) : RuleOutput :=
  ⟨out.lines ∪ TextSet.ofList lines, out.batches + 1, out.rows + b.numRows⟩

abbrev Renderer := Batch → Except MappingError (List String)

def drain (render : Renderer) (broken : Option MappingError) :
    List Batch → RuleOutput → Except MappingError RuleOutput
  | [], out =>
    match broken with
    | some error => .error error
    | none => .ok out
  | b :: rest, out =>
    match render b with
    | .ok lines => drain render broken rest (out.add b lines)
    | .error error => .error error

/-- What comes of a query over an open connection, before it is closed. -/
def Session.run (s : Session) (q : Query) (render : Renderer) : Except MappingError RuleOutput :=
  match s.query q with
  | .ok d => drain render d.broken d.batches {}
  | .error error => .error error

/-- Runs a query and closes the connection. It is closed before an error of the query is seen, and that
error wins over one of closing. -/
def Session.runAndClose (s : Session) (q : Query) (render : Renderer) : Attempt RuleOutput :=
  (Attempt.ofResult (s.run q render)).settle.andThen fun drained =>
    s.close.settle.andThen fun closed =>
      .ofResult do
        let out ← drained
        closed
        .ok out

def DataSource.run (d : DataSource) (source : String) (q : Query) (render : Renderer) :
    Attempt RuleOutput :=
  (d.connect source).andThen fun s => s.runAndClose q render

/-- What a rule asks, and how it renders a batch of the answer. -/
structure RulePlan where
  request : Request
  render : Renderer

namespace MappingRule

/-- What a joining rule asks: its own columns, and of the parent the columns of the subject map and
of the conditions. Both tables have to be in one source. -/
def joinPlan (r : MappingRule) (m : ReferencingObjectMap) (index : SubjectIndex) :
    Except MappingError RulePlan := do
  let parent ← index.resolve m.parentTriplesMap
  if !m.hasConditions then
    .error (.configuration (.noJoinConditions r.ruleId m.parentTriplesMap))
  else if parent.sourceName ≠ r.sourceName then
    .error (.dataSource (.acrossSources r.ruleId r.sourceName parent.sourceName))
  else
    .ok {
      request := .join ⟨r.logicalTable, r.columns.toList⟩
        ⟨parent.logicalTable, (parent.columns ∪ m.parentColumns).toList⟩ m.joinConditions
      render := r.renderJoined parent }

def plan (r : MappingRule) (index : SubjectIndex) : Except MappingError RulePlan :=
  match r.object with
  | .term _ => .ok ⟨.project ⟨r.logicalTable, r.columns.toList⟩, r.render⟩
  | .reference m => r.joinPlan m index

def run (r : MappingRule) (index : SubjectIndex) (d : DataSource) (s : Settings) :
    Attempt RuleOutput :=
  match r.plan index with
  | .ok p => d.run r.sourceName ⟨p.request, s.chunkSize, s.coerceFloat⟩ p.render
  | .error error => .failed error

end MappingRule

end RdfMapping
