import RdfMapping.Run.RuleRun

/-!
Partitions: the rules that share a partition name, run in the order of the rule table.
-/

namespace RdfMapping

structure Partition where
  id : String
  rules : List MappingRule
deriving DecidableEq, Repr

/-- What a partition gives: the lines of all its rules. -/
structure Finished where
  id : String
  rules : Nat
  lines : TextSet
deriving DecidableEq

namespace Partition

/-- The partitions of a rule table, in ascending order of their names. -/
def group (rules : List MappingRule) : List Partition :=
  (TextSet.ofList (rules.map (·.partitionId))).toList.map fun id =>
    ⟨id, rules.filter (·.partitionId == id)⟩

def runRules (index : SubjectIndex) (d : DataSource) (s : Settings) :
    List MappingRule → TextSet → Attempt TextSet
  | [], lines => .done lines
  | r :: rest, lines =>
    (r.run index d s).andThen fun out => runRules index d s rest (lines ∪ out.lines)

def run (p : Partition) (index : SubjectIndex) (d : DataSource) (s : Settings) : Attempt Finished :=
  (runRules index d s p.rules ∅).map fun lines => ⟨p.id, p.rules.length, lines⟩

def runAll (index : SubjectIndex) (d : DataSource) (s : Settings) :
    List Partition → Attempt (List Finished)
  | [] => .done []
  | p :: rest =>
    (p.run index d s).andThen fun finished => (runAll index d s rest).map (finished :: ·)

end Partition

end RdfMapping
