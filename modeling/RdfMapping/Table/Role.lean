/-!
The roles that a column plays in a batch.

A batch that joins two tables holds the columns of one side under the prefix of the child and those
of the other under the prefix of the parent; a batch of one table uses plain names.
-/

namespace RdfMapping

/-- Which side of a row a column name refers to. -/
inductive Role where
  | plain
  | child
  | parent
deriving DecidableEq, Repr, Inhabited

namespace Role

/-- The text put in front of the column names of a role. -/
def lead : Role → String
  | plain => ""
  | child => "child_"
  | parent => "parent_"

/-- The name under which a batch holds a column of a role. -/
def qualify (role : Role) (name : String) : String := role.lead ++ name

theorem qualify_inj {role : Role} {a b : String} : role.qualify a = role.qualify b ↔ a = b := by
  refine ⟨fun h => ?_, fun h => h ▸ rfl⟩
  have := congrArg String.toList h
  exact String.toList_inj.mp (by simpa [qualify, String.toList_append] using this)

end Role

end RdfMapping
