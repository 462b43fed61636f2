import RdfMapping.Json.Basic

/-!
Records in JSON: an object of named fields, or an array of the fields in their order.

Each field has one or more spellings. An object gives a field under one of them and at most once;
names that spell no field are ignored. An array gives the fields by position and may stop early.
Fields that are not given are left to the reader of the record.
-/

namespace RdfMapping.Json

/-- The names under which a field may be given. -/
abbrev Spellings := List String

def spells (names : Spellings) (member : Option String × Json) : Bool :=
  match member.1 with
  | some name => names.contains name
  | none => false

/-- The value of a field in an object, if there is one; a field may not be given twice. -/
def member? (members : List (Option String × Json)) (names : Spellings) : Option (Option Json) :=
  match members.filter (spells names) with
  | [] => some none
  | [m] => some (some m.2)
  | _ => none

def fields? (spellings : List Spellings) : Json → Option (List (Option Json))
  | .object members =>
    if members.all (·.1.isSome) then spellings.mapM (member? members) else none
  | .array items =>
    if items.length ≤ spellings.length then
      some (items.map some ++ List.replicate (spellings.length - items.length) none)
    else none
  | _ => none

def text? : Json → Option String
  | .string (some s) => some s
  | _ => none

/-- A string with a text, or a null for no text. -/
def textOrNull? : Json → Option (Option String)
  | .null => some none
  | .string (some s) => some (some s)
  | _ => none

def list? {α : Type} (read? : Json → Option α) : Json → Option (List α)
  | .array items => items.mapM read?
  | _ => none

/-- A field that may be left out: then it has the value `absent`. -/
def optional? {α : Type} (absent : α) (read? : Json → Option α) : Option Json → Option α
  | some j => read? j
  | none => some absent

def required? {α : Type} (read? : Json → Option α) : Option Json → Option α
  | some j => read? j
  | none => none

end RdfMapping.Json
