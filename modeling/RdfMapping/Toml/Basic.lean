/-!
TOML values.
-/

namespace RdfMapping

/-- A TOML value; numbers with a fraction, dates and times keep their text. -/
inductive Toml where
  | string (s : String)
  | integer (n : Int)
  | float (text : String)
  | bool (b : Bool)
  | dateTime (text : String)
  | array (items : List Toml)
  | table (entries : List (String × Toml))
deriving Repr, Inhabited

end RdfMapping
