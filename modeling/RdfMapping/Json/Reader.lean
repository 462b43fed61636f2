import RdfMapping.Json.Basic
import RdfMapping.Json.Token

/-!
Reading JSON text.

A machine with a stack reads the tokens one by one, so that values may nest to any depth: the stack
holds the arrays and objects that are still open (`Frame`), and the state says what may come next
(`Awaiting`).
-/

namespace RdfMapping.Json

/-- An array or object that is still open; its parts are given last first. -/
inductive Frame where
  | array (items : List Json)
  | object (members : List (Option String × Json)) (name : Option String)

inductive Awaiting where
  /-- A value has to come. -/
  | value
  /-- A first value of an array, or its end. -/
  | firstItem
  /-- A first name of an object, or its end. -/
  | firstName
  /-- A further name. -/
  | name (members : List (Option String × Json))
  /-- The colon after a name. -/
  | colon (members : List (Option String × Json)) (name : Option String)
  /-- A value is complete. -/
  | after (value : Json)

/-- What is awaited, and the open arrays and objects, innermost first. -/
abbrev ReaderState := Awaiting × List Frame

def beginValue (frames : List Frame) : JsonToken → Option ReaderState
  | .null => some (.after .null, frames)
  | .bool b => some (.after (.bool b), frames)
  | .number digits => some (.after (.number digits), frames)
  | .string text => some (.after (.string text), frames)
  | .beginArray => some (.firstItem, frames)
  | .beginObject => some (.firstName, frames)
  | _ => none

def continueAfter (value : Json) : List Frame → JsonToken → Option ReaderState
  | .array items :: frames, .comma => some (.value, .array (value :: items) :: frames)
  | .array items :: frames, .endArray => some (.after (.array (value :: items).reverse), frames)
  | .object members name :: frames, .comma => some (.name ((name, value) :: members), frames)
  | .object members name :: frames, .endObject =>
    some (.after (.object ((name, value) :: members).reverse), frames)
  | _, _ => none

def readToken : ReaderState → JsonToken → Option ReaderState
  | (.value, frames), t => beginValue frames t
  | (.firstItem, frames), .endArray => some (.after (.array []), frames)
  | (.firstItem, frames), t => beginValue (.array [] :: frames) t
  | (.firstName, frames), .endObject => some (.after (.object []), frames)
  | (.firstName, frames), .string name => some (.colon [] name, frames)
  | (.name members, frames), .string name => some (.colon members name, frames)
  | (.colon members name, frames), .colon => some (.value, .object members name :: frames)
  | (.after value, frames), t => continueAfter value frames t
  | _, _ => none

/-- The value when the tokens end: it is complete and nothing is open. -/
def readEnd : ReaderState → Option Json
  | (.after value, []) => some value
  | _ => none

def ofTokens? (tokens : List JsonToken) : Option Json :=
  (tokens.foldlM readToken (.value, [])).bind readEnd

def parse? (s : String) : Option Json := (Lexer.tokens? s.toList).bind ofTokens?

end RdfMapping.Json
