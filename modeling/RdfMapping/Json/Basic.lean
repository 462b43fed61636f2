import RdfMapping.Text.Hex

/-!
JSON values and their compact text.

Objects keep their members in order, repeated names included, and numbers keep their digits. A string
may be written with an escape for half of a surrogate pair and then has no Unicode text; such a string
is `none` here, as a value and as a name.
-/

namespace RdfMapping

inductive Json where
  | null
  | bool (b : Bool)
  | number (digits : List Char)
  | string (text : Option String)
  | array (items : List Json)
  | object (members : List (Option String × Json))
deriving Repr, Inhabited

namespace Json

def text (s : String) : Json := .string (some s)

def textOrNull : Option String → Json
  | some s => text s
  | none => .null

def escapeCode (c : Char) : List Char :=
  '\\' :: 'u' :: '0' :: '0' :: Hex.lower (UInt8.ofNat c.toNat)

/-- A character of a string: quotes, backslashes and control characters are escaped. -/
def escapeChar (c : Char) : List Char :=
  if c = '"' then ['\\', '"']
  else if c = '\\' then ['\\', '\\']
  else if c = '\x08' then ['\\', 'b']
  else if c = '\x09' then ['\\', 't']
  else if c = '\x0a' then ['\\', 'n']
  else if c = '\x0c' then ['\\', 'f']
  else if c = '\x0d' then ['\\', 'r']
  else if c.toNat < 0x20 then escapeCode c
  else [c]

/-- A string between quotes; one without a text is written as half of a surrogate pair. -/
def writeString : Option String → List Char
  | some s => '"' :: s.toList.flatMap escapeChar ++ ['"']
  | none => '"' :: '\\' :: 'u' :: 'd' :: '8' :: '0' :: '0' :: ['"']

mutual

def write : Json → List Char
  | .null => ['n', 'u', 'l', 'l']
  | .bool true => ['t', 'r', 'u', 'e']
  | .bool false => ['f', 'a', 'l', 's', 'e']
  | .number digits => digits
  | .string s => writeString s
  | .array items => '[' :: writeItems items ++ [']']
  | .object members => '\x7b' :: writeMembers members ++ ['\x7d']

def writeItems : List Json → List Char
  | [] => []
  | [item] => write item
  | item :: next :: rest => write item ++ ',' :: writeItems (next :: rest)

def writeMembers : List (Option String × Json) → List Char
  | [] => []
  | [(name, value)] => writeString name ++ ':' :: write value
  | (name, value) :: next :: rest =>
    writeString name ++ ':' :: write value ++ ',' :: writeMembers (next :: rest)

end

def render (j : Json) : String := String.ofList j.write

end Json

end RdfMapping
