/-!
Quoted literals of statements.

A literal is its lexical form between quotes, with backslash, quote, line feed and carriage return
escaped, and after it a language or a datatype. A language wins over a datatype.
-/

namespace RdfMapping.Literal

/-- A character of a lexical form as it stands between quotes. -/
def escapeChar (c : Char) : List Char :=
  if c = '\\' then ['\\', '\\']
  else if c = '"' then ['\\', '"']
  else if c = '\n' then ['\\', 'n']
  else if c = '\r' then ['\\', 'r']
  else [c]

def escape (lexical : String) : String := String.ofList (lexical.toList.flatMap escapeChar)

/-- What follows the closing quote. -/
def suffix (language datatype : Option String) : String :=
  match language, datatype with
  | some tag, _ => "@" ++ tag
  | none, some iri => "^^<" ++ iri ++ ">"
  | none, none => ""

def render (language datatype : Option String) (lexical : String) : String :=
  "\"" ++ escape lexical ++ "\"" ++ suffix language datatype

end RdfMapping.Literal
