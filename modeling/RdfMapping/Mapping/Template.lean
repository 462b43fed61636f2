/-!
String templates: text with placeholders for columns.

A template is text in which `{name}` stands for the column `name`. A backslash in front of a brace or
of a backslash stands for that character; in front of any other character it stands for itself. A
pattern is read from left to right: first into pieces (`Template.pieces`), then the pieces of text
between placeholders are joined (`Template.joinPieces`). `Template.print` writes segments back as a
pattern.
-/

namespace RdfMapping

/-- A stretch of text, or the column whose value is put in. -/
inductive Segment where
  | text (s : String)
  | column (name : String)
deriving DecidableEq, Repr

/-- Why a pattern is no template; offsets count bytes from the start of the pattern. -/
inductive TemplateFault where
  | emptyPlaceholder (offset : Nat)
  | unmatchedBrace (brace : Char) (offset : Nat)
deriving DecidableEq, Repr

def TemplateFault.message (pattern : String) : TemplateFault → String
  | emptyPlaceholder offset =>
    "empty placeholder at byte " ++ toString offset ++ " in template '" ++ pattern ++ "'"
  | unmatchedBrace brace offset =>
    "unmatched '" ++ String.singleton brace ++ "' at byte " ++ toString offset ++ " in template '" ++
      pattern ++ "'"

/-- A pattern that has been read. -/
structure Template where
  pattern : String
  segments : List Segment
deriving DecidableEq, Repr

namespace Template

/-- The characters that a backslash may precede. -/
def isSpecial (c : Char) : Bool := c == '\x7b' || c == '\x7d' || c == '\\'

/-- One character of text, or one placeholder. -/
inductive Piece where
  | char (c : Char)
  | column (name : List Char)
deriving DecidableEq, Repr

/-- Where a reader of a pattern stands: in the text, or in a placeholder that was opened at `start`
and whose name so far is `name`, last character first. -/
inductive Place where
  | text
  | name (start : Nat) (name : List Char)

def andThen (p : Piece) (rest : Except TemplateFault (List Piece)) :
    Except TemplateFault (List Piece) :=
  rest.map (p :: ·)

/-- Reads the pieces of a pattern from the byte `offset` on. -/
def pieces : Place → Nat → List Char → Except TemplateFault (List Piece)
  | .text, _, [] => .ok []
  | .text, offset, '\\' :: c :: rest =>
    -- a backslash that escapes nothing is text, and what follows it is read on its own
    if isSpecial c then andThen (.char c) (pieces .text (offset + 2) rest)
    else andThen (.char '\\') (pieces .text (offset + 1) (c :: rest))
  | .text, offset, c :: rest =>
    if c = '\x7b' then pieces (.name offset []) (offset + 1) rest
    else if c = '\x7d' then .error (.unmatchedBrace c offset)
    else andThen (.char c) (pieces .text (offset + c.utf8Size) rest)
  | .name start _, _, [] => .error (.unmatchedBrace '\x7b' start)
  | .name start name, offset, c :: rest =>
    if c = '\x7d' then
      if name = [] then .error (.emptyPlaceholder start)
      else andThen (.column name.reverse) (pieces .text (offset + 1) rest)
    -- no name may hold a brace or a backslash, so the opening brace stands alone
    else if isSpecial c then .error (.unmatchedBrace '\x7b' start)
    else pieces (.name start (c :: name)) (offset + c.utf8Size) rest

/-- Puts the pending text, last character first, in front of further segments. -/
def flush (pending : List Char) (rest : List Segment) : List Segment :=
  if pending = [] then rest else .text (String.ofList pending.reverse) :: rest

def joinPieces : List Char → List Piece → List Segment
  | pending, [] => flush pending []
  | pending, .char c :: rest => joinPieces (c :: pending) rest
  | pending, .column name :: rest =>
    flush pending (.column (String.ofList name) :: joinPieces [] rest)

def parse (pattern : String) : Except TemplateFault Template :=
  (pieces .text 0 pattern.toList).map fun ps => ⟨pattern, joinPieces [] ps⟩

def printChar (c : Char) : List Char := if isSpecial c then ['\\', c] else [c]

def printSegment : Segment → List Char
  | .text s => s.toList.flatMap printChar
  | .column name => '\x7b' :: name.toList ++ ['\x7d']

def print (segments : List Segment) : String := String.ofList (segments.flatMap printSegment)

/-- The columns of a template, each once, in order of first occurrence. -/
def columns (t : Template) : List String :=
  (t.segments.filterMap fun
    | .column name => some name
    | .text _ => none).eraseDups

end Template

end RdfMapping
