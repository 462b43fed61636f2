import RdfMapping.Toml.Draft
import RdfMapping.Toml.Scalar
import RdfMapping.Toml.Text

/-!
Reading TOML documents.

A document is read line by line into drafts of its tables (`Draft`). Each reader takes the characters
that are left and returns what it has read with the characters after it. Arrays and inline tables may
nest to a limited depth, and dotted names have a limited length.
-/

namespace RdfMapping.Toml

/-- Arrays and inline tables are nested, and names are dotted, less deeply than this. -/
def depthLimit : Nat := 80

/-! ## Blanks, comments and line ends -/

def isLineBlank (c : Char) : Bool := c == ' ' || c == '\t'

def skipBlanks (cs : List Char) : List Char := cs.dropWhile isLineBlank

def lineEnd? : List Char → Option (List Char)
  | '\n' :: rest => some rest
  | '\r' :: '\n' :: rest => some rest
  | _ => none

def skipComment : List Char → List Char
  | '#' :: rest => rest.dropWhile Text.isVisible
  | cs => cs

/-- Skips the rest of a line: blanks and a comment, then a line end or the end of the document. -/
def endOfLine? (cs : List Char) : Option (List Char) :=
  match skipComment (skipBlanks cs) with
  | [] => some []
  | rest => lineEnd? rest

/-- Skips blanks, line ends, and comments that a line end follows. -/
def skipLines : Nat → List Char → Option (List Char)
  | 0, cs => some cs
  | fuel + 1, cs =>
    match skipBlanks cs with
    | '#' :: rest => (lineEnd? (rest.dropWhile Text.isVisible)).bind (skipLines fuel)
    | rest =>
      match lineEnd? rest with
      | some rest => skipLines fuel rest
      | none => if rest.head? = some '\r' then none else some rest

/-- Skips blanks, line ends and comments between the parts of an array. -/
def skipAll (cs : List Char) : Option (List Char) := skipLines (cs.length + 1) cs

/-! ## Names -/

def isBare (c : Char) : Bool := c.isAlphanum || c == '_' || c == '-'

def simpleName? (cs : List Char) : Option (String × List Char) :=
  match cs with
  | '"' :: rest => Text.basic .plain [] rest
  | '\'' :: rest => Text.literal [] rest
  | _ =>
    let name := cs.takeWhile isBare
    if name.isEmpty then none else some (String.ofList name, cs.dropWhile isBare)

/-- The parts of a dotted name, of which at most `fuel` are read. -/
def nameParts? : Nat → List Char → Option ((List String) × List Char)
  | 0, _ => none
  | fuel + 1, cs =>
    match simpleName? (skipBlanks cs) with
    | none => none
    | some (name, rest) =>
      match skipBlanks rest with
      | '.' :: rest => (nameParts? fuel rest).map fun (names, rest) => (name :: names, rest)
      | rest => some ([name], rest)

/-- A dotted name: the path to a table, and a name in it. -/
def name? (cs : List Char) : Option ((List String × String) × List Char) :=
  (nameParts? (depthLimit - 1) cs).bind fun (names, rest) =>
    names.getLast?.map fun last => ((names.dropLast, last), rest)

/-! ## Values -/

def isWordChar (c : Char) : Bool :=
  c.isAlphanum || c == '+' || c == '-' || c == '.' || c == '_' || c == ':'

/-- A value of one word; a blank may stand between a date and a time. -/
def word? (cs : List Char) : Option (Toml × List Char) :=
  let word := cs.takeWhile isWordChar
  let rest := cs.dropWhile isWordChar
  let joined : Option (Toml × List Char) :=
    match rest with
    | ' ' :: d :: more =>
      -- a date, a blank and a time are one value
      if Scalar.isDate word && d.isDigit then
        let time := (d :: more).takeWhile isWordChar
        (Scalar.ofWord? (word ++ 'T' :: time)).map fun v => (v, (d :: more).dropWhile isWordChar)
      else none
    | _ => none
  match joined with
  | some result => some result
  | none => (Scalar.ofWord? word).map fun v => (v, rest)

/-- The items of an array up to its end, at most `fuel` of them. -/
def items? (value? : List Char → Option (Toml × List Char)) :
    Nat → List Char → Option ((List Toml) × List Char)
  | 0, _ => none
  | fuel + 1, cs => do
    let cs ← skipAll cs
    match cs with
    | ']' :: rest => some ([], rest)
    | _ =>
      let (v, rest) ← value? cs
      let rest ← skipAll rest
      match rest with
      | ',' :: rest => (items? value? fuel rest).map fun (vs, rest) => (v :: vs, rest)
      | ']' :: rest => some ([v], rest)
      | _ => none

def assignment? (value? : List Char → Option (Toml × List Char)) (cs : List Char) :
    Option (((List String × String) × Toml) × List Char) := do
  let (name, rest) ← name? cs
  match rest with
  | '=' :: rest =>
    let (v, rest) ← value? (skipBlanks rest)
    some ((name, v), rest)
  | _ => none

/-- The entries of an inline table up to its end, at most `fuel` of them, added to `entries`. -/
def inlineEntries? (value? : List Char → Option (Toml × List Char)) :
    Nat → Drafts → List Char → Option (Drafts × List Char)
  | 0, _, _ => none
  | fuel + 1, entries, cs => do
    let (((path, name), v), rest) ← assignment? value? cs
    let entries ← Draft.assign path name v entries
    match skipBlanks rest with
    | ',' :: rest => inlineEntries? value? fuel entries rest
    | '\x7d' :: rest => some (entries, rest)
    | _ => none

def scalar? (cs : List Char) : Option (Toml × List Char) :=
  match cs with
  | '"' :: _ => (Text.string? cs).map fun (s, rest) => (.string s, rest)
  | '\'' :: _ => (Text.string? cs).map fun (s, rest) => (.string s, rest)
  | _ => word? cs

/-- A value, with at most `depth` levels of arrays and inline tables. -/
def value? : Nat → List Char → Option (Toml × List Char)
  | 0, cs => scalar? cs
  | depth + 1, cs =>
    match cs with
    | '[' :: rest =>
      (items? (value? depth) (rest.length + 1) rest).map fun (vs, rest) => (.array vs, rest)
    | '\x7b' :: rest =>
      match skipBlanks rest with
      | '\x7d' :: rest => some (.table [], rest)
      | rest =>
        (inlineEntries? (value? depth) (rest.length + 1) [] rest).map fun (entries, rest) =>
          (.table (Draft.finishEntries entries), rest)
    | _ => scalar? cs

/-! ## Documents -/

/-- The tables of a document so far, and the path of the table that the next lines belong to. -/
structure DocumentState where
  root : Drafts
  current : List String

/-- Reads the line of a table header, after its first bracket. -/
def header? (state : DocumentState) (cs : List Char) : Option (DocumentState × List Char) := do
  let ((path, name), rest) ← name? cs
  let root ← Draft.modify false (fun _ => Draft.define name) path false state.root
  match rest with
  | ']' :: rest => (endOfLine? rest).map fun rest => (⟨root, path ++ [name]⟩, rest)
  | _ => none

def arrayHeader? (state : DocumentState) (cs : List Char) : Option (DocumentState × List Char) := do
  let ((path, name), rest) ← name? cs
  let root ← Draft.modify false (fun _ => Draft.append name) path false state.root
  match rest with
  | ']' :: ']' :: rest => (endOfLine? rest).map fun rest => (⟨root, path ++ [name]⟩, rest)
  | _ => none

def line? (state : DocumentState) (cs : List Char) : Option (DocumentState × List Char) := do
  let (((path, name), v), rest) ← assignment? (value? (depthLimit - 1)) cs
  let root ← Draft.modify false (fun _ => Draft.assign path name v) state.current false state.root
  (endOfLine? rest).map fun rest => (⟨root, state.current⟩, rest)

def lines? : Nat → DocumentState → List Char → Option DocumentState
  | 0, _, _ => none
  | fuel + 1, state, cs =>
    match skipBlanks cs with
    | [] => some state
    | '#' :: rest =>
      (endOfLine? ('#' :: rest)).bind (lines? fuel state)
    | '[' :: '[' :: rest => (arrayHeader? state rest).bind fun (state, rest) => lines? fuel state rest
    | '[' :: rest => (header? state rest).bind fun (state, rest) => lines? fuel state rest
    | rest =>
      match lineEnd? rest with
      | some rest => lines? fuel state rest
      | none => (line? state rest).bind fun (state, rest) => lines? fuel state rest

def skipMark : List Char → List Char
  | '\ufeff' :: rest => rest
  | cs => cs

def parse? (s : String) : Option (List (String × Toml)) :=
  let cs := skipMark s.toList
  (lines? (cs.length + 1) ⟨[], []⟩ cs).map fun state => Draft.finishEntries state.root

end RdfMapping.Toml
