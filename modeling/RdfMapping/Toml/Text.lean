import RdfMapping.Text.Hex

/-!
TOML strings in their four forms: basic or literal, on one line or on several.

Each reader gets the characters after the opening quotes and returns the content with the characters
after the closing quotes. In a string of several lines up to two quotes stand for themselves, so the
closing three may have two more in front of them; a backslash at the end of a line of a basic string
joins it with the next text.
-/

namespace RdfMapping.Toml.Text

/-- Whether a character may stand in text or in a comment: no control character but the tab. -/
def isVisible (c : Char) : Bool := c == '\t' || (0x20 ≤ c.toNat && c.toNat != 0x7F)

def escaped? (c : Char) : Option Char :=
  if c = '"' then some '"'
  else if c = '\\' then some '\\'
  else if c = 'b' then some '\x08'
  else if c = 'f' then some '\x0c'
  else if c = 'n' then some '\n'
  else if c = 'r' then some '\r'
  else if c = 't' then some '\t'
  else none

/-- The character of a code point, which may be no surrogate. -/
def scalar? (n : Nat) : Option Char :=
  if n < 0xD800 ∨ (0xDFFF < n ∧ n < 0x110000) then some (Char.ofNat n) else none

def codeLength? (c : Char) : Option Nat :=
  if c = 'u' then some 4 else if c = 'U' then some 8 else none

/-- What a reader of a basic string is in the middle of. -/
inductive Mode where
  /-- Plain text. -/
  | plain
  /-- A backslash was read. -/
  | escape
  /-- A code point is being read: its value so far, and how many digits are to come. -/
  | code (value missing : Nat)
  /-- A backslash and blanks were read; the end of the line has to come. -/
  | lineEnd
  /-- Blanks and line ends are skipped. -/
  | skipping

/-- The content and what follows it. -/
abbrev Result := Option (String × List Char)

def content (chars : List Char) : String := String.ofList chars.reverse

/-- One step of a code point: a digit, and after the last one the character. -/
def codeStep? (value missing : Nat) (c : Char) : Option (Mode × List Char) :=
  (Hex.digitValue? c).bind fun d =>
    if missing ≤ 1 then (scalar? (16 * value + d)).map fun e => (.plain, [e])
    else some (.code (16 * value + d) (missing - 1), [])

def escapeStep? (c : Char) : Option (Mode × List Char) :=
  match codeLength? c with
  | some n => some (.code 0 n, [])
  | none => (escaped? c).map fun e => (.plain, [e])

def basic : Mode → List Char → List Char → Result
  | _, _, [] => none
  | .plain, chars, c :: rest =>
    if c = '"' then some (content chars, rest)
    else if c = '\\' then basic .escape chars rest
    else if isVisible c then basic .plain (c :: chars) rest
    else none
  | .escape, chars, c :: rest =>
    match escapeStep? c with
    | some (mode, more) => basic mode (more ++ chars) rest
    | none => none
  | .code value missing, chars, c :: rest =>
    match codeStep? value missing c with
    | some (mode, more) => basic mode (more ++ chars) rest
    | none => none
  | .lineEnd, _, _ => none
  | .skipping, _, _ => none

def literal : List Char → List Char → Result
  | _, [] => none
  | chars, c :: rest =>
    if c = '\'' then some (content chars, rest)
    else if isVisible c then literal (c :: chars) rest
    else none

/-- Closes a string of several lines at a run of `count` quotes, where three close it and up to two
more belong to the content. -/
def closeRun (quote : Char) (count : Nat) (chars rest : List Char) : Result :=
  if count ≤ 5 then some (content (List.replicate (count - 3) quote ++ chars), rest) else none

/-- A literal string of several lines; `quotes` counts the quotes read last. -/
def longLiteral (quotes : Nat) (chars : List Char) : List Char → Result
  | [] => if 3 ≤ quotes then closeRun '\'' quotes chars [] else none
  | c :: rest =>
    if c = '\'' then longLiteral (quotes + 1) chars rest
    else if 3 ≤ quotes then closeRun '\'' quotes chars (c :: rest)
    else
      let chars := List.replicate quotes '\'' ++ chars
      if c = '\r' then
        match rest with
        | '\n' :: rest => longLiteral 0 ('\n' :: chars) rest
        | _ => none
      else if isVisible c || c = '\n' then longLiteral 0 (c :: chars) rest
      else none

def longBasic : Mode → Nat → List Char → List Char → Result
  | .plain, quotes, chars, [] => if 3 ≤ quotes then closeRun '"' quotes chars [] else none
  | _, _, _, [] => none
  | .plain, quotes, chars, c :: rest =>
    if c = '"' then longBasic .plain (quotes + 1) chars rest
    else if 3 ≤ quotes then closeRun '"' quotes chars (c :: rest)
    else
      let chars := List.replicate quotes '"' ++ chars
      if c = '\\' then longBasic .escape 0 chars rest
      else if c = '\r' then
        match rest with
        | '\n' :: rest => longBasic .plain 0 ('\n' :: chars) rest
        | _ => none
      else if isVisible c || c = '\n' then longBasic .plain 0 (c :: chars) rest
      else none
  | .escape, _, chars, c :: rest =>
    if c = ' ' || c = '\t' then longBasic .lineEnd 0 chars rest
    else if c = '\n' then longBasic .skipping 0 chars rest
    else if c = '\r' then
      match rest with
      | '\n' :: rest => longBasic .skipping 0 chars rest
      | _ => none
    else
      match escapeStep? c with
      | some (mode, more) => longBasic mode 0 (more ++ chars) rest
      | none => none
  | .code value missing, _, chars, c :: rest =>
    match codeStep? value missing c with
    | some (mode, more) => longBasic mode 0 (more ++ chars) rest
    | none => none
  | .lineEnd, _, chars, c :: rest =>
    if c = ' ' || c = '\t' then longBasic .lineEnd 0 chars rest
    else if c = '\n' then longBasic .skipping 0 chars rest
    else if c = '\r' then
      match rest with
      | '\n' :: rest => longBasic .skipping 0 chars rest
      | _ => none
    else none
  | .skipping, _, chars, c :: rest =>
    if c = ' ' || c = '\t' || c = '\n' then longBasic .skipping 0 chars rest
    else if c = '\r' then
      match rest with
      | '\n' :: rest => longBasic .skipping 0 chars rest
      | _ => none
    else if c = '"' then longBasic .plain 1 chars rest
    else if c = '\\' then longBasic .escape 0 chars rest
    else if isVisible c then longBasic .plain 0 (c :: chars) rest
    else none

/-- Drops a line end right after the opening quotes. -/
def afterOpening : List Char → List Char
  | '\n' :: rest => rest
  | '\r' :: '\n' :: rest => rest
  | cs => cs

def string? : List Char → Result
  | '"' :: '"' :: '"' :: rest => longBasic .plain 0 [] (afterOpening rest)
  | '"' :: rest => basic .plain [] rest
  | '\'' :: '\'' :: '\'' :: rest => longLiteral 0 [] (afterOpening rest)
  | '\'' :: rest => literal [] rest
  | _ => none

end RdfMapping.Toml.Text
