import RdfMapping.Text.Hex

/-!
Tokens of JSON text.

The text is read character by character by a machine (`Lexer.step`); what it has read of the current
token is its state. Words are the numbers and the three names; a word ends where a character comes
that no word contains. `Lexer.assemble` pairs the surrogates that a string was escaped with.
-/

namespace RdfMapping

inductive JsonToken where
  | beginObject
  | endObject
  | beginArray
  | endArray
  | colon
  | comma
  | null
  | bool (b : Bool)
  | number (digits : List Char)
  | string (text : Option String)
deriving DecidableEq, Repr

namespace Lexer

/-- A part of a string: a character, or sixteen bits that were escaped. -/
inductive Unit16 where
  | char (c : Char)
  | code (n : Nat)
deriving DecidableEq, Repr

/-- The first half of a surrogate pair. -/
def isHigh (n : Nat) : Bool := 0xD800 ≤ n && n ≤ 0xDBFF

def isLow (n : Nat) : Bool := 0xDC00 ≤ n && n ≤ 0xDFFF

/-- The characters of a string, unless half of a pair is missing. -/
def assemble : List Unit16 → Option (List Char)
  | [] => some []
  | .char c :: rest => (assemble rest).map (c :: ·)
  | .code high :: .code low :: rest =>
    if isHigh high && isLow low then
      (assemble rest).map (Char.ofNat (0x10000 + (high - 0xD800) * 0x400 + (low - 0xDC00)) :: ·)
    else if isHigh high || isLow high then none
    else (assemble (.code low :: rest)).map (Char.ofNat high :: ·)
  | .code n :: rest =>
    if isHigh n || isLow n then none else (assemble rest).map (Char.ofNat n :: ·)

/-- What has been read of the current token, last character first. -/
inductive State where
  | between
  | word (chars : List Char)
  | string (units : List Unit16)
  | escape (units : List Unit16)
  | code (units : List Unit16) (value digits : Nat)

def isWordChar (c : Char) : Bool := c.isAlphanum || c == '+' || c == '-' || c == '.'

def isExponentOrEnd : List Char → Bool
  | [] => true
  | e :: rest =>
    (e == 'e' || e == 'E') &&
      let digits := match rest with
        | '+' :: ds => ds
        | '-' :: ds => ds
        | ds => ds
      !digits.isEmpty && digits.all Char.isDigit

/-- What may follow the integer part of a number. -/
def isFractionOrEnd : List Char → Bool
  | '.' :: rest =>
    !(rest.takeWhile Char.isDigit).isEmpty && isExponentOrEnd (rest.dropWhile Char.isDigit)
  | rest => isExponentOrEnd rest

/-- A number without its sign: no superfluous zero may stand in front. -/
def isMagnitude : List Char → Bool
  | '0' :: rest => isFractionOrEnd rest
  | c :: rest => c.isDigit && isFractionOrEnd (rest.dropWhile Char.isDigit)
  | [] => false

def isNumber : List Char → Bool
  | '-' :: rest => isMagnitude rest
  | cs => isMagnitude cs

def wordToken? (word : List Char) : Option JsonToken :=
  if word = ['n', 'u', 'l', 'l'] then some .null
  else if word = ['t', 'r', 'u', 'e'] then some (.bool true)
  else if word = ['f', 'a', 'l', 's', 'e'] then some (.bool false)
  else if isNumber word then some (.number word)
  else none

def isSpace (c : Char) : Bool := c == ' ' || c == '\t' || c == '\n' || c == '\r'

def punctuation? (c : Char) : Option JsonToken :=
  if c = '\x7b' then some .beginObject
  else if c = '\x7d' then some .endObject
  else if c = '[' then some .beginArray
  else if c = ']' then some .endArray
  else if c = ':' then some .colon
  else if c = ',' then some .comma
  else none

/-- The character that a one-letter escape stands for. -/
def escaped? (c : Char) : Option Char :=
  if c = '"' then some '"'
  else if c = '\\' then some '\\'
  else if c = '/' then some '/'
  else if c = 'b' then some '\x08'
  else if c = 'f' then some '\x0c'
  else if c = 'n' then some '\n'
  else if c = 'r' then some '\r'
  else if c = 't' then some '\t'
  else none

/-- A character at a place where no token has begun; the tokens read before are given last first. -/
def start (c : Char) (tokens : List JsonToken) : Option (State × List JsonToken) :=
  if isSpace c then some (.between, tokens)
  else if c = '"' then some (.string [], tokens)
  else if isWordChar c then some (.word [c], tokens)
  else (punctuation? c).map fun t => (.between, t :: tokens)

def stringToken (units : List Unit16) : JsonToken :=
  .string ((assemble units.reverse).map String.ofList)

def step : State × List JsonToken → Char → Option (State × List JsonToken)
  | (.between, tokens), c => start c tokens
  | (.word chars, tokens), c =>
    if isWordChar c then some (.word (c :: chars), tokens)
    else (wordToken? chars.reverse).bind fun t => start c (t :: tokens)
  | (.string units, tokens), c =>
    if c = '"' then some (.between, stringToken units :: tokens)
    else if c = '\\' then some (.escape units, tokens)
    else if c.toNat < 0x20 then none
    else some (.string (.char c :: units), tokens)
  | (.escape units, tokens), c =>
    if c = 'u' then some (.code units 0 0, tokens)
    else (escaped? c).map fun d => (.string (.char d :: units), tokens)
  | (.code units value digits, tokens), c =>
    (Hex.digitValue? c).map fun d =>
      if digits = 3 then (.string (.code (16 * value + d) :: units), tokens)
      else (.code units (16 * value + d) (digits + 1), tokens)

def finish : State × List JsonToken → Option (List JsonToken)
  | (.between, tokens) => some tokens.reverse
  | (.word chars, tokens) => (wordToken? chars.reverse).map fun t => (t :: tokens).reverse
  | _ => none

def tokens? (cs : List Char) : Option (List JsonToken) :=
  (cs.foldlM step (.between, [])).bind finish

end Lexer

end RdfMapping
