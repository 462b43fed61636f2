import Mathlib.Data.List.Basic
import Mathlib.Data.String.Basic
import RdfMapping.Json.Reader
import RdfMapping.Proofs.Json.Lexemes

/-!
Texts of JSON values.

A value has tokens (`tokens`), and whatever text writes these tokens is a text of the value (`IsText`).
The reader gives the value of each of its texts (`parse?_of_isText`). The compact text is one of them, if
the numbers of the value are numbers (`isText_render`).
-/

namespace RdfMapping

namespace Json

open Lexer (Texts Units Unit16 assemble isWordChar)

/-- What holds of a value if it holds of its parts holds of all values. -/
theorem byParts {p : Json → Prop} (null : p .null) (bool : ∀ b, p (.bool b))
    (number : ∀ digits, p (.number digits)) (string : ∀ s, p (.string s))
    (array : ∀ items, (∀ i ∈ items, p i) → p (.array items))
    (object : ∀ members, (∀ m ∈ members, p m.2) → p (.object members)) : ∀ j, p j
  | .null => null
  | .bool b => bool b
  | .number digits => number digits
  | .string s => string s
  | .array items => array items fun i _ => byParts null bool number string array object i
  | .object members => object members fun m _ => byParts null bool number string array object m.2
decreasing_by
  · decreasing_trivial
  · rename_i hm
    have member := List.sizeOf_lt_of_mem hm
    have part : sizeOf m.2 < sizeOf m := by
      obtain ⟨name, value⟩ := m
      simp only [Prod.mk.sizeOf_spec]
      omega
    simp only [Json.object.sizeOf_spec]
    omega

mutual

def tokens : Json → List JsonToken
  | .null => [.null]
  | .bool b => [.bool b]
  | .number digits => [.number digits]
  | .string s => [.string s]
  | .array items => .beginArray :: (itemTokens items ++ [.endArray])
  | .object members => .beginObject :: (memberTokens members ++ [.endObject])

def itemTokens : List Json → List JsonToken
  | [] => []
  | [item] => tokens item
  | item :: next :: rest => tokens item ++ .comma :: itemTokens (next :: rest)

def memberTokens : List (Option String × Json) → List JsonToken
  | [] => []
  | [(name, value)] => .string name :: .colon :: tokens value
  | (name, value) :: next :: rest =>
    .string name :: .colon :: (tokens value ++ .comma :: memberTokens (next :: rest))

end

/-- A text of a value: one that writes its tokens. -/
def IsText (j : Json) (s : String) : Prop := Texts s.toList j.tokens

/-! ## Reading -/

/-- The reader comes from the tokens of a value to the value, whatever is still open. -/
def IsRead (j : Json) : Prop :=
  ∀ frames, j.tokens.foldlM readToken (.value, frames) = some (.after j, frames)

theorem foldlM_items {rest : List Json} {item : Json} (read : ∀ i ∈ item :: rest, IsRead i)
    (before : List Json) (frames : List Frame) :
    (itemTokens (item :: rest) ++ [JsonToken.endArray]).foldlM readToken (.value, .array before :: frames) =
      some (.after (.array (before.reverse ++ item :: rest)), frames) := by
  induction rest generalizing item before with
  | nil =>
    have first := read item List.mem_cons_self (.array before :: frames)
    rw [itemTokens, List.foldlM_append, first]
    simp [readToken, continueAfter]
  | cons next rest ih =>
    obtain ⟨head, tail⟩ := List.forall_mem_cons.mp read
    have first := head (.array before :: frames)
    have comma : readToken (.after item, .array before :: frames) .comma =
        some (.value, .array (item :: before) :: frames) := rfl
    rw [itemTokens, List.append_assoc, List.foldlM_append, first, List.cons_append,
      Option.bind_eq_bind, Option.bind_some, List.foldlM_cons, comma, Option.bind_eq_bind,
      Option.bind_some, ih tail]
    simp

theorem foldlM_members {rest : List (Option String × Json)} {name : Option String} {value : Json}
    (read : ∀ m ∈ (name, value) :: rest, IsRead m.2) (before : List (Option String × Json))
    {state : Awaiting} {frames : List Frame}
    (opens : ∀ name, readToken (state, frames) (.string name) = some (.colon before name, frames)) :
    (memberTokens ((name, value) :: rest) ++ [JsonToken.endObject]).foldlM readToken (state, frames) =
      some (.after (.object (before.reverse ++ (name, value) :: rest)), frames) := by
  have colon : ∀ (before : List (Option String × Json)) (name : Option String),
      readToken (.colon before name, frames) .colon = some (.value, .object before name :: frames) :=
    fun _ _ => rfl
  induction rest generalizing name value before state with
  | nil =>
    have first := read (name, value) List.mem_cons_self (.object before name :: frames)
    rw [memberTokens, List.cons_append, List.cons_append, List.foldlM_cons, opens,
      Option.bind_eq_bind, Option.bind_some, List.foldlM_cons, colon, Option.bind_eq_bind,
      Option.bind_some, List.foldlM_append, first]
    simp [readToken, continueAfter]
  | cons next rest ih =>
    obtain ⟨head, tail⟩ := List.forall_mem_cons.mp read
    have first := head (.object before name :: frames)
    have comma : readToken (.after value, .object before name :: frames) .comma =
        some (.name ((name, value) :: before), frames) := rfl
    rw [memberTokens, List.cons_append, List.cons_append, List.foldlM_cons, opens,
      Option.bind_eq_bind, Option.bind_some, List.foldlM_cons, colon, Option.bind_eq_bind,
      Option.bind_some, List.append_assoc, List.foldlM_append, first, Option.bind_eq_bind,
      Option.bind_some, List.cons_append, List.foldlM_cons, comma, Option.bind_eq_bind,
      Option.bind_some, ih tail _ fun _ => rfl]
    simp

theorem exists_tokens (j : Json) : ∃ t ts, j.tokens = t :: ts ∧ t ≠ .endArray := by
  cases j <;> exact ⟨_, _, by rw [tokens], by simp⟩

/-- Where an array may end, a value opens the array instead. -/
theorem foldlM_firstItem (j : Json) (rest : List JsonToken) (frames : List Frame) :
    (j.tokens ++ rest).foldlM readToken (.firstItem, frames) =
      (j.tokens ++ rest).foldlM readToken (.value, .array [] :: frames) := by
  obtain ⟨t, ts, starts, noEnd⟩ := j.exists_tokens
  rw [starts, List.cons_append, List.foldlM_cons, List.foldlM_cons]
  cases t <;> first | rfl | exact absurd rfl noEnd

theorem isRead (j : Json) : IsRead j := by
  -- on the parts of a value; `foldlM_items` and `foldlM_members` go through them in order
  induction j using byParts with
  | null => exact fun _ => rfl
  | bool b => exact fun _ => rfl
  | number digits => exact fun _ => rfl
  | string s => exact fun _ => rfl
  | array items read =>
    intro frames
    have opened : readToken (.value, frames) .beginArray = some (.firstItem, frames) := rfl
    rw [tokens, List.foldlM_cons, opened, Option.bind_eq_bind, Option.bind_some]
    cases items with
    | nil => rfl
    | cons item rest =>
      have starts : ∃ more, itemTokens (item :: rest) = item.tokens ++ more := by
        cases rest with
        | nil => exact ⟨[], by rw [itemTokens, List.append_nil]⟩
        | cons next rest => exact ⟨_, by rw [itemTokens]⟩
      obtain ⟨more, starts⟩ := starts
      have whole := foldlM_items read [] frames
      rw [starts, List.append_assoc] at whole ⊢
      rw [foldlM_firstItem, whole]
      rfl
  | object members read =>
    intro frames
    have opened : readToken (.value, frames) .beginObject = some (.firstName, frames) := rfl
    rw [tokens, List.foldlM_cons, opened, Option.bind_eq_bind, Option.bind_some]
    cases members with
    | nil => rfl
    | cons member rest => exact foldlM_members read [] fun _ => rfl

theorem ofTokens?_tokens (j : Json) : ofTokens? j.tokens = some j := by
  rw [ofTokens?, isRead j]
  rfl

/-- The reader gives the value of any of its texts. -/
theorem parse?_of_isText {j : Json} {s : String} (h : j.IsText s) : parse? s = some j := by
  rw [parse?, Lexer.tokens?_of_texts h]
  exact ofTokens?_tokens j

/-! ## Writing -/

/-- Values whose numbers are numbers. -/
inductive WellFormed : Json → Prop
  | null : WellFormed .null
  | bool (b : Bool) : WellFormed (.bool b)
  | number {digits} (h : Lexer.Number digits) : WellFormed (.number digits)
  | string (s : Option String) : WellFormed (.string s)
  | array {items} (h : ∀ i ∈ items, WellFormed i) : WellFormed (.array items)
  | object {members} (h : ∀ m ∈ members, WellFormed m.2) : WellFormed (.object members)

@[simp] theorem wellFormed_null : WellFormed .null := .null

@[simp] theorem wellFormed_string (s : Option String) : WellFormed (.string s) := .string s

@[simp] theorem wellFormed_array_iff {items : List Json} :
    WellFormed (.array items) ↔ ∀ i ∈ items, WellFormed i :=
  ⟨fun | .array h => h, .array⟩

@[simp] theorem wellFormed_object_iff {members : List (Option String × Json)} :
    WellFormed (.object members) ↔ ∀ m ∈ members, WellFormed m.2 :=
  ⟨fun | .object h => h, .object⟩

@[simp] theorem wellFormed_text (s : String) : WellFormed (text s) := .string _

@[simp] theorem wellFormed_textOrNull (s : Option String) : WellFormed (textOrNull s) := by
  cases s with
  | none => exact .null
  | some s => exact .string _

theorem assemble_code {n : Nat} (h : n < 0xD800) (us : List Unit16) :
    assemble (.code n :: us) = (assemble us).map (Char.ofNat n :: ·) := by
  have noHigh : Lexer.isHigh n = false := by
    rw [Lexer.isHigh, decide_eq_false (Nat.not_le.mpr h), Bool.false_and]
  have noLow : Lexer.isLow n = false := by
    have : ¬0xDC00 ≤ n := by omega
    rw [Lexer.isLow, decide_eq_false this, Bool.false_and]
  cases us with
  | nil => simp [assemble, noHigh, noLow]
  | cons u us => cases u <;> simp [assemble, noHigh, noLow]

theorem units_escapeChar (c : Char) {cs : List Char} {us : List Unit16} (more : Units cs us) :
    ∃ u, Units (escapeChar c ++ cs) (u :: us) ∧
      assemble (u :: us) = (assemble us).map (c :: ·) := by
  by_cases listed : ∃ e, (e, c) ∈ Lexer.shortEscapes ∧ escapeChar c = ['\\', e]
  · obtain ⟨e, escape, written⟩ := listed
    rw [written]
    exact ⟨.char c, .short escape more, rfl⟩
  have noShort : ∀ e, (e, c) ∈ Lexer.shortEscapes → escapeChar c ≠ ['\\', e] :=
    fun e escape written => listed ⟨e, escape, written⟩
  have noQuote : c ≠ '"' := by
    intro same
    subst same
    exact noShort '"' (by decide) rfl
  have noBackslash : c ≠ '\\' := by
    intro same
    subst same
    exact noShort '\\' (by decide) rfl
  have noLetter : ∀ e d, (e, d) ∈ Lexer.shortEscapes → escapeChar d = ['\\', e] → c ≠ d := by
    intro e d escape written same
    subst same
    exact noShort e escape written
  have written : escapeChar c = if c.toNat < 0x20 then escapeCode c else [c] := by
    rw [escapeChar, if_neg noQuote, if_neg noBackslash, if_neg (noLetter 'b' '\x08' (by decide) rfl),
      if_neg (noLetter 't' '\x09' (by decide) rfl), if_neg (noLetter 'n' '\x0a' (by decide) rfl),
      if_neg (noLetter 'f' '\x0c' (by decide) rfl), if_neg (noLetter 'r' '\x0d' (by decide) rfl)]
  rw [written]
  split
  · rename_i control
    have byte : (UInt8.ofNat c.toNat).toNat = c.toNat := by
      rw [UInt8.toNat_ofNat']
      omega
    have high := Hex.digitValue?_lowerDigit ⟨c.toNat / 16, by omega⟩
    have low := Hex.digitValue?_lowerDigit ⟨c.toNat % 16, by omega⟩
    have value : 0x1000 * 0 + 0x100 * 0 + 0x10 * (c.toNat / 16) + c.toNat % 16 = c.toNat := by omega
    refine ⟨.code c.toNat, ?_, ?_⟩
    · have zero : Hex.digitValue? '0' = some 0 := rfl
      have coded := Units.code zero zero high low more
      rw [value] at coded
      rw [escapeCode, Hex.lower, byte]
      exact coded
    · rw [assemble_code (by omega), Char.ofNat_toNat]
  · rename_i control
    exact ⟨.char c, .plain noQuote noBackslash (Nat.not_lt.mp control) more, rfl⟩

theorem exists_units (cs : List Char) :
    ∃ us, Units (cs.flatMap escapeChar) us ∧ assemble us = some cs := by
  induction cs with
  | nil => exact ⟨[], .nil, rfl⟩
  | cons c cs ih =>
    obtain ⟨us, more, all⟩ := ih
    obtain ⟨u, first, read⟩ := units_escapeChar c more
    refine ⟨u :: us, first, ?_⟩
    rw [read, all, Option.map_some]

theorem texts_writeString (s : Option String) {cs : List Char} {ts : List JsonToken}
    (more : Texts cs ts) : Texts (writeString s ++ cs) (.string s :: ts) := by
  cases s with
  | none =>
    have half := Texts.string (Units.code (a := 'd') (b := '8') (c := '0') (d := '0') rfl rfl rfl rfl
      .nil) more
    exact half
  | some s =>
    obtain ⟨us, units, read⟩ := exists_units s.toList
    have whole := Texts.string units more
    rw [read, Option.map_some, String.ofList_toList] at whole
    simpa [writeString] using whole

def EndsWord (cs : List Char) : Prop := ∀ c, cs.head? = some c → isWordChar c = false

theorem endsWord_cons {c : Char} (h : isWordChar c = false) (cs : List Char) : EndsWord (c :: cs) := by
  intro d same
  cases same
  exact h

/-- The compact text of a value, in front of any that does not go on with its last word. -/
def IsWritten (j : Json) : Prop :=
  ∀ {cs ts}, Texts cs ts → EndsWord cs → Texts (j.write ++ cs) (j.tokens ++ ts)

theorem texts_writeItems {items : List Json} (written : ∀ i ∈ items, IsWritten i) {cs : List Char}
    {ts : List JsonToken} (more : Texts cs ts) (ends : EndsWord cs) :
    Texts (writeItems items ++ cs) (itemTokens items ++ ts) := by
  induction items with
  | nil => exact more
  | cons item rest ih =>
    obtain ⟨head, tail⟩ := List.forall_mem_cons.mp written
    cases rest with
    | nil =>
      rw [writeItems, itemTokens]
      exact head more ends
    | cons next rest =>
      rw [writeItems, itemTokens, List.append_assoc, List.append_assoc]
      exact head (.mark .comma (ih tail)) (endsWord_cons (by decide) _)

theorem texts_writeMembers {members : List (Option String × Json)}
    (written : ∀ m ∈ members, IsWritten m.2) {cs : List Char} {ts : List JsonToken}
    (more : Texts cs ts) (ends : EndsWord cs) :
    Texts (writeMembers members ++ cs) (memberTokens members ++ ts) := by
  induction members with
  | nil => exact more
  | cons member rest ih =>
    obtain ⟨head, tail⟩ := List.forall_mem_cons.mp written
    obtain ⟨name, value⟩ := member
    cases rest with
    | nil =>
      rw [writeMembers, memberTokens, List.append_assoc]
      exact texts_writeString name (.mark .colon (head more ends))
    | cons next rest =>
      rw [writeMembers, memberTokens]
      simp only [List.append_assoc, List.cons_append]
      exact texts_writeString name
        (.mark .colon (head (.mark .comma (ih tail)) (endsWord_cons (by decide) _)))

theorem isWritten {j : Json} (h : WellFormed j) : IsWritten j := by
  induction h with
  | null => exact fun more ends => .word .nullName ends more
  | bool b =>
    intro cs ts more ends
    cases b with
    | true => exact .word .trueName ends more
    | false => exact .word .falseName ends more
  | number h => exact fun more ends => .word (.number h) ends more
  | string s => exact fun more _ => texts_writeString s more
  | @array items _ written =>
    intro cs ts more _
    rw [write, tokens]
    simp only [List.append_assoc, List.cons_append]
    exact .mark .beginArray
      (texts_writeItems written (.mark .endArray more) (endsWord_cons (by decide) _))
  | @object members _ written =>
    intro cs ts more _
    rw [write, tokens]
    simp only [List.append_assoc, List.cons_append]
    exact .mark .beginObject
      (texts_writeMembers written (.mark .endObject more) (endsWord_cons (by decide) _))

/-- The compact text of a value is a text of it. -/
theorem isText_render {j : Json} (h : WellFormed j) : j.IsText j.render := by
  have whole := isWritten h .nil (fun _ hc => by cases hc)
  rw [List.append_nil, List.append_nil] at whole
  rw [IsText, render, String.toList_ofList]
  exact whole

end Json

end RdfMapping
