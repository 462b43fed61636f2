import Mathlib.Data.List.Basic
import RdfMapping.Json.Token

/-!
Texts of JSON tokens.

A text is a list of lexemes with blanks around them (`Texts`): marks, the three names and numbers
(`Word`), and strings in all their escapes (`Units`). The grammar says what may be written, the lexer
reads what was written: it finds the tokens of every such text (`tokens?_of_texts`).
-/

namespace RdfMapping.Lexer

/-! ## The grammar -/

/-- Decimal digits, one at least. -/
structure Digits (cs : List Char) : Prop where
  some_ : cs ≠ []
  all : ∀ c ∈ cs, c.isDigit = true

/-- The integer part of a number: zero, or digits that do not start with it. -/
inductive Whole : List Char → Prop
  | zero : Whole ['0']
  | digits {d ds} (first : d.isDigit = true) (notZero : d ≠ '0')
      (others : ∀ c ∈ ds, c.isDigit = true) : Whole (d :: ds)

inductive Fraction : List Char → Prop
  | none : Fraction []
  | point {ds} (digits : Digits ds) : Fraction ('.' :: ds)

inductive Exponent : List Char → Prop
  | none : Exponent []
  | mark {e sign ds} (letter : e = 'e' ∨ e = 'E') (signed : sign = [] ∨ sign = ['+'] ∨ sign = ['-'])
      (digits : Digits ds) : Exponent (e :: (sign ++ ds))

inductive Number : List Char → Prop
  | positive {whole fraction exponent} (w : Whole whole) (f : Fraction fraction)
      (e : Exponent exponent) : Number (whole ++ (fraction ++ exponent))
  | negative {whole fraction exponent} (w : Whole whole) (f : Fraction fraction)
      (e : Exponent exponent) : Number ('-' :: (whole ++ (fraction ++ exponent)))

/-- A token that has to be kept apart from the next one of its kind. -/
inductive Word : List Char → JsonToken → Prop
  | nullName : Word ['n', 'u', 'l', 'l'] .null
  | trueName : Word ['t', 'r', 'u', 'e'] (.bool true)
  | falseName : Word ['f', 'a', 'l', 's', 'e'] (.bool false)
  | number {digits} (h : Number digits) : Word digits (.number digits)

inductive Mark : Char → JsonToken → Prop
  | beginObject : Mark '\x7b' .beginObject
  | endObject : Mark '\x7d' .endObject
  | beginArray : Mark '[' .beginArray
  | endArray : Mark ']' .endArray
  | colon : Mark ':' .colon
  | comma : Mark ',' .comma

/-- The letters of the short escapes and what they stand for. -/
def shortEscapes : List (Char × Char) :=
  [('"', '"'), ('\\', '\\'), ('/', '/'), ('b', '\x08'), ('f', '\x0c'), ('n', '\x0a'), ('r', '\x0d'),
    ('t', '\x09')]

/-- The parts of a string and the characters that write them. -/
inductive Units : List Char → List Unit16 → Prop
  | nil : Units [] []
  | plain {c cs us} (noQuote : c ≠ '"') (noBackslash : c ≠ '\\') (noControl : 0x20 ≤ c.toNat)
      (more : Units cs us) : Units (c :: cs) (.char c :: us)
  | short {c d cs us} (escape : (c, d) ∈ shortEscapes) (more : Units cs us) :
      Units ('\\' :: c :: cs) (.char d :: us)
  | code {a b c d cs us} {w x y z : Nat} (first : Hex.digitValue? a = some w)
      (second : Hex.digitValue? b = some x) (third : Hex.digitValue? c = some y)
      (fourth : Hex.digitValue? d = some z) (more : Units cs us) :
      Units ('\\' :: 'u' :: a :: b :: c :: d :: cs)
        (.code (0x1000 * w + 0x100 * x + 0x10 * y + z) :: us)

/-- Characters that write tokens, with blanks before, between and after them. -/
inductive Texts : List Char → List JsonToken → Prop
  | nil : Texts [] []
  | blank {c cs ts} (space : isSpace c = true) (more : Texts cs ts) : Texts (c :: cs) ts
  | mark {c t cs ts} (first : Mark c t) (more : Texts cs ts) : Texts (c :: cs) (t :: ts)
  | word {word t cs ts} (first : Word word t) (ends : ∀ c, cs.head? = some c → isWordChar c = false)
      (more : Texts cs ts) : Texts (word ++ cs) (t :: ts)
  | string {body units cs ts} (first : Units body units) (more : Texts cs ts) :
      Texts ('"' :: (body ++ '"' :: cs)) (.string ((assemble units).map String.ofList) :: ts)

/-! ## Numbers -/

theorem Digits.isWord {cs : List Char} (h : Digits cs) : ∀ c ∈ cs, isWordChar c = true := by
  intro c hc
  simp [isWordChar, Char.isAlphanum, h.all c hc]

theorem Whole.digits' {cs : List Char} (h : Whole cs) : Digits cs := by
  cases h with
  | zero => exact ⟨by simp, List.all_eq_true.mp rfl⟩
  | digits first _ others => exact ⟨by simp, List.forall_mem_cons.mpr ⟨first, others⟩⟩

theorem Exponent.isExponentOrEnd {cs : List Char} (h : Exponent cs) :
    isExponentOrEnd cs = true := by
  cases h with
  | none => rfl
  | @mark e sign ds letter signed digits =>
    have some_ : ds.isEmpty = false := List.isEmpty_eq_false_iff.mpr digits.some_
    have all : ds.all Char.isDigit = true := List.all_eq_true.mpr digits.all
    have exponent : (e == 'e' || e == 'E') = true := by simpa using letter
    rcases signed with rfl | rfl | rfl
    · -- no sign: the first digit is not taken for one
      obtain ⟨d, ds, rfl⟩ := List.exists_cons_of_ne_nil digits.some_
      have digit := digits.all d List.mem_cons_self
      have noPlus : d ≠ '+' := by
        intro same
        subst same
        exact absurd digit (by decide)
      have noMinus : d ≠ '-' := by
        intro same
        subst same
        exact absurd digit (by decide)
      rw [List.nil_append, Lexer.isExponentOrEnd]
      · simp only [exponent, some_, all, Bool.not_false, Bool.and_self]
      · exact fun _ same => noPlus (List.cons.inj same).1
      · exact fun _ same => noMinus (List.cons.inj same).1
    · simp only [List.singleton_append, Lexer.isExponentOrEnd, exponent, some_, all, Bool.not_false,
        Bool.and_self]
    · simp only [List.singleton_append, Lexer.isExponentOrEnd, exponent, some_, all, Bool.not_false,
        Bool.and_self]

/-- An exponent does not go on with the digits before it. -/
theorem Exponent.noDigit {cs : List Char} (h : Exponent cs) :
    ∀ c, cs.head? = some c → c.isDigit = false ∧ c ≠ '.' := by
  intro c hc
  cases h with
  | none => cases hc
  | mark letter _ _ =>
    cases hc
    rcases letter with rfl | rfl <;> decide

theorem takeWhile_digits {ds rest : List Char} (all : ∀ c ∈ ds, c.isDigit = true)
    (ends : ∀ c, rest.head? = some c → c.isDigit = false) :
    (ds ++ rest).takeWhile Char.isDigit = ds ∧ (ds ++ rest).dropWhile Char.isDigit = rest := by
  rw [List.takeWhile_append_of_pos all, List.dropWhile_append_of_pos all]
  cases rest with
  | nil => simp
  | cons c rest => simp [ends c rfl]

theorem isFractionOrEnd_of {fraction exponent : List Char} (f : Fraction fraction)
    (e : Exponent exponent) : isFractionOrEnd (fraction ++ exponent) = true := by
  cases f with
  | none =>
    rw [List.nil_append, isFractionOrEnd]
    · exact e.isExponentOrEnd
    · intro rest same
      subst same
      exact (e.noDigit '.' rfl).2 rfl
  | @point ds digits =>
    obtain ⟨taken, dropped⟩ := takeWhile_digits digits.all fun c hc => (e.noDigit c hc).1
    rw [List.cons_append, isFractionOrEnd, taken, dropped, e.isExponentOrEnd]
    simpa using digits.some_

theorem fraction_head {fraction exponent : List Char} (f : Fraction fraction) (e : Exponent exponent) :
    ∀ c, (fraction ++ exponent).head? = some c → c.isDigit = false := by
  intro c hc
  cases f with
  | none => exact (e.noDigit c hc).1
  | point digits =>
    cases hc
    decide

theorem isMagnitude_of {whole fraction exponent : List Char} (w : Whole whole)
    (f : Fraction fraction) (e : Exponent exponent) :
    isMagnitude (whole ++ (fraction ++ exponent)) = true := by
  cases w with
  | zero =>
    rw [List.singleton_append, isMagnitude]
    exact isFractionOrEnd_of f e
  | @digits d ds first notZero others =>
    obtain ⟨-, dropped⟩ := takeWhile_digits others (fraction_head f e)
    rw [List.cons_append, isMagnitude]
    · rw [dropped, first, isFractionOrEnd_of f e]
      rfl
    · exact notZero

theorem Number.isNumber {cs : List Char} (h : Number cs) : isNumber cs = true := by
  cases h with
  | negative w f e => exact isMagnitude_of w f e
  | @positive whole fraction exponent w f e =>
    rw [Lexer.isNumber]
    · exact isMagnitude_of w f e
    · intro rest negative
      cases w with
      | zero => cases negative
      | digits first _ _ =>
        cases negative
        exact absurd first (by decide)

/-! ## Words -/

theorem Fraction.isWord {cs : List Char} (h : Fraction cs) : ∀ c ∈ cs, isWordChar c = true := by
  cases h with
  | none => simp
  | point digits => exact List.forall_mem_cons.mpr ⟨by decide, digits.isWord⟩

theorem Exponent.isWord {cs : List Char} (h : Exponent cs) : ∀ c ∈ cs, isWordChar c = true := by
  cases h with
  | none => simp
  | mark letter signed digits =>
    refine List.forall_mem_cons.mpr ⟨by rcases letter with rfl | rfl <;> decide, ?_⟩
    refine List.forall_mem_append.mpr ⟨?_, digits.isWord⟩
    rcases signed with rfl | rfl | rfl <;> exact List.all_eq_true.mp rfl

theorem Number.isWord {cs : List Char} (h : Number cs) : ∀ c ∈ cs, isWordChar c = true := by
  cases h with
  | positive w f e =>
    simp only [List.forall_mem_append]
    exact ⟨w.digits'.isWord, f.isWord, e.isWord⟩
  | negative w f e =>
    simp only [List.forall_mem_cons, List.forall_mem_append]
    exact ⟨by decide, w.digits'.isWord, f.isWord, e.isWord⟩

theorem Number.exists_head {cs : List Char} (h : Number cs) :
    ∃ c rest, cs = c :: rest ∧ (c = '-' ∨ c.isDigit = true) := by
  cases h with
  | negative w f e => exact ⟨'-', _, rfl, .inl rfl⟩
  | positive w f e =>
    cases w with
    | zero => exact ⟨'0', _, rfl, .inr (by decide)⟩
    | digits first _ _ => exact ⟨_, _, rfl, .inr first⟩

theorem Word.isWord {cs : List Char} {t : JsonToken} (h : Word cs t) :
    cs ≠ [] ∧ ∀ c ∈ cs, isWordChar c = true := by
  cases h with
  | nullName => exact ⟨by simp, List.all_eq_true.mp rfl⟩
  | trueName => exact ⟨by simp, List.all_eq_true.mp rfl⟩
  | falseName => exact ⟨by simp, List.all_eq_true.mp rfl⟩
  | number n =>
    obtain ⟨c, rest, rfl, -⟩ := n.exists_head
    exact ⟨by simp, n.isWord⟩

theorem Word.wordToken? {cs : List Char} {t : JsonToken} (h : Word cs t) : wordToken? cs = some t := by
  cases h with
  | nullName => rfl
  | trueName => rfl
  | falseName => rfl
  | number n =>
    obtain ⟨c, rest, rfl, sign⟩ := n.exists_head
    have noName : ∀ d, d = 'n' ∨ d = 't' ∨ d = 'f' → c ≠ d := by
      intro d hd same
      subst same
      rcases hd with rfl | rfl | rfl <;> exact absurd sign (by decide)
    have noNull := noName 'n' (.inl rfl)
    have noTrue := noName 't' (.inr (.inl rfl))
    have noFalse := noName 'f' (.inr (.inr rfl))
    simp [Lexer.wordToken?, noNull, noTrue, noFalse, n.isNumber]

/-! ## The lexer -/

theorem start_of_isWord {c : Char} (h : isWordChar c = true) (before : List JsonToken) :
    start c before = some (.word [c], before) := by
  have noQuote : c ≠ '"' := by
    intro same
    subst same
    exact absurd h (by decide)
  have noSpace : isSpace c = false := by
    rw [Bool.eq_false_iff]
    intro space
    simp only [isSpace, Bool.or_eq_true, beq_iff_eq] at space
    rcases space with ((rfl | rfl) | rfl) | rfl <;> exact absurd h (by decide)
  rw [start, if_neg (by simp [noSpace]), if_neg noQuote, if_pos h]

theorem foldlM_isWord {cs : List Char} (h : ∀ c ∈ cs, isWordChar c = true) (chars rest : List Char)
    (before : List JsonToken) :
    (cs ++ rest).foldlM step (.word chars, before) =
      rest.foldlM step (.word (cs.reverse ++ chars), before) := by
  induction cs generalizing chars with
  | nil => rfl
  | cons c cs ih =>
    obtain ⟨head, tail⟩ := List.forall_mem_cons.mp h
    have first : step (.word chars, before) c = some (.word (c :: chars), before) := by
      rw [step, if_pos head]
    rw [List.cons_append, List.foldlM_cons, first, Option.bind_eq_bind, Option.bind_some, ih tail]
    simp

theorem foldlM_word {word : List Char} {t : JsonToken} (h : Word word t) {cs : List Char}
    (ends : ∀ c, cs.head? = some c → isWordChar c = false) (before : List JsonToken) :
    ((word ++ cs).foldlM step (.between, before)).bind finish =
      (cs.foldlM step (.between, t :: before)).bind finish := by
  obtain ⟨some_, all⟩ := h.isWord
  obtain ⟨c, rest, rfl⟩ := List.exists_cons_of_ne_nil some_
  obtain ⟨head, tail⟩ := List.forall_mem_cons.mp all
  have read : wordToken? (rest.reverse ++ [c]).reverse = some t := by
    simpa using h.wordToken?
  rw [List.cons_append, List.foldlM_cons, step, start_of_isWord head, Option.bind_eq_bind,
    Option.bind_some, foldlM_isWord tail]
  -- the word is taken when the next character comes, or when the text ends
  cases cs with
  | nil =>
    simp only [List.foldlM_nil, Option.pure_def, Option.bind_some, finish, read, Option.map_some]
  | cons d cs =>
    have next : step (.word (rest.reverse ++ [c]), before) d = start d (t :: before) := by
      rw [step, if_neg (by simp [ends d rfl]), read, Option.bind_some]
    rw [List.foldlM_cons, List.foldlM_cons, next, step]

theorem shortEscapes_escaped : ∀ e ∈ shortEscapes, e.1 ≠ 'u' ∧ escaped? e.1 = some e.2 := by decide

theorem step_code {c : Char} {d : Nat} (h : Hex.digitValue? c = some d) (units : List Unit16)
    (value digits : Nat) (before : List JsonToken) :
    step (.code units value digits, before) c =
      if digits = 3 then some (.string (.code (16 * value + d) :: units), before)
      else some (.code units (16 * value + d) (digits + 1), before) := by
  rw [step, h, Option.map_some]
  split <;> rfl

theorem foldlM_units {body : List Char} {us : List Unit16} (h : Units body us) (units : List Unit16)
    (rest : List Char) (before : List JsonToken) :
    (body ++ rest).foldlM step (.string units, before) =
      rest.foldlM step (.string (us.reverse ++ units), before) := by
  -- on how the string is written, one unit at a time, whatever was read before
  induction h generalizing units with
  | nil => rfl
  | @plain c cs us noQuote noBackslash noControl _ ih =>
    have first : step (.string units, before) c = some (.string (.char c :: units), before) := by
      rw [step, if_neg noQuote, if_neg noBackslash, if_neg (Nat.not_lt.mpr noControl)]
    rw [List.cons_append, List.foldlM_cons, first, Option.bind_eq_bind, Option.bind_some, ih]
    simp
  | @short c d cs us escape _ ih =>
    obtain ⟨noCode, escaped⟩ := shortEscapes_escaped _ escape
    have first : step (.escape units, before) c = some (.string (.char d :: units), before) := by
      rw [step, if_neg noCode, escaped]
      rfl
    have opened : step (.string units, before) '\\' = some (.escape units, before) := rfl
    simp only [List.cons_append, List.foldlM_cons, opened, first, Option.bind_eq_bind,
      Option.bind_some]
    rw [ih]
    simp
  | @code a b c d cs us w x y z first second third fourth _ ih =>
    have value : 16 * (16 * (16 * (16 * 0 + w) + x) + y) + z =
        0x1000 * w + 0x100 * x + 0x10 * y + z := by omega
    have opened : step (.string units, before) '\\' = some (.escape units, before) := rfl
    have coded : step (.escape units, before) 'u' = some (.code units 0 0, before) := rfl
    simp only [List.cons_append, List.foldlM_cons, opened, coded, step_code first, step_code second,
      step_code third, step_code fourth, Option.bind_eq_bind, Option.bind_some, Nat.reduceAdd,
      Nat.reduceEqDiff, if_true, if_false, value]
    rw [ih]
    simp

theorem step_mark {c : Char} {t : JsonToken} (h : Mark c t) (before : List JsonToken) :
    step (.between, before) c = some (.between, t :: before) := by
  cases h <;> rfl

theorem foldlM_texts {cs : List Char} {ts : List JsonToken} (h : Texts cs ts)
    (before : List JsonToken) :
    (cs.foldlM step (.between, before)).bind finish = some (before.reverse ++ ts) := by
  induction h generalizing before with
  | nil => simp [finish]
  | @blank c cs ts space _ ih =>
    have first : step (.between, before) c = some (.between, before) := by
      rw [step, start, if_pos space]
    rw [List.foldlM_cons, first, Option.bind_eq_bind, Option.bind_some, ih]
  | mark first _ ih =>
    rw [List.foldlM_cons, step_mark first, Option.bind_eq_bind, Option.bind_some, ih]
    simp
  | word first ends _ ih =>
    rw [foldlM_word first ends, ih]
    simp
  | @string body units cs ts first _ ih =>
    have opened : step (.between, before) '"' = some (.string [], before) := rfl
    have closed : ∀ us : List Unit16,
        step (.string us, before) '"' = some (.between, stringToken us :: before) := fun _ => rfl
    rw [List.foldlM_cons, opened, Option.bind_eq_bind, Option.bind_some, foldlM_units first,
      List.foldlM_cons, closed, Option.bind_eq_bind, Option.bind_some, ih]
    simp [stringToken]

/-- The lexer finds the tokens of a text. -/
theorem tokens?_of_texts {cs : List Char} {ts : List JsonToken} (h : Texts cs ts) :
    tokens? cs = some ts := by
  rw [tokens?, foldlM_texts h]
  rfl

end RdfMapping.Lexer
