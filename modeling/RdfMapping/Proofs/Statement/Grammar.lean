import RdfMapping.Proofs.Outcome
import RdfMapping.Text.Hex

/-!
The grammar of statements, and that it reads a line in one way only.

A line is four or three tokens, each followed by a blank, and a full stop: two IRIs, an IRI or a literal,
and perhaps an IRI for the graph. Between its marks a token is a sequence of units, each of which stands
for one character: the character itself, an escape of one letter, or the number of the character in
hexadecimal (`Units`). No unit is the start of another and none starts with the closing mark, so the units
up to the mark are determined (`uniqueBefore_units`), and with them the tokens (`reads_unique`). A line
break is no part of any unit (`not_mem_of_reads`).
-/

namespace RdfMapping.NQuads

/-! ## Units -/

def isIriChar (c : Char) : Prop :=
  0x20 < c.toNat ∧ c ∉ ['<', '>', '"', '\x7b', '\x7d', '|', '^', '\x60', '\\']

instance (c : Char) : Decidable (isIriChar c) := inferInstanceAs (Decidable (_ ∧ _))

def isStringChar (c : Char) : Prop := c ∉ ['"', '\\', '\n', '\r']

def escapedChar? : Char → Option Char
  | 't' => some '\t'
  | 'b' => some '\x08'
  | 'n' => some '\n'
  | 'r' => some '\r'
  | 'f' => some '\x0c'
  | '"' => some '"'
  | '\'' => some '\''
  | '\\' => some '\\'
  | _ => none

def number? (digits : List Char) : Option Nat :=
  (digits.mapM Hex.digitValue?).map (List.foldl (fun n d => 16 * n + d) 0)

/-- The number of a character, in four or eight digits. -/
def NumberedChar (text : List Char) (c : Char) : Prop :=
  ∃ mark digits, text = '\\' :: mark :: digits ∧
    ((mark = 'u' ∧ digits.length = 4) ∨ (mark = 'U' ∧ digits.length = 8)) ∧
    ∃ n, number? digits = some n ∧ n.isValidChar ∧ c = Char.ofNat n

def IriUnit (text : List Char) (c : Char) : Prop :=
  (text = [c] ∧ isIriChar c) ∨ NumberedChar text c

def StringUnit (text : List Char) (c : Char) : Prop :=
  (text = [c] ∧ isStringChar c) ∨
    (∃ letter, text = ['\\', letter] ∧ escapedChar? letter = some c) ∨ NumberedChar text c

/-- A sequence of units, and the characters that they stand for. -/
inductive Units (U : List Char → Char → Prop) : List Char → List Char → Prop
  | nil : Units U [] []
  | cons {unit rest chars : List Char} {c : Char} (head : U unit c) (tail : Units U rest chars) :
      Units U (unit ++ rest) (c :: chars)

/-- Texts of a kind are read in one way, whatever follows them. -/
def Unique {α : Type} (G : List Char → α → Prop) : Prop :=
  ∀ {a a' : List Char} {v v' : α} {rest rest' : List Char}, G a v → G a' v' →
    a ++ rest = a' ++ rest' → a = a' ∧ v = v' ∧ rest = rest'

/-- Texts of a kind that are followed by a mark are read in one way. -/
def UniqueBefore {α : Type} (mark : Char) (G : List Char → α → Prop) : Prop :=
  ∀ {a a' : List Char} {v v' : α} {rest rest' : List Char}, G a v → G a' v' →
    a ++ mark :: rest = a' ++ mark :: rest' → a = a' ∧ v = v' ∧ rest = rest'

theorem unique_numberedChar : Unique NumberedChar := by
  intro a a' c c' rest rest' left right same
  obtain ⟨mark, digits, rfl, size, n, hn, -, rfl⟩ := left
  obtain ⟨mark', digits', rfl, size', n', hn', -, rfl⟩ := right
  simp only [List.cons_append, List.cons.injEq, true_and] at same
  obtain ⟨rfl, same⟩ := same
  -- the letter tells the number of digits, so both numbers end in the same place
  have lengths : digits.length = digits'.length := by
    rcases size with ⟨rfl, size⟩ | ⟨rfl, size⟩ <;> rcases size' with ⟨mark, size'⟩ | ⟨mark, size'⟩
    · omega
    · exact absurd mark (by decide)
    · exact absurd mark (by decide)
    · omega
  obtain ⟨rfl, rfl⟩ := List.append_inj same lengths
  rw [hn, Option.some.injEq] at hn'
  exact ⟨rfl, by rw [hn'], rfl⟩

theorem unique_iriUnit : Unique IriUnit := by
  have apart : ∀ {c : Char} {text rest rest' : List Char} {d : Char}, isIriChar c →
      NumberedChar text d → [c] ++ rest ≠ text ++ rest' := by
    intro c text rest rest' d plain h same
    obtain ⟨mark, digits, rfl, -, -⟩ := h
    simp only [List.cons_append, List.cons.injEq] at same
    exact plain.2 (by simp [same.1])
  intro a a' c c' rest rest' left right same
  rcases left with ⟨rfl, plain⟩ | number <;> rcases right with ⟨rfl, plain'⟩ | number'
  · simpa using same
  · exact absurd same (apart plain number')
  · exact absurd same.symm (apart plain' number)
  · exact unique_numberedChar number number' same

theorem unique_stringUnit : Unique StringUnit := by
  -- a plain character is no backslash, and the letter of an escape is neither `u` nor `U`
  have backslash : ∀ {text : List Char} {d : Char},
      ((∃ letter, text = ['\\', letter] ∧ escapedChar? letter = some d) ∨ NumberedChar text d) →
        ∃ rest, text = '\\' :: rest := by
    intro text d h
    rcases h with ⟨letter, rfl, -⟩ | ⟨mark, digits, rfl, -⟩
    · exact ⟨_, rfl⟩
    · exact ⟨_, rfl⟩
  have apart : ∀ {c : Char} {text rest rest' : List Char} {d : Char}, isStringChar c →
      ((∃ letter, text = ['\\', letter] ∧ escapedChar? letter = some d) ∨ NumberedChar text d) →
        [c] ++ rest ≠ text ++ rest' := by
    intro c text rest rest' d plain escape same
    obtain ⟨tail, rfl⟩ := backslash escape
    simp only [List.cons_append, List.cons.injEq] at same
    exact plain (by simp [same.1])
  have letters : ∀ {letter : Char} {text rest rest' : List Char} {c d : Char},
      escapedChar? letter = some c → NumberedChar text d → ['\\', letter] ++ rest ≠ text ++ rest' := by
    intro letter text rest rest' c d escape h same
    obtain ⟨mark, digits, rfl, size, -⟩ := h
    simp only [List.cons_append, List.cons.injEq, true_and] at same
    rcases size with ⟨rfl, -⟩ | ⟨rfl, -⟩
    · rw [same.1] at escape
      cases escape
    · rw [same.1] at escape
      cases escape
  intro a a' c c' rest rest' left right same
  rcases left with ⟨rfl, plain⟩ | escape <;> rcases right with ⟨rfl, plain'⟩ | escape'
  · simpa using same
  · exact absurd same (apart plain escape')
  · exact absurd same.symm (apart plain' escape)
  · rcases escape with ⟨letter, rfl, escape⟩ | number <;>
      rcases escape' with ⟨letter', rfl, escape'⟩ | number'
    · simp only [List.cons_append, List.nil_append, List.cons.injEq, true_and] at same
      obtain ⟨rfl, rfl⟩ := same
      rw [escape, Option.some.injEq] at escape'
      exact ⟨rfl, escape', rfl⟩
    · exact absurd same (letters escape number')
    · exact absurd same.symm (letters escape' number)
    · exact unique_numberedChar number number' same

/-- Units of which none starts with the mark are read in one way up to it. -/
theorem uniqueBefore_units {U : List Char → Char → Prop} {mark : Char} (unique : Unique U)
    (apart : ∀ {unit : List Char} {c : Char}, U unit c → ∀ tail rest, unit ++ tail ≠ mark :: rest) :
    UniqueBefore mark (Units U) := by
  intro a a' v v' rest rest' left right same
  -- on the units of the one text: the other goes on with the same unit, or both are at the mark
  induction left generalizing a' v' with
  | nil =>
    cases right with
    | nil => simpa using same
    | cons head tail =>
      rw [List.nil_append, List.append_assoc] at same
      exact absurd same.symm (apart head _ _)
  | cons head tail ih =>
    cases right with
    | nil =>
      rw [List.nil_append, List.append_assoc] at same
      exact absurd same (apart head _ _)
    | cons head' tail' =>
      rw [List.append_assoc, List.append_assoc] at same
      obtain ⟨rfl, rfl, same⟩ := unique head head' same
      obtain ⟨rfl, rfl, rfl⟩ := ih tail' same
      exact ⟨rfl, rfl, rfl⟩

/-! ## Tokens -/

/-- What stands after the lexical form of a literal. -/
inductive Decoration where
  | none
  | language (tag : String)
  | datatype (iri : String)
deriving DecidableEq, Repr

inductive RdfTerm where
  | iri (text : String)
  | literal (lexical : String) (decoration : Decoration)
deriving DecidableEq, Repr

def Enclosed (first last : Char) (U : List Char → Char → Prop) (text : List Char) (value : String) :
    Prop :=
  ∃ inner, text = first :: (inner ++ [last]) ∧ Units U inner value.toList

def IriRef : List Char → String → Prop := Enclosed '<' '>' IriUnit

def Quoted : List Char → String → Prop := Enclosed '"' '"' StringUnit

/-- A language tag: letters, and parts of letters and digits, each after a hyphen. -/
def LanguageTag (tag : List Char) : Prop :=
  ∃ (letters : List Char) (parts : List (List Char)),
    tag = letters ++ parts.flatMap (fun part => '-' :: part) ∧
    (letters ≠ [] ∧ ∀ c ∈ letters, c.isAlpha) ∧
    ∀ part ∈ parts, part ≠ [] ∧ ∀ c ∈ part, c.isAlphanum

inductive Decorates : List Char → Decoration → Prop
  | none : Decorates [] .none
  | language {tag : String} (h : LanguageTag tag.toList) : Decorates ('@' :: tag.toList) (.language tag)
  | datatype {text : List Char} {iri : String} (h : IriRef text iri) :
      Decorates ('^' :: '^' :: text) (.datatype iri)

inductive IriToken : List Char → RdfTerm → Prop
  | iri {text : List Char} {value : String} (h : IriRef text value) : IriToken text (.iri value)

inductive ObjectToken : List Char → RdfTerm → Prop
  | iri {text : List Char} {value : String} (h : IriRef text value) : ObjectToken text (.iri value)
  | literal {text suffix : List Char} {lexical : String} {decoration : Decoration}
      (h : Quoted text lexical) (decorated : Decorates suffix decoration) :
      ObjectToken (text ++ suffix) (.literal lexical decoration)

theorem IriToken.object {text : List Char} {x : RdfTerm} (h : IriToken text x) : ObjectToken text x := by
  obtain ⟨h⟩ := h
  exact .iri h

theorem Unique.before {α : Type} {G : List Char → α → Prop} (h : Unique G) (mark : Char) :
    UniqueBefore mark G := by
  intro a a' v v' rest rest' left right same
  obtain ⟨texts, values, rests⟩ := h left right same
  exact ⟨texts, values, (List.cons.inj rests).2⟩

theorem unique_enclosed {first last : Char} {U : List Char → Char → Prop}
    (h : UniqueBefore last (Units U)) : Unique (Enclosed first last U) := by
  intro a a' v v' rest rest' left right same
  obtain ⟨inner, rfl, units⟩ := left
  obtain ⟨inner', rfl, units'⟩ := right
  simp only [List.cons_append, List.append_assoc, List.nil_append, List.cons.injEq, true_and] at same
  obtain ⟨rfl, values, rests⟩ := h units units' same
  exact ⟨rfl, String.toList_inj.mp values, rests⟩

theorem unique_iriRef : Unique IriRef := by
  refine unique_enclosed (uniqueBefore_units unique_iriUnit ?_)
  intro unit c h tail rest same
  rcases h with ⟨rfl, plain⟩ | ⟨mark, digits, rfl, -⟩
  · simp only [List.cons_append, List.cons.injEq] at same
    exact plain.2 (by simp [same.1])
  · simp at same

theorem unique_quoted : Unique Quoted := by
  refine unique_enclosed (uniqueBefore_units unique_stringUnit ?_)
  intro unit c h tail rest same
  rcases h with ⟨rfl, plain⟩ | ⟨letter, rfl, -⟩ | ⟨mark, digits, rfl, -⟩
  · simp only [List.cons_append, List.cons.injEq] at same
    exact plain (by simp [same.1])
  · simp at same
  · simp at same

theorem append_mark_inj {mark : Char} {a a' rest rest' : List Char} (h : mark ∉ a) (h' : mark ∉ a')
    (same : a ++ mark :: rest = a' ++ mark :: rest') : a = a' ∧ rest = rest' := by
  induction a generalizing a' with
  | nil =>
    cases a' with
    | nil => simpa using same
    | cons c tail =>
      simp only [List.nil_append, List.cons_append, List.cons.injEq] at same
      exact absurd (List.mem_cons.mpr (.inl same.1)) h'
  | cons c tail ih =>
    cases a' with
    | nil =>
      simp only [List.nil_append, List.cons_append, List.cons.injEq] at same
      exact absurd (List.mem_cons.mpr (.inl same.1.symm)) h
    | cons c' tail' =>
      simp only [List.cons_append, List.cons.injEq] at same
      obtain ⟨rfl, same⟩ := same
      obtain ⟨rfl, rests⟩ :=
        ih (fun m => h (List.mem_cons_of_mem _ m)) (fun m => h' (List.mem_cons_of_mem _ m)) same
      exact ⟨rfl, rests⟩

theorem not_mem_tag {tag : List Char} (h : LanguageTag tag) {c : Char} (other : c.isAlphanum = false)
    (hyphen : c ≠ '-') : c ∉ tag := by
  obtain ⟨letters, parts, rfl, ⟨-, first⟩, others⟩ := h
  intro hc
  rcases List.mem_append.mp hc with hc | hc
  · have := first c hc
    simp [Char.isAlphanum, this] at other
  · obtain ⟨part, hp, hc⟩ := List.mem_flatMap.mp hc
    rcases List.mem_cons.mp hc with rfl | hc
    · exact hyphen rfl
    · have := (others part hp).2 c hc
      simp [this] at other

theorem uniqueBefore_decorates : UniqueBefore ' ' Decorates := by
  intro a a' x x' rest rest' left right same
  -- the first character tells the kind: a blank, an at sign or a caret
  cases left with
  | none =>
    cases right with
    | none => simpa using same
    | language h => simp at same
    | datatype h => simp at same
  | language h =>
    cases right with
    | none => simp at same
    | datatype h' => simp at same
    | language h' =>
      have blank : ∀ {tag : List Char}, LanguageTag tag → ' ' ∉ tag := fun h =>
        not_mem_tag h (by decide) (by decide)
      simp only [List.cons_append, List.cons.injEq, true_and] at same
      obtain ⟨tags, rests⟩ := append_mark_inj (blank h) (blank h') same
      rw [tags, String.toList_inj.mp tags]
      exact ⟨rfl, rfl, rests⟩
  | datatype h =>
    cases right with
    | none => simp at same
    | language h' => simp at same
    | datatype h' =>
      simp only [List.cons_append, List.cons.injEq, true_and] at same
      obtain ⟨rfl, rfl, rests⟩ := unique_iriRef.before ' ' h h' same
      exact ⟨rfl, rfl, rests⟩

theorem uniqueBefore_iriToken : UniqueBefore ' ' IriToken := by
  intro a a' x x' rest rest' left right same
  obtain ⟨h⟩ := left
  obtain ⟨h'⟩ := right
  obtain ⟨rfl, rfl, rests⟩ := unique_iriRef.before ' ' h h' same
  exact ⟨rfl, rfl, rests⟩

theorem uniqueBefore_objectToken : UniqueBefore ' ' ObjectToken := by
  -- the first character tells an IRI from a literal
  have apart : ∀ {a a' rest rest' : List Char} {v v' : String}, IriRef a v → Quoted a' v' →
      a ++ rest ≠ a' ++ rest' := by
    intro a a' rest rest' v v' left right same
    obtain ⟨inner, rfl, -⟩ := left
    obtain ⟨inner', rfl, -⟩ := right
    simp at same
  intro a a' x x' rest rest' left right same
  cases left with
  | iri h =>
    cases right with
    | iri h' =>
      obtain ⟨rfl, rfl, rests⟩ := unique_iriRef.before ' ' h h' same
      exact ⟨rfl, rfl, rests⟩
    | literal h' decorated' =>
      rw [List.append_assoc] at same
      exact absurd same (apart h h')
  | literal h decorated =>
    cases right with
    | iri h' =>
      rw [List.append_assoc] at same
      exact absurd same.symm (apart h' h)
    | literal h' decorated' =>
      rw [List.append_assoc, List.append_assoc] at same
      obtain ⟨rfl, rfl, same⟩ := unique_quoted h h' same
      obtain ⟨rfl, rfl, rests⟩ := uniqueBefore_decorates decorated decorated' same
      exact ⟨rfl, rfl, rests⟩

/-! ## Statements -/

/-- A token with what it means. -/
structure Token where
  text : String
  term : RdfTerm
deriving DecidableEq, Repr

structure Statement where
  subject : Token
  predicate : Token
  object : Token
  graph : Option Token
deriving DecidableEq, Repr

namespace Statement

/-- The tokens, each followed by a blank, and a full stop. -/
def text (x : Statement) : String :=
  x.subject.text ++ " " ++ (x.predicate.text ++ " " ++ (x.object.text ++ " " ++
    (match x.graph with
      | some g => g.text ++ " "
      | none => "") ++ "."))

structure Reads (x : Statement) (line : String) : Prop where
  subject : IriToken x.subject.text.toList x.subject.term
  predicate : IriToken x.predicate.text.toList x.predicate.term
  object : ObjectToken x.object.text.toList x.object.term
  graph : ∀ g, x.graph = some g → IriToken g.text.toList g.term
  line : line = x.text

/-- The text of a graph token, with the blank that follows it. -/
def graphText : Option Token → List Char
  | some g => g.text.toList ++ [' ']
  | none => []

theorem toList_text (x : Statement) : x.text.toList =
    x.subject.text.toList ++ ' ' :: (x.predicate.text.toList ++ ' ' :: (x.object.text.toList ++
      ' ' :: (graphText x.graph ++ ['.']))) := by
  obtain ⟨s, p, o, graph⟩ := x
  cases graph <;> simp [text, graphText, String.toList_append]

theorem token_eq {t t' : Token} (texts : t.text.toList = t'.text.toList) (terms : t.term = t'.term) :
    t = t' := by
  obtain ⟨text, term⟩ := t
  obtain ⟨text', term'⟩ := t'
  rw [Token.mk.injEq]
  exact ⟨String.toList_inj.mp texts, terms⟩

/-- The graph is there or not, and is read in one way. -/
theorem graph_unique {g g' : Option Token} (left : ∀ t, g = some t → IriToken t.text.toList t.term)
    (right : ∀ t, g' = some t → IriToken t.text.toList t.term)
    (same : graphText g ++ ['.'] = graphText g' ++ ['.']) : g = g' := by
  -- the full stop cannot be taken for the start of a graph
  have apart : ∀ {t : Token}, IriToken t.text.toList t.term → graphText (some t) ++ ['.'] ≠ ['.'] := by
    intro t h
    obtain ⟨text, term⟩ := t
    generalize hw : text.toList = word at h
    obtain ⟨inner, rfl, -⟩ := h
    simp [graphText, hw]
  cases g with
  | none =>
    cases g' with
    | none => rfl
    | some t => exact absurd same.symm (apart (right t rfl))
  | some t =>
    cases g' with
    | none => exact absurd same (apart (left t rfl))
    | some t' =>
      simp only [graphText, List.append_assoc, List.cons_append, List.nil_append] at same
      obtain ⟨texts, terms, -⟩ := uniqueBefore_iriToken (left t rfl) (right t' rfl) same
      rw [token_eq texts terms]

/-- **One reading.** The grammar reads a line in one way at most. -/
theorem reads_unique {x y : Statement} {line : String} (hx : x.Reads line) (hy : y.Reads line) :
    x = y := by
  have same : x.text.toList = y.text.toList := by rw [← hx.line, ← hy.line]
  rw [toList_text, toList_text] at same
  obtain ⟨stexts, sterms, same⟩ := uniqueBefore_iriToken hx.subject hy.subject same
  obtain ⟨ptexts, pterms, same⟩ := uniqueBefore_iriToken hx.predicate hy.predicate same
  obtain ⟨otexts, oterms, same⟩ := uniqueBefore_objectToken hx.object hy.object same
  have graphs := graph_unique hx.graph hy.graph same
  obtain ⟨s, p, o, g⟩ := x
  obtain ⟨s', p', o', g'⟩ := y
  rw [Statement.mk.injEq]
  exact ⟨token_eq stexts sterms, token_eq ptexts pterms, token_eq otexts oterms, graphs⟩

end Statement

/-! ## Line breaks -/

section Breaks

variable {d : Char} (h : d = '\n' ∨ d = '\r')

include h

theorem break_ne {e : Char} (other : e ≠ '\n' ∧ e ≠ '\r') : d ≠ e := by
  rcases h with rfl | rfl
  · exact other.1.symm
  · exact other.2.symm

theorem not_mem_numberedChar {text : List Char} {c : Char} (number : NumberedChar text c) :
    d ∉ text := by
  obtain ⟨mark, digits, rfl, size, n, hn, -⟩ := number
  have digit : ∀ e ∈ digits, e ≠ d := by
    intro e he same
    have value : (digits.mapM Hex.digitValue?).isSome := by
      rw [number?, Option.map_eq_some_iff] at hn
      obtain ⟨values, hv, -⟩ := hn
      rw [hv]
      rfl
    have := isSome_mapM_iff.mp value e he
    subst same
    rcases h with rfl | rfl <;> exact absurd this (by decide)
  have marked : mark ≠ d := by
    rcases size with ⟨rfl, -⟩ | ⟨rfl, -⟩
    · exact (break_ne h (by decide)).symm
    · exact (break_ne h (by decide)).symm
  rw [List.mem_cons, List.mem_cons, not_or, not_or]
  exact ⟨break_ne h (by decide), marked.symm, fun hd => digit d hd rfl⟩

theorem not_mem_iriUnit {text : List Char} {c : Char} (unit : IriUnit text c) : d ∉ text := by
  rcases unit with ⟨rfl, plain⟩ | number
  · rw [List.mem_singleton]
    intro same
    subst same
    have := plain.1
    rcases h with rfl | rfl <;> exact absurd this (by decide)
  · exact not_mem_numberedChar h number

theorem not_mem_stringUnit {text : List Char} {c : Char} (unit : StringUnit text c) : d ∉ text := by
  rcases unit with ⟨rfl, plain⟩ | ⟨letter, rfl, escape⟩ | number
  · rw [List.mem_singleton]
    intro same
    subst same
    rcases h with rfl | rfl <;> exact absurd plain (by simp [isStringChar])
  · rw [List.mem_pair]
    intro h
    rcases h with rfl | rfl
    · rcases h with h | h <;> exact absurd h (by decide)
    · rcases h with rfl | rfl <;> cases escape
  · exact not_mem_numberedChar h number

omit h in
theorem not_mem_units {U : List Char → Char → Prop} (none : ∀ {unit : List Char} {c : Char},
    U unit c → d ∉ unit) {text chars : List Char} (units : Units U text chars) : d ∉ text := by
  induction units with
  | nil => exact List.not_mem_nil
  | cons head tail ih => exact fun hd => (List.mem_append.mp hd).elim (none head) ih

omit h in
theorem not_mem_enclosed {first last : Char} {U : List Char → Char → Prop}
    (none : ∀ {unit : List Char} {c : Char}, U unit c → d ∉ unit) (notFirst : d ≠ first)
    (notLast : d ≠ last) {text : List Char} {value : String} (token : Enclosed first last U text value) :
    d ∉ text := by
  obtain ⟨inner, rfl, units⟩ := token
  have := not_mem_units none units
  simp [notFirst, notLast, this]

theorem not_mem_iriRef {text : List Char} {value : String} (token : IriRef text value) : d ∉ text := by
  apply not_mem_enclosed (not_mem_iriUnit h) _ _ token
  · exact break_ne h (by decide)
  · exact break_ne h (by decide)

theorem not_mem_decorates {text : List Char} {x : Decoration} (decorates : Decorates text x) :
    d ∉ text := by
  cases decorates with
  | none => exact List.not_mem_nil
  | language tag =>
    have clean := not_mem_tag tag (by rcases h with rfl | rfl <;> decide) (break_ne h (by decide))
    rw [List.mem_cons, not_or]
    exact ⟨break_ne h (by decide), clean⟩
  | datatype iri =>
    have clean := not_mem_iriRef h iri
    have mark : d ≠ '^' := break_ne h (by decide)
    simp [clean, mark]

theorem not_mem_objectToken {text : List Char} {x : RdfTerm} (token : ObjectToken text x) :
    d ∉ text := by
  cases token with
  | iri iri => exact not_mem_iriRef h iri
  | literal quoted decorated =>
    have quote : d ≠ '"' := break_ne h (by decide)
    have lexical := not_mem_enclosed (not_mem_stringUnit h) quote quote quoted
    exact fun hd => (List.mem_append.mp hd).elim lexical (not_mem_decorates h decorated)

theorem not_mem_of_reads {x : Statement} {line : String} (reads : x.Reads line) :
    d ∉ line.toList := by
  have iri : ∀ {t : Token}, IriToken t.text.toList t.term → d ∉ t.text.toList := by
    intro t token
    obtain ⟨text, term⟩ := t
    generalize text.toList = word at token
    obtain ⟨token⟩ := token
    exact not_mem_iriRef h token
  have graph : d ∉ Statement.graphText x.graph := by
    cases hg : x.graph with
    | none => exact List.not_mem_nil
    | some g =>
      have := iri (reads.graph g hg)
      have blank : d ≠ ' ' := break_ne h (by decide)
      simp [Statement.graphText, this, blank]
  have blank : d ≠ ' ' := break_ne h (by decide)
  have stop : d ≠ '.' := break_ne h (by decide)
  rw [reads.line, Statement.toList_text]
  simp [iri reads.subject, iri reads.predicate, not_mem_objectToken h reads.object, graph, blank, stop]

end Breaks

end RdfMapping.NQuads
