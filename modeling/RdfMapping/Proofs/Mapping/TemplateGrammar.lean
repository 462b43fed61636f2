import Mathlib.Data.List.Chain
import Mathlib.Data.String.Basic
import RdfMapping.Mapping.Error
import RdfMapping.Proofs.Outcome

/-!
The grammar of templates.

A pattern is read token by token from the left (`Token`, `Reads`): an escaped brace or backslash, a
placeholder with a name, or any other character but a brace. Reading goes on to the end or stops at a
brace that belongs to no token (`Stray`), and the scanner does exactly this (`pieces_eq_ok_iff`,
`pieces_eq_error_iff`). The segments of a template are canonical and stand for the tokens of its
pattern; canonical segments are what printing and reading again gives back (`parse_grammar`).
-/

namespace RdfMapping.Template

open String (utf8Len)

def IsName (name : List Char) : Prop := name ≠ [] ∧ ∀ c ∈ name, isSpecial c = false

/-- A token of a pattern, what it stands for, and the characters after it. Only a backslash that stands
for itself depends on what comes after it. -/
inductive Token : List Char → Piece → List Char → Prop
  | escape {c rest} (special : isSpecial c = true) : Token ['\\', c] (.char c) rest
  | placeholder {name rest} (named : IsName name) :
      Token ('\x7b' :: (name ++ ['\x7d'])) (.column name) rest
  | plain {c rest} (noOpening : c ≠ '\x7b') (noClosing : c ≠ '\x7d')
      (escapesNothing : c = '\\' → ∀ d, rest.head? = some d → isSpecial d = false) :
      Token [c] (.char c) rest

/-- The first of the characters are read as tokens, up to the rest. -/
inductive Reads : List Char → List Piece → List Char → Prop
  | nil {rest} : Reads [] [] rest
  | cons {token p front ps rest} (first : Token token p (front ++ rest)) (next : Reads front ps rest) :
      Reads (token ++ front) (p :: ps) rest

/-- A brace that is neither escaped nor part of a placeholder, in front of the characters after it, and
the fault of a pattern that has it at a byte offset. -/
inductive Stray (offset : Nat) : List Char → TemplateFault → Prop
  | closing {rest} : Stray offset ('\x7d' :: rest) (.unmatchedBrace '\x7d' offset)
  | empty {rest} : Stray offset ('\x7b' :: '\x7d' :: rest) (.emptyPlaceholder offset)
  | opening {rest} (notEmpty : rest.head? ≠ some '\x7d')
      (noPlaceholder : ∀ name tail, IsName name → rest ≠ name ++ '\x7d' :: tail) :
      Stray offset ('\x7b' :: rest) (.unmatchedBrace '\x7b' offset)

/-! ## The scanner takes a token at a time -/

theorem isSpecial_iff {c : Char} : isSpecial c = true ↔ c = '\x7b' ∨ c = '\x7d' ∨ c = '\\' := by
  simp [isSpecial, or_assoc]

theorem utf8Size_special {c : Char} (h : isSpecial c = true) : c.utf8Size = 1 := by
  rcases isSpecial_iff.mp h with rfl | rfl | rfl <;> rfl

theorem pieces_name {name : List Char} (plain : ∀ c ∈ name, isSpecial c = false)
    (start : Nat) (before : List Char) (offset : Nat) (rest : List Char) :
    pieces (.name start before) offset (name ++ '\x7d' :: rest) =
      if before.reverse ++ name = [] then .error (.emptyPlaceholder start)
      else andThen (.column (before.reverse ++ name))
        (pieces .text (offset + utf8Len name + 1) rest) := by
  induction name generalizing before offset with
  | nil => simp [pieces]
  | cons c name ih =>
    obtain ⟨head, tail⟩ := List.forall_mem_cons.mp plain
    have goesOn : c ≠ '\x7d' := by
      rintro rfl
      exact absurd head (by decide)
    have bytes : offset + c.utf8Size + utf8Len name + 1 = offset + utf8Len (c :: name) + 1 := by
      rw [String.utf8Len_cons]
      omega
    rw [List.cons_append, pieces, if_neg goesOn, head]
    simp only [Bool.false_eq_true, if_false]
    rw [ih tail, bytes]
    simp

theorem pieces_token {token : List Char} {p : Piece} {rest : List Char} (h : Token token p rest)
    (offset : Nat) :
    pieces .text offset (token ++ rest) =
      andThen p (pieces .text (offset + utf8Len token) rest) := by
  cases h with
  | @escape c _ special =>
    have bytes : utf8Len ['\\', c] = 2 := by
      show 0 + c.utf8Size + 1 = 2
      rw [utf8Size_special special]
    rw [bytes]
    simp [pieces, special]
  | @placeholder name _ named =>
    have bytes : offset + utf8Len ('\x7b' :: (name ++ ['\x7d'])) = offset + 1 + utf8Len name + 1 := by
      rw [String.utf8Len_cons, String.utf8Len_append]
      show offset + (utf8Len name + (0 + 1) + 1) = _
      omega
    have text : '\x7b' :: (name ++ ['\x7d']) ++ rest = '\x7b' :: (name ++ '\x7d' :: rest) := by simp
    rw [text, bytes, pieces, if_pos rfl, pieces_name named.2]
    · rw [List.reverse_nil, List.nil_append, if_neg named.1]
    · simp
  | @plain c _ noOpening noClosing escapesNothing =>
    have bytes : offset + utf8Len [c] = offset + c.utf8Size := by simp
    rw [bytes, List.singleton_append]
    -- a backslash stands for itself where no special character follows, which takes a look ahead
    by_cases backslash : c = '\\'
    · subst backslash
      cases rest with
      | nil => simp [pieces]
      | cons d rest =>
        rw [pieces, escapesNothing rfl d rfl]
        rfl
    · cases rest with
      | nil => simp [pieces, noOpening, noClosing]
      | cons d rest => simp [pieces, noOpening, noClosing, backslash]

theorem pieces_opening {start : Nat} {before rest : List Char} (offset : Nat)
    (notClosed : ∀ name tail, (∀ c ∈ name, isSpecial c = false) → rest ≠ name ++ '\x7d' :: tail) :
    pieces (.name start before) offset rest = .error (.unmatchedBrace '\x7b' start) := by
  induction rest generalizing before offset with
  | nil => rw [pieces]
  | cons c rest ih =>
    have goesOn : c ≠ '\x7d' := by
      rintro rfl
      exact notClosed [] rest (by simp) rfl
    rw [pieces, if_neg goesOn]
    by_cases special : isSpecial c = true
    · rw [if_pos special]
    · rw [if_neg special]
      apply ih
      intro name tail plain closed
      refine notClosed (c :: name) tail ?_ (by rw [closed, List.cons_append])
      exact List.forall_mem_cons.mpr ⟨by simpa using special, plain⟩

theorem pieces_stray {offset : Nat} {rest : List Char} {fault : TemplateFault}
    (h : Stray offset rest fault) : pieces .text offset rest = .error fault := by
  cases h with
  | closing => cases ‹List Char› <;> simp [pieces]
  | empty => simp [pieces]
  | @opening rest notEmpty noPlaceholder =>
    have first : pieces .text offset ('\x7b' :: rest) = pieces (.name offset []) (offset + 1) rest := by
      cases rest <;> simp [pieces]
    rw [first]
    apply pieces_opening
    intro name tail plain closed
    by_cases none : name = []
    · subst none
      exact notEmpty (by rw [closed]; rfl)
    · exact noPlaceholder name tail ⟨none, plain⟩ closed

/-! ## Every pattern is read to its end or to a stray brace -/

theorem token_or_stray (c : Char) (cs : List Char) (offset : Nat) :
    (∃ token p rest, c :: cs = token ++ rest ∧ token ≠ [] ∧ Token token p rest) ∨
      ∃ fault, Stray offset (c :: cs) fault := by
  by_cases closing : c = '\x7d'
  · subst closing
    exact .inr ⟨_, .closing⟩
  by_cases opening : c = '\x7b'
  · subst opening
    -- an opening brace: a placeholder, an empty one, or one that is never closed
    by_cases named : ∃ name tail, IsName name ∧ cs = name ++ '\x7d' :: tail
    · obtain ⟨name, tail, hname, rfl⟩ := named
      exact .inl ⟨'\x7b' :: (name ++ ['\x7d']), _, tail, by simp, by simp, .placeholder hname⟩
    · by_cases empty : cs.head? = some '\x7d'
      · obtain ⟨tail, rfl⟩ := List.head?_eq_some_iff.mp empty
        exact .inr ⟨_, .empty⟩
      · exact .inr ⟨_, .opening empty fun name tail hname hcs => named ⟨name, tail, hname, hcs⟩⟩
  by_cases escapes : c = '\\' ∧ ∃ d, cs.head? = some d ∧ isSpecial d = true
  · obtain ⟨rfl, d, hd, special⟩ := escapes
    obtain ⟨tail, rfl⟩ := List.head?_eq_some_iff.mp hd
    exact .inl ⟨['\\', d], _, tail, rfl, by simp, .escape special⟩
  · refine .inl ⟨[c], _, cs, rfl, by simp, .plain opening closing fun backslash d hd => ?_⟩
    by_contra special
    exact escapes ⟨backslash, d, hd, by simpa using special⟩

theorem pieces_of_reads {front : List Char} {ps : List Piece} {rest : List Char}
    (h : Reads front ps rest) (offset : Nat) :
    pieces .text offset (front ++ rest) =
      (pieces .text (offset + utf8Len front) rest).map (ps ++ ·) := by
  induction h generalizing offset with
  | nil =>
    rw [List.nil_append, String.utf8Len_nil, Nat.add_zero]
    cases pieces .text offset _ <;> rfl
  | @cons token p front ps rest first _ ih =>
    rw [List.append_assoc, pieces_token first, ih, String.utf8Len_append, ← Nat.add_assoc]
    cases pieces .text (offset + utf8Len token + utf8Len front) rest <;> rfl

/-- Reading stops at the end or at a stray brace. -/
theorem reads_or_stops (cs : List Char) (offset : Nat) :
    (∃ ps, Reads cs ps []) ∨ ∃ front ps rest fault, cs = front ++ rest ∧ Reads front ps rest ∧
      Stray (offset + utf8Len front) rest fault := by
  -- on the number of characters: each token takes one at least
  induction h : cs.length using Nat.strong_induction_on generalizing cs offset with
  | _ n ih =>
    cases cs with
    | nil => exact .inl ⟨[], .nil⟩
    | cons c cs =>
      rcases token_or_stray c cs offset with ⟨token, p, rest, text, some_, first⟩ | ⟨fault, stray⟩
      · have shorter : rest.length < n := by
          have := List.length_pos_iff.mpr some_
          rw [← h, text, List.length_append]
          omega
        rw [text]
        rcases ih rest.length shorter rest (offset + utf8Len token) rfl with ⟨ps, next⟩ | stops
        · left
          refine ⟨p :: ps, ?_⟩
          exact .cons (by rwa [List.append_nil]) next
        · right
          obtain ⟨front, ps, tail, fault, rfl, next, stray⟩ := stops
          refine ⟨token ++ front, p :: ps, tail, fault, by simp, .cons first next, ?_⟩
          rwa [String.utf8Len_append, ← Nat.add_assoc]
      · exact .inr ⟨[], [], c :: cs, fault, rfl, .nil, stray⟩

theorem pieces_eq_ok_iff {offset : Nat} {cs : List Char} {ps : List Piece} :
    pieces .text offset cs = .ok ps ↔ Reads cs ps [] := by
  have complete : ∀ {qs}, Reads cs qs [] → pieces .text offset cs = .ok qs := by
    intro qs h
    have := pieces_of_reads h offset
    rw [List.append_nil] at this
    rw [this]
    simp [pieces, Except.map]
  refine ⟨fun h => ?_, complete⟩
  rcases reads_or_stops cs offset with ⟨qs, read⟩ | ⟨front, qs, rest, fault, rfl, read, stray⟩
  · have := complete read
    rw [h] at this
    cases this
    exact read
  · rw [pieces_of_reads read, pieces_stray stray] at h
    cases h

theorem pieces_eq_error_iff {offset : Nat} {cs : List Char} {fault : TemplateFault} :
    pieces .text offset cs = .error fault ↔ ∃ front ps rest, cs = front ++ rest ∧
      Reads front ps rest ∧ Stray (offset + utf8Len front) rest fault := by
  have complete : ∀ {front ps rest fault}, cs = front ++ rest → Reads front ps rest →
      Stray (offset + utf8Len front) rest fault → pieces .text offset cs = .error fault := by
    intro front ps rest fault text read stray
    rw [text, pieces_of_reads read, pieces_stray stray]
    rfl
  refine ⟨fun h => ?_, fun ⟨_, _, _, text, read, stray⟩ => complete text read stray⟩
  rcases reads_or_stops cs offset with ⟨ps, read⟩ | ⟨front, ps, rest, other, text, read, stray⟩
  · rw [pieces_eq_ok_iff.mpr read] at h
    cases h
  · rw [complete text read stray] at h
    cases h
    exact ⟨front, ps, rest, text, read, stray⟩

/-! ## Canonical segments -/

def segmentPieces : Segment → List Piece
  | .text s => s.toList.map .char
  | .column name => [.column name.toList]

/-- Two segments that may stand side by side: texts would be one text. -/
def Apart : Segment → Segment → Prop
  | .text _, .text _ => False
  | _, _ => True

/-- Segments without an empty text and without two texts side by side, and with names that placeholders
may hold. -/
structure Canonical (segments : List Segment) : Prop where
  texts : ∀ s, .text s ∈ segments → s ≠ ""
  names : ∀ name, .column name ∈ segments → IsName name.toList
  apart : segments.IsChain Apart

theorem Canonical.nil : Canonical [] := ⟨by simp, by simp, .nil⟩

theorem Canonical.cons_column {name : String} {segments : List Segment} (named : IsName name.toList)
    (h : Canonical segments) : Canonical (.column name :: segments) where
  texts s hs := h.texts s (by simpa using hs)
  names other ho := by
    rcases List.mem_cons.mp ho with same | ho
    · cases same
      exact named
    · exact h.names other ho
  apart := List.isChain_cons.mpr ⟨fun _ _ => trivial, h.apart⟩

theorem Canonical.of_cons {s : Segment} {segments : List Segment} (h : Canonical (s :: segments)) :
    Canonical segments where
  texts t ht := h.texts t (List.mem_cons_of_mem _ ht)
  names name hn := h.names name (List.mem_cons_of_mem _ hn)
  apart := (List.isChain_cons.mp h.apart).2

theorem Canonical.flush {pending : List Char} {segments : List Segment} (h : Canonical segments)
    (noText : ∀ s, segments.head? ≠ some (.text s)) : Canonical (flush pending segments) := by
  rw [Template.flush]
  split
  · exact h
  · rename_i some_
    refine ⟨?_, ?_, List.isChain_cons.mpr ⟨?_, h.apart⟩⟩
    · intro s hs
      rcases List.mem_cons.mp hs with same | hs
      · cases same
        simpa using some_
      · exact h.texts s hs
    · intro name hn
      exact h.names name (by simpa using hn)
    · intro s hs
      cases s with
      | text s => exact noText s hs
      | column name => trivial

theorem segmentPieces_flush (pending : List Char) (segments : List Segment) :
    (flush pending segments).flatMap segmentPieces =
      pending.reverse.map .char ++ segments.flatMap segmentPieces := by
  rw [flush]
  split
  · rename_i none
    simp [none]
  · simp [segmentPieces]

theorem segmentPieces_joinPieces (pending : List Char) (ps : List Piece) :
    (joinPieces pending ps).flatMap segmentPieces = pending.reverse.map .char ++ ps := by
  induction ps generalizing pending with
  | nil => rw [joinPieces, segmentPieces_flush, List.flatMap_nil]
  | cons p ps ih =>
    cases p with
    | char c =>
      rw [joinPieces, ih]
      simp
    | column name =>
      rw [joinPieces, segmentPieces_flush, List.flatMap_cons, ih]
      simp [segmentPieces]

theorem canonical_joinPieces (pending : List Char) {ps : List Piece}
    (named : ∀ name, .column name ∈ ps → IsName name) : Canonical (joinPieces pending ps) := by
  induction ps generalizing pending with
  | nil => exact Canonical.nil.flush (by simp)
  | cons p ps ih =>
    have rest := fun pending => ih pending fun name hn => named name (List.mem_cons_of_mem _ hn)
    cases p with
    | char c => exact rest (c :: pending)
    | column name =>
      have first : IsName (String.ofList name).toList := by
        rw [String.toList_ofList]
        exact named name List.mem_cons_self
      exact (Canonical.cons_column first (rest [])).flush (by simp)

theorem joinPieces_chars (cs pending : List Char) (ps : List Piece) :
    joinPieces pending (cs.map .char ++ ps) = joinPieces (cs.reverse ++ pending) ps := by
  induction cs generalizing pending with
  | nil => rfl
  | cons c cs ih =>
    rw [List.map_cons, List.cons_append, joinPieces, ih]
    simp

/-- Canonical segments are joined again from their pieces. -/
theorem joinPieces_segmentPieces {segments : List Segment} (h : Canonical segments) :
    joinPieces [] (segments.flatMap segmentPieces) = segments := by
  induction segments with
  | nil => rfl
  | cons s rest ih =>
    have joined := ih h.of_cons
    rw [List.flatMap_cons]
    cases s with
    | column name =>
      rw [segmentPieces, List.singleton_append, joinPieces, joined, String.ofList_toList]
      rfl
    | text s =>
      have full : s.toList.reverse ≠ [] := by simpa using h.texts s List.mem_cons_self
      have text : ∀ segments, flush s.toList.reverse segments = .text s :: segments := by
        intro segments
        rw [flush, if_neg full, List.reverse_reverse, String.ofList_toList]
      rw [segmentPieces, joinPieces_chars, List.append_nil]
      -- the text ends where the next segment starts, because that is no text
      cases rest with
      | nil => exact text []
      | cons t rest =>
        cases t with
        | text t => exact ((List.isChain_cons_cons.mp h.apart).1).elim
        | column name =>
          rw [List.flatMap_cons, segmentPieces, List.singleton_append, joinPieces] at joined ⊢
          rw [text]
          exact congrArg (.text s :: ·) joined

/-! ## Printed segments -/

theorem Reads.append {front mid rest : List Char} {ps qs : List Piece}
    (first : Reads front ps (mid ++ rest)) (next : Reads mid qs rest) :
    Reads (front ++ mid) (ps ++ qs) rest := by
  generalize hr : mid ++ rest = tail at first
  induction first with
  | nil => exact next
  | @cons token p front ps tail head _ ih =>
    subst hr
    rw [List.append_assoc, List.cons_append]
    exact .cons (by rwa [List.append_assoc]) (ih rfl)

theorem token_printChar (c : Char) (rest : List Char) : Token (printChar c) (.char c) rest := by
  rw [printChar]
  split
  · rename_i special
    exact .escape special
  · rename_i plain
    have other := mt isSpecial_iff.mpr plain
    refine .plain (fun h => other (.inl h)) (fun h => other (.inr (.inl h))) ?_
    exact fun h => absurd (.inr (.inr h)) other

theorem reads_text (cs rest : List Char) : Reads (cs.flatMap printChar) (cs.map .char) rest := by
  induction cs with
  | nil => exact .nil
  | cons c cs ih => exact .cons (token_printChar c _) ih

/-- What is printed is read as the pieces of the segments. -/
theorem reads_print {segments : List Segment}
    (named : ∀ name, .column name ∈ segments → IsName name.toList) (rest : List Char) :
    Reads (segments.flatMap printSegment) (segments.flatMap segmentPieces) rest := by
  induction segments with
  | nil => exact .nil
  | cons s segments ih =>
    have next := ih fun name hn => named name (List.mem_cons_of_mem _ hn)
    rw [List.flatMap_cons, List.flatMap_cons]
    refine Reads.append ?_ next
    cases s with
    | text s => exact reads_text s.toList _
    | column name =>
      have first : Token (printSegment (.column name)) (.column name.toList)
          ([] ++ (segments.flatMap printSegment ++ rest)) :=
        .placeholder (named name List.mem_cons_self)
      have one := Reads.cons first .nil
      rwa [List.append_nil] at one

theorem isName_of_reads {front : List Char} {ps : List Piece} {rest : List Char}
    (h : Reads front ps rest) : ∀ name, .column name ∈ ps → IsName name := by
  induction h with
  | nil => simp
  | cons first _ ih =>
    intro name hn
    rcases List.mem_cons.mp hn with rfl | hn
    · cases first with
      | placeholder named => exact named
    · exact ih name hn

/-! ## Templates -/

/-- A template is the pattern with the canonical segments whose pieces the pattern is read as. -/
theorem parse_eq_ok_iff {pattern : String} {t : Template} :
    parse pattern = .ok t ↔ t.pattern = pattern ∧ Canonical t.segments ∧
      Reads pattern.toList (t.segments.flatMap segmentPieces) [] := by
  obtain ⟨source, segments⟩ := t
  rw [parse, map_eq_ok_iff]
  refine ⟨?_, ?_⟩
  · rintro ⟨ps, read, ⟨⟩⟩
    have read := pieces_eq_ok_iff.mp read
    refine ⟨rfl, canonical_joinPieces [] (isName_of_reads read), ?_⟩
    rw [segmentPieces_joinPieces]
    exact read
  · rintro ⟨rfl, canonical, read⟩
    refine ⟨_, pieces_eq_ok_iff.mpr read, ?_⟩
    rw [joinPieces_segmentPieces canonical]

theorem parse_eq_error_iff {pattern : String} {fault : TemplateFault} :
    parse pattern = .error fault ↔ ∃ front ps rest, pattern.toList = front ++ rest ∧
      Reads front ps rest ∧ Stray (utf8Len front) rest fault := by
  have same : parse pattern = .error fault ↔ pieces .text 0 pattern.toList = .error fault := by
    rw [parse]
    cases pieces .text 0 pattern.toList <;> simp [Except.map]
  rw [same, pieces_eq_error_iff]
  simp only [Nat.zero_add]

theorem parse_print {segments : List Segment} (h : Canonical segments) :
    parse (print segments) = .ok ⟨print segments, segments⟩ := by
  refine parse_eq_ok_iff.mpr ⟨rfl, h, ?_⟩
  rw [print, String.toList_ofList]
  exact reads_print h.names []

/-- The words for a stray brace of a pattern: that a placeholder is empty, or which brace is unmatched,
and at which byte. -/
def strayWords (pattern : String) (offset : Nat) (brace : Char) (after : List Char) : String :=
  if brace = '\x7b' ∧ after.head? = some '\x7d' then
    "empty placeholder at byte " ++ toString offset ++ " in template '" ++ pattern ++ "'"
  else
    "unmatched '" ++ String.singleton brace ++ "' at byte " ++ toString offset ++ " in template '" ++
      pattern ++ "'"

theorem message_of_stray {offset : Nat} {rest : List Char} {fault : TemplateFault}
    (h : Stray offset rest fault) (pattern : String) : ∃ brace after, rest = brace :: after ∧
      (brace = '\x7b' ∨ brace = '\x7d') ∧
      fault.message pattern = strayWords pattern offset brace after := by
  cases h with
  | @closing after =>
    refine ⟨_, after, rfl, .inr rfl, ?_⟩
    rw [strayWords, if_neg fun h => absurd h.1 (by decide)]
    rfl
  | @empty after =>
    refine ⟨_, _, rfl, .inl rfl, ?_⟩
    rw [strayWords, if_pos ⟨rfl, rfl⟩]
    rfl
  | @opening after notEmpty _ =>
    refine ⟨_, after, rfl, .inl rfl, ?_⟩
    rw [strayWords, if_neg fun h => notEmpty h.2]
    rfl

def configurationError (pattern : String) (fault : TemplateFault) : MappingError :=
  .configuration (.termMap (.template pattern fault))

theorem message_configurationError (pattern : String) (fault : TemplateFault) :
    (configurationError pattern fault).message = "Configuration error: " ++ fault.message pattern :=
  rfl

theorem parse_ok_iff {pattern : String} :
    (∃ t, parse pattern = .ok t) ↔ ∀ front ps rest, pattern.toList = front ++ rest →
      Reads front ps rest → ∀ fault, ¬Stray (utf8Len front) rest fault := by
  refine ⟨?_, fun never => ?_⟩
  · rintro ⟨t, h⟩ front ps rest text read fault stray
    rw [parse_eq_error_iff.mpr ⟨front, ps, rest, text, read, stray⟩] at h
    cases h
  · cases h : parse pattern with
    | ok t => exact ⟨t, rfl⟩
    | error fault =>
      obtain ⟨front, ps, rest, text, read, stray⟩ := parse_eq_error_iff.mp h
      exact (never front ps rest text read fault stray).elim

/-- **The grammar of templates.** Canonical segments are printed and read back. A pattern is a template
exactly if reading it never comes to a stray brace; its segments are then canonical, stand for what is
read, and survive printing. Otherwise the fault is that of the first stray brace, at the byte at which it
stands. -/
theorem parse_grammar :
    (∀ segments, Canonical segments →
      parse (print segments) = .ok ⟨print segments, segments⟩) ∧
    (∀ pattern t, parse pattern = .ok t → t.pattern = pattern ∧ Canonical t.segments ∧
      Reads pattern.toList (t.segments.flatMap segmentPieces) [] ∧
      parse (print t.segments) = .ok ⟨print t.segments, t.segments⟩) ∧
    (∀ pattern, (∃ t, parse pattern = .ok t) ↔ ∀ front ps rest, pattern.toList = front ++ rest →
      Reads front ps rest → ∀ fault, ¬Stray (utf8Len front) rest fault) ∧
    ∀ pattern fault, parse pattern = .error fault → ∃ front ps brace after,
      pattern.toList = front ++ brace :: after ∧ Reads front ps (brace :: after) ∧
      Stray (utf8Len front) (brace :: after) fault ∧ (brace = '\x7b' ∨ brace = '\x7d') ∧
      (configurationError pattern fault).message =
        "Configuration error: " ++ strayWords pattern (utf8Len front) brace after := by
  refine ⟨fun _ => parse_print, fun pattern t h => ?_, fun _ => parse_ok_iff, fun pattern fault h => ?_⟩
  · obtain ⟨source, canonical, read⟩ := parse_eq_ok_iff.mp h
    exact ⟨source, canonical, read, parse_print canonical⟩
  · obtain ⟨front, ps, rest, text, read, stray⟩ := parse_eq_error_iff.mp h
    obtain ⟨brace, after, rfl, isBrace, words⟩ := message_of_stray stray pattern
    refine ⟨front, ps, brace, after, text, read, stray, isBrace, ?_⟩
    rw [message_configurationError, words]

theorem parse_grammar_of_escapes :
    parse (print [.text "a\x7b\\", .column "id"]) =
      .ok ⟨print [.text "a\x7b\\", .column "id"], [.text "a\x7b\\", .column "id"]⟩ := by
  apply parse_grammar.1
  refine ⟨?_, ?_, ?_⟩
  · simp
  · simp [IsName, isSpecial]
  · simp [Apart]

end RdfMapping.Template
