import RdfMapping.Proofs.Mapping.Acceptance
import RdfMapping.Proofs.Statement.Grammar
import RdfMapping.Proofs.Statement.RowMeaning

/-!
Statements are read back as what they were made of.

Whatever texts the cells hold, the line of a row is read by the grammar as the tokens that were rendered
for it, and in no other way (`render_readsBack`). An IRI has the texts of its term map and the cells,
percent-encoded; a literal has its lexical form, in which what would end it or its line is escaped. All
that is asked of a rule is that the texts it brings itself may stand where it puts them (`TermMap.Safe`).
-/

namespace RdfMapping

open NQuads

/-! ## Texts in tokens -/

/-- A text that may stand in an IRI. -/
def IriSafe (s : String) : Prop := ∀ c ∈ s.toList, isIriChar c

instance (s : String) : Decidable (IriSafe s) := List.decidableBAll isIriChar s.toList

theorem units_of_iriSafe {l : List Char} (h : ∀ c ∈ l, isIriChar c) : Units IriUnit l l := by
  induction l with
  | nil => exact .nil
  | cons c rest ih =>
    obtain ⟨head, tail⟩ := List.forall_mem_cons.mp h
    have unit : IriUnit [c] c := .inl ⟨rfl, head⟩
    exact .cons unit (ih tail)

theorem stringUnit_escapeChar (c : Char) : StringUnit (Literal.escapeChar c) c := by
  by_cases backslash : c = '\\'
  · subst backslash
    exact .inr (.inl ⟨'\\', rfl, rfl⟩)
  by_cases quote : c = '"'
  · subst quote
    exact .inr (.inl ⟨'"', rfl, rfl⟩)
  by_cases feed : c = '\n'
  · subst feed
    exact .inr (.inl ⟨'n', rfl, rfl⟩)
  by_cases ret : c = '\r'
  · subst ret
    exact .inr (.inl ⟨'r', rfl, rfl⟩)
  · refine .inl ⟨?_, ?_⟩
    · simp [Literal.escapeChar, backslash, quote, feed, ret]
    · simp [isStringChar, backslash, quote, feed, ret]

theorem units_escape (l : List Char) : Units StringUnit (l.flatMap Literal.escapeChar) l := by
  induction l with
  | nil => exact .nil
  | cons c rest ih =>
    rw [List.flatMap_cons]
    exact .cons (stringUnit_escapeChar c) ih

/-! ## Percent-encoded cells -/

theorem isIriChar_of_kept : ∀ n < 256, Percent.isUnreservedOrPath (UInt8.ofNat n) →
    isIriChar (Char.ofNat n) := by
  decide +kernel

theorem isIriChar_upperDigit : ∀ n < 16, isIriChar (Hex.upperDigit n) := by
  decide

/-- An encoded text may stand in an IRI, whatever it encodes. -/
theorem iriSafe_encode {keep : UInt8 → Bool}
    (h : ∀ b, keep b = true → Percent.isUnreservedOrPath b = true) (s : String) :
    IriSafe (Percent.encode keep s) := by
  intro c hc
  rw [Percent.encode, String.toList_ofList] at hc
  obtain ⟨b, -, hc⟩ := List.mem_flatMap.mp hc
  have bound : b.toNat < 256 := b.toNat_lt
  rw [Percent.encodeByte] at hc
  split at hc
  · rename_i kept
    rw [List.mem_singleton] at hc
    subst hc
    exact isIriChar_of_kept b.toNat bound (by simpa using h b kept)
  · rw [Hex.upper, List.mem_cons, List.mem_pair] at hc
    rcases hc with rfl | rfl | rfl
    · decide
    · exact isIriChar_upperDigit _ (by omega)
    · exact isIriChar_upperDigit _ (by omega)

/-! ## Terms -/

def decoration : Option String → Option String → Decoration
  | some tag, _ => .language tag
  | none, some datatype => .datatype datatype
  | none, none => .none

def TermKind.meaning : TermKind → String → RdfTerm
  | iri, value => .iri value
  | literal language datatype, value => .literal value (decoration language datatype)

namespace TermMap

/-- The texts that a term map brings may stand where it puts them. -/
structure Safe (m : TermMap) : Prop where
  texts : m.termType = .iri → ∀ s, .text s ∈ m.value.segments → IriSafe s
  datatype : m.termType = .literal → ∀ iri, m.datatype = some iri → IriSafe iri
  language : m.termType = .literal → ∀ tag, m.language = some tag → LanguageTag tag.toList

/-- What the term of a row says: the value is the texts of the map and of the cells, one after the other,
with the cells percent-encoded in an IRI. -/
def meaning? (m : TermMap) (row : Row) : Option RdfTerm :=
  m.kind.toOption.bind fun kind => (m.value.read (kind.cellEncoding m.value) row).map kind.meaning

end TermMap

theorem iriSafe_read {v : TermValue} {row : Row} {value : String}
    (texts : ∀ s, .text s ∈ v.segments → IriSafe s)
    (h : v.read (TermKind.iri.cellEncoding v) row = some value) : IriSafe value := by
  -- the text of a lone column is encoded as a path, that of a template as one segment of it
  have cells : ∀ s, IriSafe (TermKind.iri.cellEncoding v s) := by
    intro s
    cases v with
    | column name => exact iriSafe_encode (fun b kept => kept) s
    | template t => exact iriSafe_encode (fun b kept => by simp [Percent.isUnreservedOrPath, kept]) s
    | constant text => exact iriSafe_encode (fun b kept => by simp [Percent.isUnreservedOrPath, kept]) s
  rw [TermValue.read, Option.map_eq_some_iff] at h
  obtain ⟨pieces, all, rfl⟩ := h
  intro c hc
  rw [String.toList_join, List.mem_flatMap] at hc
  obtain ⟨piece, hp, hc⟩ := hc
  obtain ⟨segment, hs, made⟩ := (mem_of_mapM all).mp hp
  cases segment with
  | text s =>
    obtain rfl := Option.some.inj made
    exact texts s hs c hc
  | column name =>
    obtain ⟨cell, -, rfl⟩ := Option.map_eq_some_iff.mp made
    exact cells cell c hc

theorem iriRef_of_safe {value : String} (h : IriSafe value) :
    IriRef ("<" ++ value ++ ">").toList value :=
  ⟨value.toList, by simp [String.toList_append], units_of_iriSafe h⟩

theorem quoted_escape (lexical : String) :
    Quoted ("\"" ++ Literal.escape lexical ++ "\"").toList lexical :=
  ⟨lexical.toList.flatMap Literal.escapeChar, by simp [String.toList_append, Literal.escape],
    units_escape lexical.toList⟩

theorem decorates_suffix {language datatype : Option String}
    (tag : ∀ tag, language = some tag → LanguageTag tag.toList)
    (iri : ∀ iri, datatype = some iri → IriSafe iri) :
    Decorates (Literal.suffix language datatype).toList (decoration language datatype) := by
  cases language with
  | some t =>
    simpa [Literal.suffix, decoration, String.toList_append] using Decorates.language (tag t rfl)
  | none =>
    cases datatype with
    | none => exact .none
    | some d =>
      have bracketed := Decorates.datatype (iriRef_of_safe (iri d rfl))
      simpa [Literal.suffix, decoration, String.toList_append] using bracketed

namespace TermMap

variable {m : TermMap} {row : Row} {term : String}

theorem iriToken_of_term? (type : m.termType = .iri) (safe : m.Safe) (h : m.term? row = some term) :
    ∃ t : Token, term = t.text ++ " " ∧ m.meaning? row = some t.term ∧
      IriToken t.text.toList t.term := by
  have kind : m.kind = .ok .iri := by rw [TermMap.kind, type]
  simp only [term?, kind, toOption_ok, Option.bind_some, Option.map_eq_some_iff] at h
  obtain ⟨value, hv, rfl⟩ := h
  refine ⟨⟨"<" ++ value ++ ">", .iri value⟩, ?_, ?_, .iri (iriRef_of_safe ?_)⟩
  · simp [TermKind.wrap, String.append_assoc]
  · simp [meaning?, kind, hv, TermKind.meaning]
  · exact iriSafe_read (safe.texts type) hv

/-- The term of a literal map is a token, whatever its value is. -/
theorem objectToken_of_literal (type : m.termType = .literal) (safe : m.Safe)
    (h : m.term? row = some term) : ∃ t : Token, term = t.text ++ " " ∧
      m.meaning? row = some t.term ∧ ObjectToken t.text.toList t.term := by
  have kind : m.kind = .ok (.literal m.language m.datatype) := by rw [TermMap.kind, type]
  simp only [term?, kind, toOption_ok, Option.bind_some, Option.map_eq_some_iff] at h
  obtain ⟨value, hv, rfl⟩ := h
  refine ⟨⟨Literal.render m.language m.datatype value,
    .literal value (decoration m.language m.datatype)⟩, rfl, ?_, ?_⟩
  · simp [meaning?, kind, hv, TermKind.meaning]
  · rw [Literal.render, String.toList_append]
    exact .literal (quoted_escape value) (decorates_suffix (safe.language type) (safe.datatype type))

theorem objectToken_of_term? (safe : m.Safe) (h : m.term? row = some term) :
    ∃ t : Token, term = t.text ++ " " ∧ m.meaning? row = some t.term ∧
      ObjectToken t.text.toList t.term := by
  cases type : m.termType with
  | literal => exact objectToken_of_literal type safe h
  | iri =>
    obtain ⟨t, rfl, meant, token⟩ := iriToken_of_term? type safe h
    exact ⟨t, rfl, meant, token.object⟩
  | blankNode =>
    have made := (isSome_term?_iff.mp (by rw [h]; rfl)).1
    exact absurd type made

end TermMap

/-! ## Lines -/

/-- A term map gives a token in a row: the row, rendered on its own, is the token and a blank, and the
token means what the row says. -/
def TermMap.Gives (m : TermMap) (b : Batch) (role : Role) (row : Nat) (t : Token) : Prop :=
  m.render (b.slice row 1) role = .ok [t.text ++ " "] ∧ m.meaning? (b.rowAs role row) = some t.term

namespace StatementMap

structure Gives (m : StatementMap) (b : Batch) (roles : TermRoles) (row : Nat) (x : Statement) :
    Prop where
  subject : m.subject.Gives b roles.subject row x.subject
  predicate : m.predicate.Gives b roles.predicate row x.predicate
  object : m.object.Gives b roles.object row x.object
  graph : ∀ g, m.namedGraph = some g → ∃ t, x.graph = some t ∧ g.Gives b roles.graph row t
  noGraph : m.namedGraph = none → x.graph = none

/-- There is a line for each row, and each is read in one way: as the tokens that its row gives. -/
def ReadsBack (m : StatementMap) (b : Batch) (roles : TermRoles) (lines : List String) : Prop :=
  lines.length = b.numRows ∧ ∀ row line, lines[row]? = some line →
    ∃ x : Statement, m.Gives b roles row x ∧ x.Reads line ∧ (∀ y : Statement, y.Reads line → y = x) ∧
      '\n' ∉ line.toList ∧ '\r' ∉ line.toList

/-- The term maps of a statement stand where they may, and bring safe texts. -/
structure Safe (m : StatementMap) : Prop where
  subject : m.subject.termType ≠ .literal
  predicate : m.predicate.termType = .iri
  graph : ∀ g, m.namedGraph = some g → g.termType = .iri
  texts : ∀ x ∈ m.termMaps, x.Safe

variable {m : StatementMap} {b : Batch} {roles : TermRoles}

theorem gives_of_term? {x : TermMap} {role : Role} {row : Nat} (hrow : row < b.numRows) {t : Token}
    (made : x.term? (b.rowAs role row) = some (t.text ++ " "))
    (meant : x.meaning? (b.rowAs role row) = some t.term) : x.Gives b role row t :=
  ⟨(TermMap.render_row_iff hrow).mpr made, meant⟩

theorem graph_of_graphTerm? (safe : m.Safe) {role : Role} {row : Nat} (hrow : row < b.numRows)
    {text : String} (h : m.graphTerm? (b.rowAs role row) = some text) :
    ∃ graph : Option Token, text = graph.elim "" (·.text ++ " ") ∧
      (∀ g, m.namedGraph = some g → ∃ t, graph = some t ∧ g.Gives b role row t) ∧
      (m.namedGraph = none → graph = none) ∧
      ∀ t, graph = some t → IriToken t.text.toList t.term := by
  rw [graphTerm?] at h
  cases named : m.namedGraph with
  | none =>
    rw [named] at h
    exact ⟨none, (Option.some.inj h).symm, by simp, fun _ => rfl, by simp⟩
  | some gm =>
    rw [named] at h
    have texts : gm.Safe := safe.texts gm (by simp [termMaps, ownMaps, named])
    obtain ⟨t, rfl, meant, token⟩ := TermMap.iriToken_of_term? (safe.graph gm named) texts h
    refine ⟨some t, rfl, ?_, by simp, ?_⟩
    · intro g same
      obtain rfl := Option.some.inj same
      exact ⟨t, rfl, gives_of_term? hrow h meant⟩
    · intro t' same
      obtain rfl := Option.some.inj same
      exact token

/-- The line of a row is read as the tokens that the row gives. -/
theorem reads_of_lineAt? (safe : m.Safe) {row : Nat} (hrow : row < b.numRows) {line : String}
    (h : m.lineAt? b roles row = some line) : ∃ x, m.Gives b roles row x ∧ x.Reads line := by
  obtain ⟨subjectSafe, predicateSafe, objectSafe⟩ :
      m.subject.Safe ∧ m.predicate.Safe ∧ m.object.Safe := by
    refine ⟨safe.texts _ ?_, safe.texts _ ?_, safe.texts _ ?_⟩ <;> simp [termMaps, ownMaps]
  simp only [lineAt?, line?, Option.bind_eq_bind, Option.bind_eq_some_iff, Option.some.injEq] at h
  obtain ⟨s, hs, p, hp, o, ho, g, hg, rfl⟩ := h
  -- a subject is no literal, and a map for blank nodes would have made no term
  have iri : m.subject.termType = .iri := by
    have made := (TermMap.isSome_term?_iff.mp (by rw [hs]; rfl)).1
    have literal := safe.subject
    cases type : m.subject.termType <;> simp_all
  obtain ⟨st, rfl, smeant, stoken⟩ := TermMap.iriToken_of_term? iri subjectSafe hs
  obtain ⟨pt, rfl, pmeant, ptoken⟩ := TermMap.iriToken_of_term? safe.predicate predicateSafe hp
  obtain ⟨ot, rfl, omeant, otoken⟩ := TermMap.objectToken_of_term? objectSafe ho
  obtain ⟨graph, rfl, named, unnamed, gtoken⟩ := graph_of_graphTerm? safe hrow hg
  refine ⟨⟨st, pt, ot, graph⟩, ?_, ?_⟩
  · exact {
      subject := gives_of_term? hrow hs smeant
      predicate := gives_of_term? hrow hp pmeant
      object := gives_of_term? hrow ho omeant
      graph := named
      noGraph := unnamed }
  · refine ⟨stoken, ptoken, otoken, gtoken, ?_⟩
    cases graph <;> simp [Statement.text, String.append_assoc]

theorem readsBack_of_render (safe : m.Safe) {lines : List String} (h : m.render b roles = .ok lines) :
    m.ReadsBack b roles lines := by
  have rows := (render_eq_ok_iff.mp h).2
  refine ⟨by simpa using length_of_mapM rows, fun row line hl => ?_⟩
  rw [getElem?_of_mapM rows, Option.bind_eq_some_iff] at hl
  obtain ⟨row', at_row, hl⟩ := hl
  obtain ⟨bound, same⟩ := List.getElem?_eq_some_iff.mp at_row
  rw [List.getElem_range] at same
  subst same
  have hrow : row < b.numRows := by simpa using bound
  obtain ⟨x, gives, reads⟩ := reads_of_lineAt? safe hrow hl
  exact ⟨x, gives, reads, fun y other => Statement.reads_unique other reads,
    not_mem_of_reads (.inl rfl) reads, not_mem_of_reads (.inr rfl) reads⟩

end StatementMap

/-! ## Rules -/

namespace MappingRule

structure Safe (r : MappingRule) : Prop where
  subject : r.subject.Safe
  predicate : r.predicate.Safe
  object : ∀ o, r.object = .term o → o.Safe
  graph : ∀ g, r.graph = some g → g.Safe

theorem safe_statement {record : RuleRecord} {r : MappingRule} (accepted : record.compile = .ok r)
    (safe : r.Safe) {o : TermMap} (object : o.Safe) : (r.statement o).Safe := by
  have checked := checked_of_states (RuleRecord.compile_eq_ok_iff.mp accepted)
  have named : ∀ g, (r.statement o).namedGraph = some g → r.graph = some g :=
    fun g h => (Option.filter_eq_some_iff.mp h).1
  refine ⟨checked.subject, checked.predicate, fun g h => (checked.graph g (named g h)).1,
    fun x hx => ?_⟩
  simp only [StatementMap.termMaps, StatementMap.ownMaps, List.mem_cons, Option.mem_toList] at hx
  rcases hx with rfl | rfl | rfl | hx
  · exact object
  · exact safe.subject
  · exact safe.predicate
  · exact safe.graph x (named x hx)

/-- **Data cannot break a statement.** If the texts that an accepted rule brings may stand where it puts
them, then every line that it renders, from whatever batch, is read by the grammar as the tokens of its
row, in no other way, and holds no line break. So is every line of a join, if the texts of the parent's
subject map may stand where it puts them. -/
theorem render_readsBack {record : RuleRecord} {r : MappingRule} (accepted : record.compile = .ok r)
    (safe : r.Safe) :
    (∀ o b lines, r.object = .term o → r.render b = .ok lines →
      (r.statement o).ReadsBack b .plain lines) ∧
    ∀ (parent : SubjectMap) b lines, parent.subject.Safe → r.renderJoined parent b = .ok lines →
      (r.statement parent.subject).ReadsBack b .join lines := by
  refine ⟨?_, ?_⟩
  · intro o b lines object h
    rw [render_term object] at h
    exact StatementMap.readsBack_of_render (safe_statement accepted safe (safe.object o object)) h
  · intro parent b lines subject h
    exact StatementMap.readsBack_of_render (safe_statement accepted safe subject) h

/-- A record of a rule that gives notes, in the language of the rule. -/
def noteRecord : RuleRecord where
  triplesMapId := "tm1"
  tableName := some "notes"
  subject := { reference := some "id" }
  predicate := { constant := some "http://ex/note" }
  object := { reference := some "note", language := some "en-GB" }

def noteRule : MappingRule :=
  ⟨"", "tm1", "", .table "notes", "", .plain (.column "id") .iri, .iri "http://ex/note",
    .term ⟨.column "note", .literal, some "en-GB", none⟩, none⟩

/-- A batch whose cells hold what could end a token or a line. -/
def notes : Batch :=
  ⟨[⟨⟨"id", .string, false⟩, ⟨.string, #[some "1> <2"]⟩⟩,
    ⟨⟨"note", .string, false⟩, ⟨.string, #[some "\"@en .\n<"]⟩⟩], 1⟩

theorem noteRule_readsBack : ∃ lines, noteRule.render notes = .ok lines ∧
    (noteRule.statement ⟨.column "note", .literal, some "en-GB", none⟩).ReadsBack notes .plain
      lines := by
  have accepted : noteRecord.compile = .ok noteRule := by decide
  have other : ∀ {p : Prop}, TermType.iri = .literal → p := fun type => absurd type (by decide)
  have safe : noteRule.Safe := by
    refine ⟨⟨?_, other, other⟩, ⟨?_, other, other⟩, ?_, fun g hg => absurd hg (by simp [noteRule])⟩
    · intro _ s hs
      simp [noteRule, TermMap.plain, TermValue.segments] at hs
    · intro _ s hs
      obtain rfl : s = "http://ex/note" := by
        simpa [noteRule, TermMap.iri, TermMap.plain, TermValue.segments] using hs
      decide
    · intro o ho
      obtain rfl := ObjectMap.term.inj ho
      refine ⟨fun type => absurd type (by decide), fun _ iri hd => absurd hd (by simp), ?_⟩
      intro _ tag ht
      obtain rfl := Option.some.inj ht
      have letters : ∀ c ∈ ['e', 'n'], c.isAlpha := List.all_eq_true.mp rfl
      have country : ∀ c ∈ ['G', 'B'], c.isAlphanum := List.all_eq_true.mp rfl
      refine ⟨['e', 'n'], [['G', 'B']], rfl, ⟨by simp, letters⟩, ?_⟩
      rw [List.forall_mem_singleton]
      exact ⟨by simp, country⟩
  exact ⟨_, rfl, (render_readsBack accepted safe).1 _ notes _ rfl rfl⟩

end MappingRule

end RdfMapping
