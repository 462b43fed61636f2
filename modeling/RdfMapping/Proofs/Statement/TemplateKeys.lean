import RdfMapping.Proofs.Statement.EncodedCells
import RdfMapping.Proofs.Statement.Grammar

/-!
IRIs made by a template tell the keys that they are made of apart.

An encoded cell holds unreserved characters and `%` only. If any two columns that follow each other in a
template have a text between them that holds another character (`Template.Separated`), then the first such
character behind a column shows where its cell ends (`Segment.mark_or_no_column`), and the IRI spells each
cell (`Segment.columns_of_spelled`).
-/

namespace RdfMapping

namespace Segment

def IsCellChar (c : Char) : Prop := c ∈ Percent.unreservedChars ∨ c = '%'

instance (c : Char) : Decidable (IsCellChar c) := inferInstanceAs (Decidable (_ ∨ _))

/-- The text holds a character that no encoded cell holds. -/
def Separates (s : String) : Prop := ∃ c ∈ s.toList, ¬IsCellChar c

/-- In front of the first column there is a text that separates. -/
def Opens (segments : List Segment) : Prop :=
  ∀ between b after, segments = between ++ .column b :: after → (∀ n, .column n ∉ between) →
    ∃ s, .text s ∈ between ∧ Separates s

/-- Any two columns that follow each other have a text that separates between them. -/
def Separated (segments : List Segment) : Prop :=
  ∀ before a rest, segments = before ++ .column a :: rest → Opens rest

/-- What segments spell, given what stands for each column. -/
def spell (cell : String → List Char) : List Segment → List Char
  | [] => []
  | .text s :: rest => s.toList ++ spell cell rest
  | .column name :: rest => cell name ++ spell cell rest

theorem opens_nil : Opens [] := by
  intro between b after parts
  simp at parts

theorem not_opens_column (name : String) (rest : List Segment) : ¬Opens (.column name :: rest) := by
  intro h
  obtain ⟨s, mem, -⟩ := h [] name rest rfl fun n => List.not_mem_nil
  cases mem

theorem opens_text_iff {s : String} {rest : List Segment} :
    Opens (.text s :: rest) ↔ Separates s ∨ Opens rest := by
  refine ⟨?_, ?_⟩
  · intro h
    refine or_iff_not_imp_left.mpr fun cells between b after parts none => ?_
    obtain ⟨t, mem, separates⟩ := h (.text s :: between) b after (by rw [parts, List.cons_append])
      (by simpa using none)
    rcases List.mem_cons.mp mem with same | mem
    · cases same
      exact absurd separates cells
    · exact ⟨t, mem, separates⟩
  · intro h between b after parts none
    cases between with
    | nil => cases parts
    | cons segment between =>
      obtain ⟨rfl, tails⟩ := List.cons.inj parts
      rcases h with separates | opens
      · exact ⟨s, List.mem_cons_self, separates⟩
      · obtain ⟨t, mem, separates⟩ :=
          opens between b after tails fun n hn => none n (List.mem_cons_of_mem _ hn)
        exact ⟨t, List.mem_cons_of_mem _ mem, separates⟩

theorem separated_nil : Separated [] := by
  intro before a rest parts
  simp at parts

theorem separated_text_iff {s : String} {rest : List Segment} :
    Separated (.text s :: rest) ↔ Separated rest := by
  refine ⟨?_, ?_⟩
  · intro h before a after parts
    exact h (.text s :: before) a after (by rw [parts, List.cons_append])
  · intro h before a after parts
    cases before with
    | nil => cases parts
    | cons segment before => exact h before a after (List.cons.inj parts).2

theorem separated_column_iff {name : String} {rest : List Segment} :
    Separated (.column name :: rest) ↔ Opens rest ∧ Separated rest := by
  refine ⟨?_, ?_⟩
  · intro h
    refine ⟨h [] name rest rfl, fun before a after parts => ?_⟩
    exact h (.column name :: before) a after (by rw [parts, List.cons_append])
  · intro h before a after parts
    obtain ⟨opens, separated⟩ := h
    cases before with
    | nil => exact (List.cons.inj parts).2 ▸ opens
    | cons segment before => exact separated before a after (List.cons.inj parts).2

instance (s : String) : Decidable (Separates s) := List.decidableBEx _ s.toList

instance decidableOpens : (segments : List Segment) → Decidable (Opens segments)
  | [] => .isTrue opens_nil
  | .column name :: rest => .isFalse (not_opens_column name rest)
  | .text s :: rest =>
    have := decidableOpens rest
    decidable_of_iff (Separates s ∨ Opens rest) opens_text_iff.symm

instance decidableSeparated : (segments : List Segment) → Decidable (Separated segments)
  | [] => .isTrue separated_nil
  | .text _ :: rest =>
    have := decidableSeparated rest
    decidable_of_iff (Separated rest) separated_text_iff.symm
  | .column _ :: rest =>
    have := decidableSeparated rest
    decidable_of_iff (Opens rest ∧ Separated rest) separated_column_iff.symm

/-- Either no column follows, or it follows behind a character that no cell holds and that stands in the
same place whatever the cells are. -/
theorem mark_or_no_column {segments : List Segment} (h : Opens segments) :
    (∀ n, .column n ∉ segments) ∨ ∃ lead mark, (∀ c ∈ lead, IsCellChar c) ∧ ¬IsCellChar mark ∧
      ∀ cell, ∃ rest, spell cell segments = lead ++ mark :: rest := by
  induction segments with
  | nil => exact .inl fun n => List.not_mem_nil
  | cons segment rest ih =>
    cases segment with
    | column b => exact absurd h (not_opens_column b rest)
    | text s =>
      -- the first character of the text that no cell holds is the mark, if there is one
      by_cases separates : Separates s
      · obtain ⟨first, other⟩ : ∃ first, s.toList.find? (fun c => ¬IsCellChar c) = some first := by
          simpa [Separates, ← Option.isSome_iff_exists, List.find?_isSome] using separates
        obtain ⟨isOther, lead, tail, parts, cells⟩ := List.find?_eq_some_iff_append.mp other
        refine .inr ⟨lead, first, by simpa using cells, by simpa using isOther, fun cell => ?_⟩
        exact ⟨tail ++ spell cell rest, by simp [spell, parts]⟩
      · have opens := (opens_text_iff.mp h).resolve_left separates
        rcases ih opens with none | ⟨lead, mark, cells, other, starts⟩
        · exact .inl (by simpa using none)
        · refine .inr ⟨s.toList ++ lead, mark, ?_, other, fun cell => ?_⟩
          · intro c hc
            rcases List.mem_append.mp hc with hc | hc
            · by_contra other
              exact separates ⟨c, hc, other⟩
            · exact cells c hc
          · obtain ⟨tail, spelled⟩ := starts cell
            exact ⟨tail, by simp [spell, spelled]⟩

theorem spell_of_no_column {segments : List Segment} (h : ∀ n, .column n ∉ segments)
    (cell other : String → List Char) : spell cell segments = spell other segments := by
  induction segments with
  | nil => rfl
  | cons segment rest ih =>
    cases segment with
    | column n => exact absurd List.mem_cons_self (h n)
    | text s =>
      unfold spell
      rw [ih fun n hn => h n (List.mem_cons_of_mem _ hn)]

/-- Separated columns are spelled alike only by the same cells. -/
theorem columns_of_spelled {segments : List Segment} (separated : Separated segments)
    {cell other : String → List Char}
    (cells : ∀ n, .column n ∈ segments → ∀ c ∈ cell n, IsCellChar c)
    (others : ∀ n, .column n ∈ segments → ∀ c ∈ other n, IsCellChar c)
    (same : spell cell segments = spell other segments) :
    ∀ n, .column n ∈ segments → cell n = other n := by
  induction segments with
  | nil =>
    intro n hn
    cases hn
  | cons segment rest ih =>
    have ih := fun tail => ih tail (fun n hn => cells n (List.mem_cons_of_mem _ hn))
      (fun n hn => others n (List.mem_cons_of_mem _ hn))
    cases segment with
    | text s =>
      simp only [spell, List.append_cancel_left_eq] at same
      intro n hn
      exact ih (separated_text_iff.mp separated) same n (by simpa using hn)
    | column a =>
      obtain ⟨opens, tail⟩ := separated_column_iff.mp separated
      -- the cell of the column is the same, and so is what follows it
      have both : cell a = other a ∧ spell cell rest = spell other rest := by
        unfold spell at same
        rcases mark_or_no_column opens with none | ⟨lead, mark, plain, stops, starts⟩
        · have tails := spell_of_no_column none cell other
          rw [tails] at same
          exact ⟨List.append_cancel_right same, tails⟩
        · obtain ⟨_, spelled⟩ := starts cell
          obtain ⟨_, spelled'⟩ := starts other
          have apart : ∀ {text : List Char}, (∀ c ∈ text, IsCellChar c) → mark ∉ text ++ lead := by
            intro text inside hm
            rcases List.mem_append.mp hm with hm | hm
            · exact stops (inside mark hm)
            · exact stops (plain mark hm)
          rw [spelled, spelled', ← List.append_assoc, ← List.append_assoc] at same
          obtain ⟨fronts, rfl⟩ := NQuads.append_mark_inj (apart (cells a List.mem_cons_self))
            (apart (others a List.mem_cons_self)) same
          exact ⟨List.append_cancel_right fronts, spelled.trans spelled'.symm⟩
      intro n hn
      rcases List.mem_cons.mp hn with first | hn
      · cases first
        exact both.1
      · exact ih tail both.2 n hn

end Segment

/-- Any two columns of the template that follow each other have a text between them that holds a character
other than letters, digits, `-`, `.`, `_`, `~` and `%`. -/
def Template.Separated (t : Template) : Prop := Segment.Separated t.segments

instance (t : Template) : Decidable t.Separated := Segment.decidableSeparated t.segments

/-! ## IRIs of rows -/

namespace TermMap

variable {m : TermMap} {t : Template}

def cellChars (m : TermMap) (row : Row) (name : String) : List Char :=
  (((row name).map m.value.encodeCell).getD "").toList

theorem isCellChar_of_cellChars (value : m.value = .template t) (row : Row) (name : String) :
    ∀ c ∈ m.cellChars row name, Segment.IsCellChar c := by
  intro c hc
  unfold cellChars at hc
  cases found : row name with
  | none => simp [found] at hc
  | some cell =>
    rw [found, Option.map_some, Option.getD_some, value] at hc
    exact (Percent.writes_encode Percent.keeps_isUnreserved cell).mem
      Percent.unreservedChars_of_upperDigits hc

theorem toList_join_pieces {row : Row} {segments : List Segment} {pieces : List String}
    (given : List.Forall₂ (fun segment piece => segment.read m.value.encodeCell row = some piece)
      segments pieces) :
    (String.join pieces).toList = Segment.spell (m.cellChars row) segments := by
  rw [String.toList_join]
  induction given with
  | nil => rfl
  | @cons segment piece segments pieces read _ ih =>
    rw [List.flatMap_cons, ih]
    cases segment with
    | text s =>
      cases read
      rfl
    | column name =>
      have read : (row name).map m.value.encodeCell = some piece := read
      rw [Segment.spell, cellChars, read, Option.getD_some]

theorem spelled_of_term? (type : m.termType = .iri) {row : Row} {term : String}
    (h : m.term? row = some term) :
    term = "<" ++ String.ofList (Segment.spell (m.cellChars row) m.value.segments) ++ "> " := by
  obtain ⟨pieces, rfl, given⟩ := (term?_iri_eq_some_iff type).mp h
  rw [← toList_join_pieces given, String.ofList_toList]

theorem exists_cell_of_term? {row : Row} {term : String} (h : m.term? row = some term) :
    ∀ name ∈ m.columns, ∃ cell, row name = some cell := by
  have made : (m.term? row).isSome := by rw [h, Option.isSome_some]
  intro name hn
  exact Option.isSome_iff_exists.mp ((isSome_term?_iff.mp made).2 name hn)

theorem cells_of_same_iri (separated : t.Separated) (value : m.value = .template t)
    (type : m.termType = .iri) {row row' : Row} {term : String} (h : m.term? row = some term)
    (h' : m.term? row' = some term) : ∀ name ∈ t.columns, row name = row' name := by
  have columns : m.columns = t.columns := by rw [TermMap.columns, value]
  have segments : m.value.segments = t.segments := by rw [value, TermValue.segments]
  have spelled : Segment.spell (m.cellChars row) t.segments =
      Segment.spell (m.cellChars row') t.segments := by
    have same := (spelled_of_term? type h).symm.trans (spelled_of_term? type h')
    rw [String.append_left_inj, String.append_right_inj, segments] at same
    exact String.ofList_injective same
  intro name hn
  rw [← columns] at hn
  have mem : .column name ∈ t.segments := segments ▸ mem_columns_iff.mp hn
  have cells : m.cellChars row name = m.cellChars row' name :=
    Segment.columns_of_spelled separated (fun n _ => isCellChar_of_cellChars value row n)
      (fun n _ => isCellChar_of_cellChars value row' n) spelled name mem
  obtain ⟨cell, found⟩ := exists_cell_of_term? h name hn
  obtain ⟨cell', found'⟩ := exists_cell_of_term? h' name hn
  simp only [cellChars, found, found', Option.map_some, Option.getD_some] at cells
  rw [found, found', m.value.encodeCell_injective (String.toList_inj.mp cells)]

/-- **IRIs tell keys apart.** The terms of a batch are those of its rows on their own. If any two columns
of a template that follow each other are separated, then two rows, of whatever batches and in whatever
roles, have the same IRI exactly if they have the same text under every column of the template. -/
theorem template_iris_tell_keys (separated : t.Separated) (value : m.value = .template t)
    (type : m.termType = .iri) :
    (∀ (b : Batch) (role : Role) (terms : List String), m.render b role = .ok terms →
      ∀ row term, terms[row]? = some term → m.render (b.slice row 1) role = .ok [term]) ∧
    ∀ (b b' : Batch) (role role' : Role) (row row' : Nat) (term term' : String),
      m.render (b.slice row 1) role = .ok [term] → m.render (b'.slice row' 1) role' = .ok [term'] →
        (term = term' ↔
          ∀ name ∈ t.columns, b.rowAs role row name = b'.rowAs role' row' name) := by
  refine ⟨?_, ?_⟩
  · intro b role terms h row term at_row
    obtain ⟨bound, gives⟩ := term?_of_getElem?_render h at_row
    exact (render_row_iff bound).mpr gives
  · intro b b' role role' row row' term term' h h'
    have made := term?_of_render_row h
    have made' := term?_of_render_row h'
    refine ⟨?_, ?_⟩
    · intro same
      subst same
      exact cells_of_same_iri separated value type made made'
    · intro same
      have columns : m.columns = t.columns := by rw [TermMap.columns, value]
      have terms := term?_congr (m := m) fun name hn => same name (columns ▸ hn)
      rw [made, made', Option.some.injEq] at terms
      exact terms

def placeTemplate : Template :=
  ⟨"\x7bshelf\x7d/\x7bplace\x7d", [.column "shelf", .text "/", .column "place"]⟩

/-- Two books whose keys look alike when they are put together. -/
def books : Batch :=
  ⟨[⟨⟨"shelf", .string, false⟩, ⟨.string, #[some "a/", some "a"]⟩⟩,
    ⟨⟨"place", .string, false⟩, ⟨.string, #[some "b", some "/b"]⟩⟩], 2⟩

/-- The books stay apart, for the separator is encoded in their keys. -/
theorem template_iris_tell_books : ∃ term term',
    (plain (.template placeTemplate) .iri).render (books.slice 0 1) .plain = .ok [term] ∧
    (plain (.template placeTemplate) .iri).render (books.slice 1 1) .plain = .ok [term'] ∧
    term ≠ term' ∧ placeTemplate.Separated := by
  have separated : placeTemplate.Separated := by decide
  have rows := (template_iris_tell_keys (m := plain (.template placeTemplate) .iri) separated rfl rfl).2
    books books .plain .plain 0 1 _ _ rfl rfl
  refine ⟨_, _, rfl, rfl, fun same => ?_, separated⟩
  have shelf := rows.mp same "shelf" (by decide)
  exact absurd shelf (by decide)

end TermMap

end RdfMapping
