import RdfMapping.Proofs.Statement.EncodedCells

/-!
Cells that hold a full IRI.

A full IRI has a scheme, a colon, and then unreserved characters, delimiters and triples (`AbsoluteIri`).
An IRI map over a column keeps some of these characters and writes a triple for each of the others, the
mark of a triple among them (`TermMap.term?_column`, `Percent.toList_encode_of_ascii`). A triple takes
more room than what it stands for, so a text is written as it is only if nothing of it is encoded
(`Percent.encode_eq_self_iff`). So IRIs that are made of kept characters are emitted intact, and no others
are (`TermMap.full_iri_intact_iff`): what has a query, a fragment or a triple of its own is changed.
-/

namespace RdfMapping

/-! ## Full IRIs -/

def iriDelimiters : List Char := ":/?#[]@!$&'()*+,;=".toList

/-- Unreserved characters, delimiters and triples, one after the other. -/
inductive IriText : List Char → Prop
  | nil : IriText []
  | char {c : Char} {text : List Char} (mem : c ∈ Percent.unreservedChars ++ iriDelimiters)
      (rest : IriText text) : IriText (c :: text)
  | triple {high low : Char} {text : List Char} (first : (Hex.digitValue? high).isSome)
      (second : (Hex.digitValue? low).isSome) (rest : IriText text) : IriText ('%' :: high :: low :: text)

/-- A letter, and then letters, digits, `+`, `-` and `.`. -/
def IriScheme (text : List Char) : Prop :=
  ∃ c rest, text = c :: rest ∧ c.isAlpha ∧ ∀ d ∈ rest, d.isAlphanum ∨ d ∈ ['+', '-', '.']

/-- A scheme, a colon, and what it names. -/
def AbsoluteIri (s : String) : Prop :=
  ∃ scheme text, s.toList = scheme ++ ':' :: text ∧ IriScheme scheme ∧ IriText text

theorem forall_mem_of_all {p : Char → Prop} [DecidablePred p] {text : List Char}
    (h : text.all (p ·) = true) : ∀ c ∈ text, p c := by
  simpa using List.all_eq_true.mp h

theorem IriText.of_chars {text : List Char} (h : ∀ c ∈ text, c ∈ Percent.unreservedChars ++ iriDelimiters) :
    IriText text := by
  induction text with
  | nil => exact .nil
  | cons c text ih =>
    obtain ⟨first, others⟩ := List.forall_mem_cons.mp h
    exact .char first (ih others)

theorem digit_ascii {c : Char} (h : (Hex.digitValue? c).isSome) : c.toNat < 128 := by
  simp only [Hex.digitValue?, Char.le_def, UInt32.le_iff_toNat_le] at h
  have nine : '9'.val.toNat = 57 := rfl
  have small : 'f'.val.toNat = 102 := rfl
  have large : 'F'.val.toNat = 70 := rfl
  change c.val.toNat < 128
  split at h
  · omega
  · split at h
    · omega
    · split at h
      · omega
      · cases h

theorem IriText.ascii {text : List Char} (h : IriText text) : ∀ c ∈ text, c.toNat < 128 := by
  induction h with
  | nil => simp
  | char mem _ ih =>
    have delimiters : ∀ c ∈ iriDelimiters, c.toNat < 128 := forall_mem_of_all (by decide)
    refine List.forall_mem_cons.mpr ⟨?_, ih⟩
    rcases List.mem_append.mp mem with unreserved | delimiter
    · exact (Percent.keeps_isUnreserved.ascii _ unreserved).1
    · exact delimiters _ delimiter
  | triple first second _ ih =>
    simp only [List.forall_mem_cons]
    exact ⟨by decide, digit_ascii first, digit_ascii second, ih⟩

theorem alphanum_ascii {c : Char} (h : c.isAlphanum) : c.toNat < 128 := by
  have ranges : (('A'.val ≤ c.val ∧ c.val ≤ 'Z'.val) ∨ ('a'.val ≤ c.val ∧ c.val ≤ 'z'.val)) ∨
      ('0'.val ≤ c.val ∧ c.val ≤ '9'.val) := by
    change ((decide ('A'.val ≤ c.val ∧ c.val ≤ 'Z'.val) ||
      (decide ('a'.val ≤ c.val) && decide (c.val ≤ 'z'.val))) ||
      (decide ('0'.val ≤ c.val) && decide (c.val ≤ '9'.val))) = true at h
    simpa only [Bool.or_eq_true, Bool.and_eq_true, decide_eq_true_eq] using h
  simp only [UInt32.le_iff_toNat_le] at ranges
  have upper : 'Z'.val.toNat = 90 := rfl
  have lower : 'z'.val.toNat = 122 := rfl
  have digit : '9'.val.toNat = 57 := rfl
  change c.val.toNat < 128
  omega

theorem IriScheme.ascii {text : List Char} (h : IriScheme text) : ∀ c ∈ text, c.toNat < 128 := by
  obtain ⟨c, rest, rfl, letter, others⟩ := h
  refine List.forall_mem_cons.mpr ⟨alphanum_ascii (by simp [Char.isAlphanum, letter]), ?_⟩
  intro d hd
  rcases others d hd with plain | mark
  · exact alphanum_ascii plain
  · have marks : ∀ d ∈ ['+', '-', '.'], d.toNat < 128 := forall_mem_of_all (by decide)
    exact marks d mark

theorem AbsoluteIri.ascii {s : String} (h : AbsoluteIri s) : ∀ c ∈ s.toList, c.toNat < 128 := by
  obtain ⟨scheme, text, spelled, start, rest⟩ := h
  rw [spelled, List.forall_mem_append, List.forall_mem_cons]
  exact ⟨start.ascii, by decide, rest.ascii⟩

/-! ## What is kept of a text -/

namespace Percent

/-- A kept character is written as it is, and any other one as the triple of its number. -/
def writtenChar (chars : List Char) (c : Char) : List Char :=
  if c ∈ chars then [c] else '%' :: Hex.upper (UInt8.ofNat c.toNat)

theorem length_le_utf8 (s : String) : s.toList.length ≤ (utf8 s).length := by
  rw [utf8]
  induction s.toList with
  | nil => exact Nat.le_refl 0
  | cons c rest ih =>
    have one : 0 < (String.utf8EncodeChar c).length := by
      rw [String.length_utf8EncodeChar]
      exact c.utf8Size_pos
    rw [List.flatMap_cons, List.length_append, List.length_cons]
    omega

/-- What stands for bytes has a character for each of them at least, and no more only if all of these are
kept. -/
theorem Writes.length_le {chars : List Char} {bytes : List UInt8} {text : List Char}
    (h : Writes chars bytes text) : bytes.length ≤ text.length ∧
      (text.length ≤ bytes.length → ∀ c ∈ text, c ∈ chars) := by
  induction h with
  | nil => simp
  | @same c bytes text mem _ ih =>
    simp only [List.length_cons, List.forall_mem_cons]
    exact ⟨by omega, fun no_more => ⟨mem, ih.2 (by omega)⟩⟩
  | triple _ _ _ _ ih =>
    simp only [List.length_cons]
    exact ⟨by omega, fun no_more => absurd ih.1 (by omega)⟩

theorem toList_encode_of_ascii {keep : UInt8 → Bool} {chars : List Char} (keeps : Keeps keep chars)
    {s : String} (ascii : ∀ c ∈ s.toList, c.toNat < 128) :
    (encode keep s).toList = s.toList.flatMap (writtenChar chars) := by
  rw [encode, String.toList_ofList, utf8, List.flatMap_assoc]
  refine List.flatMap_congr fun c hc => ?_
  have small := ascii c hc
  have bound : c.toNat < 256 := by omega
  have kept : keep (UInt8.ofNat c.toNat) = true ↔ c ∈ chars := by
    simp only [keeps.bytes _ bound, Char.toNat_inj, exists_eq_right]
  rw [utf8EncodeChar_of_ascii small, List.flatMap_singleton, encodeByte, writtenChar, if_congr kept rfl rfl,
    UInt8.toNat_ofNat_of_lt' bound, Char.ofNat_toNat]

/-- A text is written as it is exactly if all of its characters are kept. -/
theorem encode_eq_self_iff {keep : UInt8 → Bool} {chars : List Char} (keeps : Keeps keep chars)
    (s : String) : encode keep s = s ↔ ∀ c ∈ s.toList, c ∈ chars := by
  refine ⟨?_, ?_⟩
  · intro same
    have written := writes_encode keeps s
    rw [same, ← utf8_eq] at written
    exact written.length_le.2 (length_le_utf8 s)
  · intro all
    rw [← String.toList_inj, toList_encode_of_ascii keeps fun c hc => (keeps.ascii c (all c hc)).1]
    have single : ∀ c ∈ s.toList, writtenChar chars c = [c] := fun c hc => if_pos (all c hc)
    rw [List.flatMap_congr single, List.flatMap_singleton']

end Percent

/-! ## Terms -/

namespace TermMap

theorem term?_column {m : TermMap} (type : m.termType = .iri) {name : String} (value : m.value = .column name)
    (row : Row) : m.term? row =
      (row name).map fun cell => "<" ++ Percent.encode Percent.isUnreservedOrPath cell ++ "> " := by
  have kind : m.kind = .ok .iri := by rw [TermMap.kind, type]
  rw [term?, kind, value]
  cases cell : row name with
  | none => simp [TermValue.read, TermValue.segments, Segment.read, cell]
  | some s =>
    simp [TermValue.read, TermValue.segments, Segment.read, cell, String.join, TermKind.wrap,
      TermKind.cellEncoding]

/-- **Full IRIs are emitted intact if they are made of kept characters, and no others are.** Let a cell of a
column hold a full IRI. The map of the column to IRIs makes a term of its row, alone and in a batch whose
rows all have a text there; the characters of the IRI stand in it one by one, those that are kept as they
are and the others as triples. So it is the IRI between angle brackets exactly if every character is a
letter, a digit or one of `-`, `.`, `_`, `~`, `:` and `/`. -/
theorem full_iri_intact_iff {m : TermMap} (type : m.termType = .iri) {name : String}
    (value : m.value = .column name) {b : Batch} {role : Role} {row : Nat} (there : row < b.numRows)
    {iri : String} (cell : b.rowAs role row name = some iri) (full : AbsoluteIri iri) :
    ∃ term, m.render (b.slice row 1) role = .ok [term] ∧
      ((∀ i < b.numRows, (b.rowAs role i name).isSome) →
        ∃ terms, m.render b role = .ok terms ∧ terms[row]? = some term) ∧
      term = "<" ++ String.ofList (iri.toList.flatMap (Percent.writtenChar Percent.pathChars)) ++ "> " ∧
      (term = "<" ++ iri ++ "> " ↔ ∀ c ∈ iri.toList, c ∈ Percent.pathChars) := by
  have made : m.term? (b.rowAs role row) =
      some ("<" ++ Percent.encode Percent.isUnreservedOrPath iri ++ "> ") := by
    rw [term?_column type value, cell, Option.map_some]
  refine ⟨_, (render_row_iff there).mpr made, ?_, ?_, ?_⟩
  · intro cells
    have fits : m.Fits b role := fits_of_term? (Option.isSome_iff_exists.mpr ⟨_, made⟩)
    have rows : ((List.range b.numRows).mapM fun i => m.term? (b.rowAs role i)).isSome := by
      refine isSome_mapM_iff.mpr fun i hi => ?_
      rw [term?_column type value, Option.isSome_map]
      exact cells i (List.mem_range.mp hi)
    obtain ⟨terms, all⟩ := Option.isSome_iff_exists.mp rows
    refine ⟨terms, render_eq_ok_iff.mpr ⟨fits, all⟩, ?_⟩
    rw [getElem?_of_mapM all, List.getElem?_range there, Option.bind_some, made]
  · rw [← Percent.toList_encode_of_ascii Percent.keeps_isUnreservedOrPath full.ascii, String.ofList_toList]
  · rw [String.append_left_inj, String.append_right_inj]
    exact Percent.encode_eq_self_iff Percent.keeps_isUnreservedOrPath iri

/-- Two home pages, the second of which is a search with a fragment. -/
def homes : Batch :=
  ⟨[⟨⟨"home", .string, false⟩,
    ⟨.string, #[some "http://ex.org:80/~ann", some "http://ex.org/?q=ann#top"]⟩⟩], 2⟩

def homeIri : TermMap := .plain (.column "home") .iri

theorem absoluteIri_http {s : String} {text : List Char} (spelled : s.toList = "http".toList ++ ':' :: text)
    (chars : ∀ c ∈ text, c ∈ Percent.unreservedChars ++ iriDelimiters) : AbsoluteIri s :=
  ⟨_, text, spelled, ⟨'h', _, rfl, by decide, forall_mem_of_all (by decide)⟩, .of_chars chars⟩

theorem full_iri_intact_homes :
    (∃ term, homeIri.render (homes.slice 0 1) .plain = .ok [term] ∧ term = "<http://ex.org:80/~ann> ") ∧
      ∃ term, homeIri.render (homes.slice 1 1) .plain = .ok [term] ∧
        term ≠ "<http://ex.org/?q=ann#top> " := by
  refine ⟨?_, ?_⟩
  · obtain ⟨term, made, -, -, intact⟩ := @full_iri_intact_iff homeIri rfl _ rfl homes .plain 0 (by decide)
      "http://ex.org:80/~ann" rfl (absoluteIri_http rfl (forall_mem_of_all (by decide +kernel)))
    exact ⟨term, made, intact.mpr (forall_mem_of_all (by decide +kernel))⟩
  · obtain ⟨term, made, -, -, intact⟩ := @full_iri_intact_iff homeIri rfl _ rfl homes .plain 1 (by decide)
      "http://ex.org/?q=ann#top" rfl (absoluteIri_http rfl (forall_mem_of_all (by decide +kernel)))
    exact ⟨term, made, fun same => absurd (intact.mp same '?' (by decide)) (by decide +kernel)⟩

/-- A cell that holds a full IRI with a query and a fragment is not emitted intact. -/
theorem full_iri_changed : AbsoluteIri "http://ex.org/?q=ann#top" ∧
    homes.rowAs .plain 1 "home" = some "http://ex.org/?q=ann#top" ∧
    homeIri.render (homes.slice 1 1) .plain = .ok ["<http://ex.org/%3Fq%3Dann%23top> "] ∧
    homeIri.render (homes.slice 1 1) .plain ≠ .ok ["<" ++ "http://ex.org/?q=ann#top" ++ "> "] := by
  have changed : homeIri.render (homes.slice 1 1) .plain = .ok ["<http://ex.org/%3Fq%3Dann%23top> "] := by
    decide +kernel
  refine ⟨absoluteIri_http rfl (forall_mem_of_all (by decide +kernel)), rfl, changed, ?_⟩
  rw [changed]
  decide

end TermMap

end RdfMapping
