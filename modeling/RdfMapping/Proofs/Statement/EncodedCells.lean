import RdfMapping.Proofs.Statement.RowMeaning

/-!
How the text of a cell is written in an IRI, byte by byte.

`Percent.Writes` says it without the encoder: a byte that is one of the kept characters is that character,
and every other byte is a triple of `%` and two upper-case digits. The encoder writes every text in this
way (`Percent.writes_encode`), whatever is written in this way is read back as its bytes
(`Percent.Writes.decode?_eq`), and so different texts are written differently (`Percent.encode_injective`).
-/

namespace RdfMapping

namespace Percent

/-! ## What stands for a text -/

/-- The characters that a template keeps: letters, digits and `-`, `.`, `_`, `~`. -/
def unreservedChars : List Char :=
  "ABCDEFGHIJKLMNOPQRSTUVWXYZabcdefghijklmnopqrstuvwxyz0123456789-._~".toList

/-- The characters that are kept of a cell that is the whole IRI. -/
def pathChars : List Char := unreservedChars ++ [':', '/']

def upperDigits : List Char := "0123456789ABCDEF".toList

/-- The text stands for the bytes: a byte that is a kept character is this character, and any other byte
is one triple. -/
inductive Writes (chars : List Char) : List UInt8 → List Char → Prop
  | nil : Writes chars [] []
  | same {c : Char} {bytes : List UInt8} {text : List Char} (mem : c ∈ chars)
      (rest : Writes chars bytes text) : Writes chars (UInt8.ofNat c.toNat :: bytes) (c :: text)
  | triple {b : UInt8} {high low : Char} {bytes : List UInt8} {text : List Char}
      (other : ∀ c ∈ chars, UInt8.ofNat c.toNat ≠ b)
      (first : upperDigits[b.toNat / 16]? = some high)
      (second : upperDigits[b.toNat % 16]? = some low) (rest : Writes chars bytes text) :
      Writes chars (b :: bytes) ('%' :: high :: low :: text)

/-- A test of bytes keeps the given characters, and nothing else. They are in ASCII, and the mark of a
triple is not among them. -/
structure Keeps (keep : UInt8 → Bool) (chars : List Char) : Prop where
  ascii : ∀ c ∈ chars, c.toNat < 128 ∧ c ≠ '%'
  bytes : ∀ n < 256, keep (UInt8.ofNat n) = true ↔ ∃ c ∈ chars, c.toNat = n

theorem toNat_unreservedChars : unreservedChars.map Char.toNat =
    List.range' 65 26 ++ List.range' 97 26 ++ List.range' 48 10 ++ [45, 46, 95, 126] := by
  rfl

theorem exists_unreservedChars_iff {n : Nat} :
    (∃ c ∈ unreservedChars, c.toNat = n) ↔ (65 ≤ n ∧ n ≤ 90) ∨ (97 ≤ n ∧ n ≤ 122) ∨ (48 ≤ n ∧ n ≤ 57) ∨
      n = 45 ∨ n = 46 ∨ n = 95 ∨ n = 126 := by
  rw [← List.mem_map, toNat_unreservedChars]
  simp only [List.mem_append, List.mem_range'_1, List.mem_cons, List.not_mem_nil, or_false]
  omega

theorem keeps_isUnreserved : Keeps isUnreserved unreservedChars where
  ascii := by
    intro c mem
    have code := exists_unreservedChars_iff.mp ⟨c, mem, rfl⟩
    refine ⟨by omega, ?_⟩
    rintro rfl
    have mark : '%'.toNat = 37 := rfl
    omega
  bytes := by
    intro n bound
    rw [exists_unreservedChars_iff]
    simp only [isUnreserved, UInt8.toNat_ofNat_of_lt' bound, Bool.or_eq_true, Bool.and_eq_true,
      decide_eq_true_eq, beq_iff_eq]
    omega

theorem keeps_isUnreservedOrPath : Keeps isUnreservedOrPath pathChars where
  ascii := by
    intro c mem
    rcases List.mem_append.mp mem with unreserved | path
    · exact keeps_isUnreserved.ascii c unreserved
    · simp only [List.mem_cons, List.not_mem_nil, or_false] at path
      rcases path with rfl | rfl <;> decide
  bytes := by
    intro n bound
    have unreserved := keeps_isUnreserved.bytes n bound
    simp only [isUnreservedOrPath, UInt8.toNat_ofNat_of_lt' bound, Bool.or_eq_true, beq_iff_eq, unreserved,
      pathChars, List.mem_append, List.mem_cons, List.not_mem_nil, or_false, or_and_right, exists_or,
      exists_eq_left, or_assoc]
    exact or_congr_right (or_congr eq_comm eq_comm)

theorem unreservedChars_of_upperDigits : ∀ c ∈ upperDigits, c ∈ unreservedChars := by
  intro c mem
  have code : c.toNat ∈ upperDigits.map Char.toNat := List.mem_map_of_mem mem
  have codes : upperDigits.map Char.toNat = List.range' 48 10 ++ List.range' 65 6 := by rfl
  rw [codes, List.mem_append, List.mem_range'_1, List.mem_range'_1] at code
  have known : ∃ d ∈ unreservedChars, d.toNat = c.toNat := by
    rw [exists_unreservedChars_iff]
    omega
  obtain ⟨d, there, same⟩ := known
  exact Char.toNat_inj.mp same ▸ there

/-! ## Writing -/

theorem getElem?_upperDigits : ∀ n < 16, upperDigits[n]? = some (Hex.upperDigit n) := by
  decide

theorem writes_encodeByte {keep : UInt8 → Bool} {chars : List Char} (keeps : Keeps keep chars)
    (b : UInt8) {bytes : List UInt8} {text : List Char} (rest : Writes chars bytes text) :
    Writes chars (b :: bytes) (encodeByte keep b ++ text) := by
  have bound : b.toNat < 256 := b.toNat_lt
  have kept : keep b = true ↔ ∃ c ∈ chars, c.toNat = b.toNat := by
    simpa using keeps.bytes b.toNat bound
  unfold encodeByte
  split
  · rename_i keepsIt
    obtain ⟨c, mem, value⟩ := kept.mp keepsIt
    have char : Char.ofNat b.toNat = c := by rw [← value, Char.ofNat_toNat]
    have byte : UInt8.ofNat c.toNat = b := by rw [value, UInt8.ofNat_toNat]
    rw [char]
    exact byte ▸ .same mem rest
  · rename_i encodes
    refine .triple ?_ (getElem?_upperDigits _ (by omega)) (getElem?_upperDigits _ (by omega)) rest
    intro c mem byte
    have ascii : c.toNat < 256 := by
      have := (keeps.ascii c mem).1
      omega
    refine encodes (kept.mpr ⟨c, mem, ?_⟩)
    rw [← byte, UInt8.toNat_ofNat_of_lt' ascii]

theorem utf8_eq (s : String) : utf8 s = s.toUTF8.data.toList := by
  have bytes : s.toUTF8 = (utf8 s).toByteArray := String.utf8Encode_toList.symm
  rw [bytes, List.toList_data_toByteArray]

theorem writes_encode {keep : UInt8 → Bool} {chars : List Char} (keeps : Keeps keep chars)
    (s : String) : Writes chars s.toUTF8.data.toList (encode keep s).toList := by
  rw [← utf8_eq, encode, String.toList_ofList]
  induction utf8 s with
  | nil => exact .nil
  | cons b bytes ih =>
    rw [List.flatMap_cons]
    exact writes_encodeByte keeps b ih

/-! ## Reading back -/

theorem utf8EncodeChar_of_ascii {c : Char} (h : c.toNat < 128) :
    String.utf8EncodeChar c = [UInt8.ofNat c.toNat] := by
  have small : ∀ n < 128, String.utf8EncodeChar (Char.ofNat n) = [UInt8.ofNat n] := by
    decide +kernel
  simpa using small c.toNat h

theorem digitValue?_of_upperDigits {n : Nat} {c : Char} (h : upperDigits[n]? = some c) :
    Hex.digitValue? c = some n := by
  have bound : n < 16 := (List.getElem?_eq_some_iff.mp h).choose
  rw [getElem?_upperDigits n bound, Option.some.injEq] at h
  exact h ▸ Hex.digitValue?_upperDigit ⟨n, bound⟩

/-- What stands for bytes is read back as these bytes. -/
theorem Writes.decode?_eq {chars : List Char} (ascii : ∀ c ∈ chars, c.toNat < 128 ∧ c ≠ '%')
    {bytes : List UInt8} {text : List Char} (h : Writes chars bytes text) :
    decode? text = some bytes := by
  induction h with
  | nil => rfl
  | @same c bytes text mem _ ih =>
    obtain ⟨small, plain⟩ := ascii c mem
    rw [decode?, if_neg plain, ih, Option.map_some, utf8EncodeChar_of_ascii small, List.singleton_append]
    intro high low rest mark
    exact absurd mark plain
  | @triple b high low bytes text _ first second _ ih =>
    have value : 16 * (b.toNat / 16) + b.toNat % 16 = b.toNat := Nat.div_add_mod ..
    rw [decode?, digitValue?_of_upperDigits first, digitValue?_of_upperDigits second, ih]
    show some (UInt8.ofNat (16 * (b.toNat / 16) + b.toNat % 16) :: bytes) = some (b :: bytes)
    rw [value, UInt8.ofNat_toNat]

theorem decode?_encode {keep : UInt8 → Bool} {chars : List Char} (keeps : Keeps keep chars)
    (s : String) : decode? (encode keep s).toList = some s.toUTF8.data.toList :=
  (writes_encode keeps s).decode?_eq keeps.ascii

theorem encode_injective {keep : UInt8 → Bool} {chars : List Char} (keeps : Keeps keep chars) :
    Function.Injective (encode keep) := by
  intro s t same
  have bytes : s.toUTF8.data.toList = t.toUTF8.data.toList := by
    rw [← Option.some.injEq, ← decode?_encode keeps s, same, decode?_encode keeps t]
  exact String.toByteArray_inj.mp (ByteArray.ext (Array.toList_inj.mp bytes))

theorem Writes.mem {chars : List Char} (digits : ∀ c ∈ upperDigits, c ∈ chars) {bytes : List UInt8}
    {text : List Char} (h : Writes chars bytes text) {c : Char} (hc : c ∈ text) : c ∈ chars ∨ c = '%' := by
  induction h with
  | nil => cases hc
  | same mem _ ih =>
    rcases List.mem_cons.mp hc with rfl | hc
    · exact .inl mem
    · exact ih hc
  | triple _ first second _ ih =>
    simp only [List.mem_cons] at hc
    rcases hc with rfl | rfl | rfl | hc
    · exact .inr rfl
    · exact .inl (digits _ (List.mem_of_getElem? first))
    · exact .inl (digits _ (List.mem_of_getElem? second))
    · exact ih hc

end Percent

/-! ## Cells of terms -/

namespace TermValue

def encodeCell (v : TermValue) : String → String := TermKind.iri.cellEncoding v

def keptChars : TermValue → List Char
  | .column _ => Percent.pathChars
  | _ => Percent.unreservedChars

theorem encodeCell_eq (v : TermValue) :
    ∃ keep, v.encodeCell = Percent.encode keep ∧ Percent.Keeps keep v.keptChars := by
  cases v with
  | column name => exact ⟨_, rfl, Percent.keeps_isUnreservedOrPath⟩
  | template t => exact ⟨_, rfl, Percent.keeps_isUnreserved⟩
  | constant text => exact ⟨_, rfl, Percent.keeps_isUnreserved⟩

theorem encodeCell_injective (v : TermValue) : Function.Injective v.encodeCell := by
  obtain ⟨keep, same, keeps⟩ := v.encodeCell_eq
  rw [same]
  exact Percent.encode_injective keeps

end TermValue

namespace TermMap

/-- An IRI is the pieces that its segments give, between angle brackets. -/
theorem term?_iri_eq_some_iff {m : TermMap} (type : m.termType = .iri) {row : Row} {term : String} :
    m.term? row = some term ↔ ∃ pieces, term = "<" ++ String.join pieces ++ "> " ∧
      List.Forall₂ (fun segment piece => segment.read m.value.encodeCell row = some piece)
        m.value.segments pieces := by
  have kind : m.kind = .ok .iri := by rw [TermMap.kind, type]
  simp only [term?, kind, toOption_ok, Option.bind_some, TermValue.read, Option.map_map,
    Option.map_eq_some_iff, mapM_eq_some_iff_forall₂]
  refine exists_congr fun pieces => ?_
  rw [and_comm]
  exact and_congr_left fun _ => eq_comm

theorem term?_of_render_row {m : TermMap} {b : Batch} {role : Role} {row : Nat} {term : String}
    (h : m.render (b.slice row 1) role = .ok [term]) : m.term? (b.rowAs role row) = some term := by
  have rows : 1 = (b.slice row 1).numRows := by
    simpa using length_of_mapM (render_eq_ok_iff.mp h).2
  have there : row < b.numRows := by
    change 1 = min 1 (b.numRows - row) at rows
    omega
  exact (render_row_iff there).mp h

theorem term?_of_getElem?_render {m : TermMap} {b : Batch} {role : Role} {terms : List String}
    (h : m.render b role = .ok terms) {row : Nat} {term : String} (at_row : terms[row]? = some term) :
    row < b.numRows ∧ m.term? (b.rowAs role row) = some term := by
  rw [getElem?_of_mapM (render_eq_ok_iff.mp h).2, Option.bind_eq_some_iff] at at_row
  obtain ⟨place, there, gives⟩ := at_row
  obtain ⟨bound, same⟩ := List.getElem?_eq_some_iff.mp there
  rw [List.getElem_range] at same
  subst same
  exact ⟨by simpa using bound, gives⟩

/-- **Cells are encoded exactly.** An IRI map that finds its columns, with a text in every cell that it
reads, makes an IRI of every row: the texts of the map as they are and the cells encoded, one after the
other. Encoding keeps the bytes of the kept characters, writes every other byte as one triple, is undone
by reading the triples, and goes through a text piece by piece. IRIs that are one cell each are equal only
if the cells are. -/
theorem cells_encoded_exactly {m : TermMap} (type : m.termType = .iri) :
    (∀ (b : Batch) (role : Role),
      (∀ name ∈ m.columns, (b.column? (role.qualify name)).isSome) →
      (∀ row < b.numRows, ∀ name ∈ m.columns, (b.rowAs role row name).isSome) →
      ∃ terms, m.render b role = .ok terms ∧ terms.length = b.numRows ∧
        ∀ row term, terms[row]? = some term → ∃ pieces, term = "<" ++ String.join pieces ++ "> " ∧
          List.Forall₂ (fun segment piece =>
            segment.read m.value.encodeCell (b.rowAs role row) = some piece) m.value.segments pieces) ∧
    (∀ cell : String,
      Percent.Writes m.value.keptChars cell.toUTF8.data.toList (m.value.encodeCell cell).toList ∧
      Percent.decode? (m.value.encodeCell cell).toList = some cell.toUTF8.data.toList) ∧
    (∀ cell other : String,
      m.value.encodeCell (cell ++ other) = m.value.encodeCell cell ++ m.value.encodeCell other) ∧
    ∀ name, m.value = .column name →
      ∀ (b b' : Batch) (role role' : Role) (row row' : Nat) (term term' : String),
        m.render (b.slice row 1) role = .ok [term] → m.render (b'.slice row' 1) role' = .ok [term'] →
          (term = term' ↔ b.rowAs role row name = b'.rowAs role' row' name) := by
  obtain ⟨keep, same, keeps⟩ := m.value.encodeCell_eq
  refine ⟨?_, ?_, ?_, ?_⟩
  · intro b role columns cells
    have notBlank : m.termType ≠ .blankNode := by simp [type]
    have made : ((List.range b.numRows).mapM fun row => m.term? (b.rowAs role row)).isSome := by
      refine isSome_mapM_iff.mpr fun row hr => ?_
      exact isSome_term?_iff.mpr ⟨notBlank, cells row (List.mem_range.mp hr)⟩
    obtain ⟨terms, rows⟩ := Option.isSome_iff_exists.mp made
    have renders : m.render b role = .ok terms := render_eq_ok_iff.mpr ⟨⟨notBlank, columns⟩, rows⟩
    refine ⟨terms, renders, by simpa using length_of_mapM rows, ?_⟩
    intro row term at_row
    exact (term?_iri_eq_some_iff type).mp (term?_of_getElem?_render renders at_row).2
  · intro cell
    rw [same]
    exact ⟨Percent.writes_encode keeps cell, Percent.decode?_encode keeps cell⟩
  · intro cell other
    rw [same]
    exact Percent.encode_append keep cell other
  · intro name value b b' role role' row row' term term' h h'
    have only : ∀ {row : Row} {term : String}, m.term? row = some term →
        ∃ cell, row name = some cell ∧ term = "<" ++ m.value.encodeCell cell ++ "> " := by
      intro row term made
      obtain ⟨pieces, rfl, given⟩ := (term?_iri_eq_some_iff type).mp made
      rw [value, TermValue.segments, List.forall₂_cons_left_iff] at given
      obtain ⟨piece, rest, read, none, rfl⟩ := given
      cases List.forall₂_nil_left_iff.mp none
      obtain ⟨cell, found, rfl⟩ := Option.map_eq_some_iff.mp read
      exact ⟨cell, found, by simp [String.join, value]⟩
    obtain ⟨cell, found, rfl⟩ := only (term?_of_render_row h)
    obtain ⟨cell', found', rfl⟩ := only (term?_of_render_row h')
    rw [found, found', Option.some.injEq, String.append_left_inj, String.append_right_inj,
      m.value.encodeCell_injective.eq_iff]

/-- Pages with a path, one of which looks as if it were encoded already. -/
def pages : Batch := ⟨[⟨⟨"path", .string, false⟩, ⟨.string, #[some "a/é", some "a/%C3%A9"]⟩⟩], 2⟩

def pageIri : TermMap := .plain (.column "path") .iri

/-- A path that looks encoded is encoded once more, so the pages stay apart. -/
theorem cells_encoded_pages :
    (∃ terms, pageIri.render pages .plain = .ok terms ∧ terms.length = 2) ∧
      Percent.decode? "a/%25C3%25A9".toList = some "a/%C3%A9".toUTF8.data.toList ∧
      ("<a/%C3%A9> " = "<a/%25C3%25A9> " ↔ pages.rowAs .plain 0 "path" = pages.rowAs .plain 1 "path") := by
  obtain ⟨renders, written, -, apart⟩ := cells_encoded_exactly (m := pageIri) rfl
  refine ⟨?_, ?_, ?_⟩
  · obtain ⟨terms, made, length, -⟩ := renders pages .plain (by decide) (by decide)
    exact ⟨terms, made, length⟩
  · have encoded : pageIri.value.encodeCell "a/%C3%A9" = "a/%25C3%25A9" := by decide
    exact encoded ▸ (written "a/%C3%A9").2
  · exact apart "path" rfl pages pages .plain .plain 0 1 _ _ rfl rfl

end TermMap

end RdfMapping
