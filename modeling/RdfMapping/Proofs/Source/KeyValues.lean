import RdfMapping.Proofs.Calendar.DateTexts
import RdfMapping.Proofs.Source.Answer

/-!
Keys are equal as texts exactly if they are equal as values.

Apart from doubles, no two values of a type share a text (`FieldType.cellText_inj`). So cells of columns of
one type have the same text exactly if they hold the same value (`Column.text_eq_iff`), whole columns are
the same exactly if their texts are (`Column.same_iff_texts`), and rows of two tables whose key columns
agree in type match exactly if they hold the same values, none of them null (`matched_iff_sameValues`).
-/

namespace RdfMapping

/-! ## Texts of values -/

namespace Hex

theorem lower_inj {a b : UInt8} (same : lower a = lower b) : a = b := by
  have digit : ∀ {m n : Nat}, m < 16 → n < 16 → lowerDigit m = lowerDigit n → m = n := by
    intro m n hm hn same
    have values := congrArg digitValue? same
    rw [digitValue?_lowerDigit ⟨m, hm⟩, digitValue?_lowerDigit ⟨n, hn⟩] at values
    exact Option.some.inj values
  have ha : a.toNat < 256 := a.toNat_lt
  have hb : b.toNat < 256 := b.toNat_lt
  simp only [lower, List.cons.injEq, and_true] at same
  have high := digit (by omega) (by omega) same.1
  have low := digit (by omega) (by omega) same.2
  exact UInt8.toNat_inj.mp (by omega)

theorem ofBytes_inj {bytes bytes' : List UInt8} (same : ofBytes bytes = ofBytes bytes') :
    bytes = bytes' := by
  have chars : bytes.flatMap lower = bytes'.flatMap lower := String.ofList_injective same
  clear same
  induction bytes generalizing bytes' with
  | nil =>
    cases bytes' with
    | nil => rfl
    | cons b' rest' => simp [lower] at chars
  | cons b rest ih =>
    cases bytes' with
    | nil => simp [lower] at chars
    | cons b' rest' =>
      rw [List.flatMap_cons, List.flatMap_cons] at chars
      obtain ⟨heads, tails⟩ := List.append_inj chars rfl
      rw [lower_inj heads, ih tails]

end Hex

namespace FieldType

theorem eq_some_of_text {text? : Option String} {fault : CoercionFault} {s : String}
    (h : (match text? with
      | some s => .ok s
      | none => .error fault : Except CoercionFault String) = .ok s) : text? = some s := by
  cases text? with
  | none => cases h
  | some t => exact congrArg some (Except.ok.inj h)

/-- No two values of a type other than the doubles share a text. -/
theorem cellText_inj {t : FieldType} (notFloat : t ≠ .float64) {a b : t.Cell} {s : String}
    (ha : t.cellText a = .ok s) (hb : t.cellText b = .ok s) : a = b := by
  cases t with
  | boolean =>
    have same := Except.ok.inj (ha.trans hb.symm)
    cases a <;> cases b
    · rfl
    · exact absurd same (by decide)
    · exact absurd same (by decide)
    · rfl
  | int64 => exact Int64.toInt_inj.mp (toString_int_inj.mp (Except.ok.inj (ha.trans hb.symm)))
  | float64 => exact absurd rfl notFloat
  | decimal scale => exact FixedPoint.text?_inj (eq_some_of_text ha) (eq_some_of_text hb)
  | string => exact Except.ok.inj (ha.trans hb.symm)
  | bytes => exact Hex.ofBytes_inj (Except.ok.inj (ha.trans hb.symm))
  | date => exact Int32.toInt_inj.mp (Date.textOfDays?_inj (eq_some_of_text ha) (eq_some_of_text hb))
  | timestamp =>
    exact Int64.toInt_inj.mp (Instant.text?_inj (eq_some_of_text ha) (eq_some_of_text hb))

theorem sameCell_iff {t : FieldType} (notFloat : t ≠ .float64) {a b : t.Cell} :
    t.sameCell a b = true ↔ a = b := by
  cases t with
  | float64 => exact absurd rfl notFloat
  | _ => simp [sameCell]

end FieldType

/-! ## Values of cells -/

namespace Column

/-- The value of a cell, with its type; a null and a row past the end have none. -/
def value? (c : Column) (row : Nat) : Option ((t : FieldType) × t.Cell) :=
  (c.cells[row]?).join.map (⟨c.type, ·⟩)

theorem text?_eq_some_iff {c : Column} {row : Nat} {s : String} :
    c.text? row = .ok (some s) ↔
      ∃ value, (c.cells[row]?).join = some value ∧ c.type.cellText value = .ok s := by
  unfold text?
  cases (c.cells[row]?).join with
  | none => simp
  | some value => cases h : c.type.cellText value <;> simp [h]

theorem isSome_of_text? {c : Column} {row : Nat} {text : Option String} (h : c.text? row = .ok text) :
    text.isSome = (c.value? row).isSome := by
  unfold text? at h
  unfold value?
  cases held : (c.cells[row]?).join with
  | none =>
    rw [held] at h
    cases h
    rfl
  | some value =>
    rw [held] at h
    simp only [Option.map_some, Option.isSome_some]
    cases written : c.type.cellText value with
    | error fault => simp [written] at h
    | ok s =>
      simp only [written, Except.ok.injEq] at h
      rw [← h, Option.isSome_some]

/-- Cells of columns of one type have the same text exactly if they hold the same value. -/
theorem text_eq_iff {c d : Column} (sameType : c.type = d.type) (notFloat : c.type ≠ .float64)
    {i j : Nat} {s s' : String} (hs : c.text? i = .ok (some s)) (hs' : d.text? j = .ok (some s')) :
    s = s' ↔ c.value? i = d.value? j := by
  obtain ⟨type, cells⟩ := c
  obtain ⟨type', cells'⟩ := d
  obtain rfl : type = type' := sameType
  obtain ⟨value, held, text⟩ := text?_eq_some_iff.mp hs
  obtain ⟨value', held', text'⟩ := text?_eq_some_iff.mp hs'
  have values : value? ⟨type, cells⟩ i = value? ⟨type, cells'⟩ j ↔ value = value' := by
    simp [value?, held, held']
  rw [values]
  refine ⟨?_, ?_⟩
  · intro same
    exact FieldType.cellText_inj notFloat text (same ▸ text')
  · intro same
    exact Except.ok.inj (text.symm.trans (same ▸ text'))

theorem same_iff {c d : Column} (notFloat : c.type ≠ .float64) : c.same d = true ↔ c = d := by
  obtain ⟨type, cells⟩ := c
  obtain ⟨type', cells'⟩ := d
  by_cases sameType : type' = type
  · subst sameType
    rw [same, dif_pos rfl, Bool.and_eq_true, beq_iff_eq, Array.all_eq_true]
    simp only [Column.mk.injEq, heq_eq_eq, true_and, Array.getElem_zip]
    refine ⟨?_, ?_⟩
    · rintro ⟨size, all⟩
      refine Array.ext size fun i hi hi' => ?_
      have here := all i (by rw [Array.size_zip]; exact Nat.lt_min.mpr ⟨hi, hi'⟩)
      generalize cells[i] = x at here ⊢
      generalize cells'[i] = y at here ⊢
      cases x with
      | none => cases y <;> simp_all
      | some a => cases y <;> simp_all [FieldType.sameCell_iff notFloat]
    · rintro rfl
      refine ⟨rfl, fun i hi => ?_⟩
      have bound : i < cells.size := by simpa using hi
      generalize cells[i] = x
      cases x with
      | none => rfl
      | some a => exact (FieldType.sameCell_iff notFloat).mpr rfl
  · rw [same, dif_neg sameType]
    simp [Ne.symm sameType]

theorem same_iff_texts {c d : Column} (sameType : c.type = d.type) (notFloat : c.type ≠ .float64)
    (rows : c.size = d.size) (readable : ∀ row < c.size, ∃ text, c.text? row = .ok text) :
    c.same d = true ↔ ∀ row < c.size, c.text? row = d.text? row := by
  rw [same_iff notFloat]
  refine ⟨fun same row _ => same ▸ rfl, fun texts => ?_⟩
  have values : ∀ row < c.size, c.value? row = d.value? row := by
    intro row hr
    obtain ⟨text, written⟩ := readable row hr
    have written' := (texts row hr).symm.trans written
    cases text with
    | some s => exact (text_eq_iff sameType notFloat written written').mp rfl
    | none =>
      have missing : c.value? row = none := by simpa using (isSome_of_text? written).symm
      have missing' : d.value? row = none := by simpa using (isSome_of_text? written').symm
      rw [missing, missing']
  obtain ⟨type, cells⟩ := c
  obtain ⟨type', cells'⟩ := d
  obtain rfl : type = type' := sameType
  have same : cells = cells' := by
    refine Array.ext rows fun i hi hi' => ?_
    have here := values i hi
    simpa [value?, hi, hi', Option.map_inj_right] using here
  rw [same]
end Column

namespace Batch

/-- The value under a name in a row, with its type; there is none if the name means no column. -/
def value? (b : Batch) (name : String) (row : Nat) : Option ((t : FieldType) × t.Cell) :=
  (b.column? name).bind (·.value? row)

theorem cell?_eq_some_iff {b : Batch} {name : String} {row : Nat} {s : String} :
    b.cell? name row = some s ↔
      ∃ c, b.column? name = some c ∧ c.text? row = .ok (some s) := by
  simp only [cell?, Column.cell?, Option.bind_eq_some_iff, Option.join_eq_some_iff,
    toOption_eq_some_iff]

theorem isSome_value?_of_cell? {b : Batch} {name : String} {row : Nat}
    (h : (b.cell? name row).isSome) : (b.value? name row).isSome := by
  obtain ⟨s, cell⟩ := Option.isSome_iff_exists.mp h
  obtain ⟨c, found, text⟩ := cell?_eq_some_iff.mp cell
  obtain ⟨value, held, -⟩ := Column.text?_eq_some_iff.mp text
  simp [value?, found, Column.value?, held]

theorem isSome_cell?_of_readable {b : Batch} {name : String} {row : Nat} (readable : b.Readable name row)
    (h : (b.value? name row).isSome) : (b.cell? name row).isSome := by
  obtain ⟨value, hvalue⟩ := Option.isSome_iff_exists.mp h
  obtain ⟨c, found, held⟩ := Option.bind_eq_some_iff.mp hvalue
  obtain ⟨text, ok⟩ := readable c found
  have some_text : text.isSome := by
    rw [Column.isSome_of_text? ok, held, Option.isSome_some]
  rw [cell?, found, Option.bind_some, Column.cell?, ok]
  exact some_text

theorem keyReadable_of_readable {b : Batch} {names : List String} {row : Nat}
    (readable : ∀ n ∈ names, b.Readable n row) : b.KeyReadable names row := by
  intro before name after split _
  exact readable name (by simp [split])

theorem isSome_cell?_of_keyReadable {b : Batch} {names : List String} {row : Nat}
    (readable : b.KeyReadable names row) (values : ∀ n ∈ names, (b.value? n row).isSome) :
    ∀ n ∈ names, (b.cell? n row).isSome := by
  induction names with
  | nil => simp
  | cons name rest ih =>
    obtain ⟨head, tail⟩ := keyReadable_cons.mp readable
    obtain ⟨value, values⟩ := List.forall_mem_cons.mp values
    have first := isSome_cell?_of_readable head value
    exact List.forall_mem_cons.mpr ⟨first, ih (tail first) values⟩

end Batch

/-! ## Rows with the same values -/

/-- Every condition compares two columns of one type, and doubles are not compared. -/
def Comparable (child parent : Batch) (conditions : List JoinCondition) : Prop :=
  ∀ j ∈ conditions, ∃ c d, child.column? j.childColumn = some c ∧
    parent.column? j.parentColumn = some d ∧ c.type = d.type ∧ c.type ≠ .float64

/-- Under every condition, both rows hold a value, and the same one. -/
def SameValues (child parent : Batch) (conditions : List JoinCondition) (c p : Nat) : Prop :=
  ∀ j ∈ conditions, (child.value? j.childColumn c).isSome ∧
    child.value? j.childColumn c = parent.value? j.parentColumn p

section Tables

variable {C P : Batch} {conditions : List JoinCondition}

theorem Comparable.isSome_child (comparable : Comparable C P conditions) {j : JoinCondition}
    (hj : j ∈ conditions) : (C.column? j.childColumn).isSome := by
  obtain ⟨c, d, hc, -⟩ := comparable j hj
  rw [hc, Option.isSome_some]

theorem Comparable.isSome_parent (comparable : Comparable C P conditions) {j : JoinCondition}
    (hj : j ∈ conditions) : (P.column? j.parentColumn).isSome := by
  obtain ⟨c, d, -, hd, -⟩ := comparable j hj
  rw [hd, Option.isSome_some]

theorem Comparable.cell_eq_iff (comparable : Comparable C P conditions) {j : JoinCondition}
    (hj : j ∈ conditions) {c p : Nat} (child : (C.cell? j.childColumn c).isSome)
    (parent : (P.cell? j.parentColumn p).isSome) :
    C.cell? j.childColumn c = P.cell? j.parentColumn p ↔
      C.value? j.childColumn c = P.value? j.parentColumn p := by
  obtain ⟨s, hs⟩ := Option.isSome_iff_exists.mp child
  obtain ⟨s', hs'⟩ := Option.isSome_iff_exists.mp parent
  obtain ⟨column, found, text⟩ := Batch.cell?_eq_some_iff.mp hs
  obtain ⟨column', found', text'⟩ := Batch.cell?_eq_some_iff.mp hs'
  obtain ⟨d, d', hd, hd', sameType, notFloat⟩ := comparable j hj
  obtain rfl : column = d := Option.some.inj (found.symm.trans hd)
  obtain rfl : column' = d' := Option.some.inj (found'.symm.trans hd')
  rw [hs, hs', Option.some.injEq, Column.text_eq_iff sameType notFloat text text']
  simp only [Batch.value?, found, found', Option.bind_some]

/-- Two rows whose keys can be made match exactly if they hold the same values. -/
theorem matched_iff_sameValues (comparable : Comparable C P conditions) {c p : Nat}
    (child : C.KeyReadable (conditions.map (·.childColumn)) c)
    (parent : P.KeyReadable (conditions.map (·.parentColumn)) p) :
    Matched C P conditions c p ↔ SameValues C P conditions c p := by
  refine ⟨?_, ?_⟩
  · intro matched j hj
    obtain ⟨cell, same⟩ := matched j hj
    exact ⟨Batch.isSome_value?_of_cell? cell, (comparable.cell_eq_iff hj cell (same ▸ cell)).mp same⟩
  · intro values j hj
    have cells := Batch.isSome_cell?_of_keyReadable child (by
      simpa using fun j hj => (values j hj).1)
    have cells' := Batch.isSome_cell?_of_keyReadable parent (by
      simpa using fun j hj => (values j hj).2 ▸ (values j hj).1)
    have cell := cells _ (List.mem_map_of_mem hj)
    have cell' := cells' _ (List.mem_map_of_mem hj)
    exact ⟨cell, (comparable.cell_eq_iff hj cell cell').mpr (values j hj).2⟩

end Tables

/-! ## Joins -/

namespace Connection

variable {k : Connection} {child parent : Selection} {conditions : List JoinCondition} {C P : Batch}
  (childTable : k.table child.table = .ok C) (parentTable : k.table parent.table = .ok P)
  (comparable : Comparable C P conditions)

include childTable parentTable comparable

theorem exists_join_of_readable (some_condition : conditions ≠ [])
    (childColumns : ∀ n ∈ child.columns, (C.column? n).isSome)
    (parentColumns : ∀ n ∈ parent.columns, (P.column? n).isSome)
    (readable : ∀ j ∈ conditions, (∀ row < C.numRows, C.Readable j.childColumn row) ∧
      ∀ row < P.numRows, P.Readable j.parentColumn row) :
    ∃ b, k.join child parent conditions = .ok b := by
  obtain ⟨left, hl⟩ := Batch.project_ok_iff.mpr childColumns
  obtain ⟨right, hr⟩ := Batch.project_ok_iff.mpr parentColumns
  have there : Joinable C P child.columns parent.columns conditions := {
    childColumns, parentColumns
    childConditions := fun j hj => comparable.isSome_child hj
    parentConditions := fun j hj => comparable.isSome_parent hj
    childKeys := fun row hrow => Batch.keyReadable_of_readable (by
      simpa using fun j hj => (readable j hj).1 row hrow)
    parentKeys := fun row hrow => Batch.keyReadable_of_readable (by
      simpa using fun j hj => (readable j hj).2 row hrow) }
  exact ⟨_, join_eq_ok_iff.mpr ⟨some_condition, C, P, table_eq_ok_iff.mp childTable,
    table_eq_ok_iff.mp parentTable, there, left, right, hl, hr, rfl⟩⟩

theorem pairs_of_join {b : Batch} (answered : k.join child parent conditions = .ok b) :
    ∃ (pairs : List (Nat × Nat)) (left right : Batch),
      (∀ c p, (c, p) ∈ pairs ↔ c < C.numRows ∧ p < P.numRows ∧ SameValues C P conditions c p) ∧
      pairs.Nodup ∧ C.project child.columns = .ok left ∧ P.project parent.columns = .ok right ∧
      b = left.paired right pairs := by
  obtain ⟨-, C', P', hC, hP, there, left, right, hl, hr, rfl⟩ := join_eq_ok_iff.mp answered
  cases (table_eq_ok_iff.mpr hC).symm.trans childTable
  cases (table_eq_ok_iff.mpr hP).symm.trans parentTable
  refine ⟨matchedPairs C P conditions, left, right, ?_, nodup_matchedPairs, hl, hr, rfl⟩
  intro c p
  rw [mem_matchedPairs]
  refine and_congr_right fun hc => and_congr_right fun hp => ?_
  exact matched_iff_sameValues comparable (there.childKeys c hc) (there.parentKeys p hp)

end Connection

/-- **Keys compare values.** Cells of columns of one type other than the doubles have the same text
exactly if they hold the same value; so such columns, if their cells can be read, are the same exactly if
their texts are. A join on such columns is answered if there is a condition, every
column that is asked for is there and every key cell that is no null has a text; and whenever it is answered,
it pairs exactly the rows that hold the same values under all conditions, none of them null, each pair
once. -/
theorem keys_compare_values :
    (∀ (c d : Column) (i j : Nat) (s s' : String), c.type = d.type → c.type ≠ .float64 →
      c.text? i = .ok (some s) → d.text? j = .ok (some s') → (s = s' ↔ c.value? i = d.value? j)) ∧
    (∀ c d : Column, c.type = d.type → c.type ≠ .float64 → c.size = d.size →
      (∀ row < c.size, ∃ text, c.text? row = .ok text) →
      ((c.same d ↔ c = d) ∧ (c.same d ↔ ∀ row < c.size, c.text? row = d.text? row))) ∧
    ∀ (k : Connection) (child parent : Selection) (conditions : List JoinCondition) (C P : Batch),
      k.table child.table = .ok C → k.table parent.table = .ok P → Comparable C P conditions →
      (conditions ≠ [] → (∀ n ∈ child.columns, (C.column? n).isSome) →
        (∀ n ∈ parent.columns, (P.column? n).isSome) →
        (∀ j ∈ conditions, (∀ row < C.numRows, C.Readable j.childColumn row) ∧
          ∀ row < P.numRows, P.Readable j.parentColumn row) →
        ∃ b, k.join child parent conditions = .ok b) ∧
      ∀ b, k.join child parent conditions = .ok b → ∃ (pairs : List (Nat × Nat)) (left right : Batch),
        (∀ c p, (c, p) ∈ pairs ↔ c < C.numRows ∧ p < P.numRows ∧ SameValues C P conditions c p) ∧
        pairs.Nodup ∧ C.project child.columns = .ok left ∧ P.project parent.columns = .ok right ∧
        b = left.paired right pairs := by
  refine ⟨?_, ?_, ?_⟩
  · intro c d i j s s' sameType notFloat hs hs'
    exact Column.text_eq_iff sameType notFloat hs hs'
  · intro c d sameType notFloat rows readable
    exact ⟨Column.same_iff notFloat, Column.same_iff_texts sameType notFloat rows readable⟩
  · intro k child parent conditions C P childTable parentTable comparable
    refine ⟨?_, ?_⟩
    · exact Connection.exists_join_of_readable childTable parentTable comparable
    · intro b answered
      exact Connection.pairs_of_join childTable parentTable comparable answered

def offers : Batch :=
  ⟨[⟨⟨"price", .decimal 2, true⟩, ⟨.decimal 2, #[Int128.ofInt? (-5), none, Int128.ofInt? 150]⟩⟩,
    ⟨⟨"day", .date, false⟩, ⟨.date, #[some (-1), some 0, some 0]⟩⟩], 3⟩

def bids : Batch :=
  ⟨[⟨⟨"limit", .decimal 2, false⟩,
      ⟨.decimal 2, #[Int128.ofInt? 150, Int128.ofInt? 5, Int128.ofInt? (-5)]⟩⟩,
    ⟨⟨"date", .date, false⟩, ⟨.date, #[some 0, some (-1), some (-1)]⟩⟩], 3⟩

def market : Connection := ⟨"db", [("offers", offers), ("bids", bids)]⟩

/-- Offers and bids of one price and one day meet; the sign of a price counts, and an offer without a price
meets no bid. -/
theorem keys_compare_prices :
    Column.value? ⟨.decimal 2, #[Int128.ofInt? 150]⟩ 0 =
        Column.value? ⟨.decimal 2, #[none, Int128.ofInt? 150]⟩ 1 ∧
      ∃ b, market.join ⟨.table "offers", ["day"]⟩ ⟨.table "bids", ["limit"]⟩
          [⟨"price", "limit"⟩, ⟨"day", "date"⟩] = .ok b ∧
        ∃ pairs : List (Nat × Nat), (∃ left right, b = Batch.paired left right pairs) ∧
          (0, 2) ∈ pairs ∧ (2, 0) ∈ pairs ∧ (0, 1) ∉ pairs ∧ ∀ p, (1, p) ∉ pairs := by
  have comparable : Comparable offers bids [⟨"price", "limit"⟩, ⟨"day", "date"⟩] := by
    intro j hj
    simp only [List.mem_cons, List.not_mem_nil, or_false] at hj
    rcases hj with rfl | rfl
    · exact ⟨_, _, rfl, rfl, rfl, by decide⟩
    · exact ⟨_, _, rfl, rfl, rfl, by decide⟩
  obtain ⟨answers, pairsOf⟩ := keys_compare_values.2.2 market ⟨.table "offers", ["day"]⟩
    ⟨.table "bids", ["limit"]⟩ [⟨"price", "limit"⟩, ⟨"day", "date"⟩] offers bids rfl rfl comparable
  have readable : ∀ j ∈ [JoinCondition.mk "price" "limit", ⟨"day", "date"⟩],
      (∀ row < offers.numRows, (offers.column? j.childColumn).all fun column =>
        (column.text? row).toOption.isSome) ∧
      ∀ row < bids.numRows, (bids.column? j.parentColumn).all fun column =>
        (column.text? row).toOption.isSome := by
    decide
  obtain ⟨b, answered⟩ := answers (by simp) (by decide) (by decide) (fun j hj =>
    ⟨fun row hrow => Batch.readable_of_all ((readable j hj).1 row hrow),
      fun row hrow => Batch.readable_of_all ((readable j hj).2 row hrow)⟩)
  obtain ⟨pairs, left, right, paired, -, -, -, rfl⟩ := pairsOf b answered
  refine ⟨?_, _, answered, pairs, ⟨left, right, rfl⟩, ?_, ?_, ?_, ?_⟩
  · have texts : Column.text? ⟨.decimal 2, #[Int128.ofInt? 150]⟩ 0 = .ok (some "1.50") := by decide
    have texts' : Column.text? ⟨.decimal 2, #[none, Int128.ofInt? 150]⟩ 1 = .ok (some "1.50") := by decide
    exact (keys_compare_values.1 ⟨.decimal 2, #[Int128.ofInt? 150]⟩
      ⟨.decimal 2, #[none, Int128.ofInt? 150]⟩ 0 1 _ _ rfl (by decide) texts texts').mp rfl
  · exact (paired 0 2).mpr ⟨by decide, by decide, by simpa [SameValues] using ⟨⟨rfl, rfl⟩, rfl, rfl⟩⟩
  · exact (paired 2 0).mpr ⟨by decide, by decide, by simpa [SameValues] using ⟨⟨rfl, rfl⟩, rfl, rfl⟩⟩
  · intro found
    have prices := (((paired 0 1).mp found).2.2 ⟨"price", "limit"⟩ (by simp)).2
    have texts := congrArg (Option.map fun v => (v.1.cellText v.2).toOption) prices
    exact absurd texts (by decide)
  · intro p found
    have price := (((paired 1 p).mp found).2.2 ⟨"price", "limit"⟩ (by simp)).1
    exact absurd price (by decide)

end RdfMapping
