import Mathlib.Logic.Relation
import RdfMapping.Proofs.Table.Layout

/-!
Operations on batches, one after the other.

An operation takes a batch, and possibly one more, and gives batches, or fails, or gives nothing where a
bound is missed. On layouts that are well formed nothing is missed and only such layouts are given
(`sound_perform`), and so it goes on through any number of operations (`sound_reached`). What is done on
the layouts of batches is what is done on the batches (`perform_layout`), so the fields, columns and
counts of batches always agree (`representation_invariant`).
-/

namespace RdfMapping

/-- What is done with a batch, and with which other one. -/
inductive Operation (β : Type) where
  | project (names : List String)
  | slice (offset length : Nat)
  | chunks (size : Nat)
  | withLead (lead : String)
  | beside (other : β)
  | decimalsToFloat
  | gather (indices : List Nat)

def Operation.map {β γ : Type} (f : β → γ) : Operation β → Operation γ
  | project names => .project names
  | slice offset length => .slice offset length
  | chunks size => .chunks size
  | withLead lead => .withLead lead
  | beside other => .beside (f other)
  | decimalsToFloat => .decimalsToFloat
  | gather indices => .gather indices

def Batch.perform (b : Batch) : Operation Batch → Option (Except TableError (List Batch))
  | .project names => some ((b.project names).map ([·]))
  | .slice offset length => some (.ok [b.slice offset length])
  | .chunks size => some (.ok (b.chunks size))
  | .withLead lead => some (.ok [b.withLead lead])
  | .beside other => some ((b.beside other).map ([·]))
  | .decimalsToFloat => some (.ok [b.decimalsToFloat])
  | .gather indices => (b.gather? indices).map fun c => .ok [c]

namespace Layout

def perform (t : Layout) : Operation Layout → Option (Except TableError (List Layout))
  | .project names => (t.project? names).map fun found => found.map ([·])
  | .slice offset length => (t.cut? offset length).map fun u => .ok [u]
  | .chunks size => (t.chunks? size).map .ok
  | .withLead lead => some (.ok [t.withLead lead])
  | .beside other => some ((t.beside other).map ([·]))
  | .decimalsToFloat => some (.ok [t.decimalsToFloat])
  | .gather indices => (t.gather? indices).map fun u => .ok [u]

/-- A well-formed layout whose rows can be counted, and whose columns, if they are to be typed, have the
types of their fields. -/
structure Sound (typed : Prop) (t : Layout) : Prop where
  wellFormed : t.WellFormed
  fits : t.numRows ≤ maxWord
  types : typed → t.WellTyped

/-- What may be asked of a layout when others are at hand: to put one of these beside it, and to gather
rows that it has, as many as can be counted. -/
def Allows (bench : List Layout) (t : Layout) : Operation Layout → Prop
  | .beside other => other ∈ bench
  | .gather indices => indices.length ≤ maxWord ∧ ∀ i ∈ indices, i < t.numRows
  | _ => True

inductive Step (bench : List Layout) : List Layout → Prop
  | add {t op made} (here : t ∈ bench) (allowed : Allows bench t op)
      (done : t.perform op = some (.ok made)) : Step bench (bench ++ made)

/-- Layouts that can be at hand after operations on those of the start. -/
def Reached : List Layout → List Layout → Prop := Relation.ReflTransGen Step

section Steps

variable {typed : Prop} {t other : Layout} {bench : List Layout}

theorem sound_ofParts {fields : List Field} {columns : List Column} {numRows : Nat}
    (count : columns.length = fields.length) (rows : ∀ c ∈ columns, c.size = numRows)
    (fits : numRows ≤ maxWord)
    (types : typed → columns.map (·.type) = fields.map (·.type)) :
    (ofParts fields columns numRows).Sound typed :=
  ⟨ofParts_wellFormed count rows, fits, types⟩

theorem sound_rows (h : t.Sound typed) {g : Column → Column} {numRows : Nat}
    (rows : ∀ c ∈ t.columns, (g c).size = numRows) (fits : numRows ≤ maxWord)
    (types : ∀ c, (g c).type = c.type) :
    Sound typed { t with columns := t.columns.map g, numRows := numRows } where
  wellFormed := {
    count := by
      rw [List.length_map]
      exact h.wellFormed.count
    rows := by
      intro c hc
      obtain ⟨d, hd, rfl⟩ := List.mem_map.mp hc
      exact rows d hd
    positions := by
      intro name i found
      rw [List.length_map]
      exact h.wellFormed.positions name i found }
  fits := fits
  types := by
    intro ht
    rw [WellTyped, List.map_map, ← h.types ht]
    exact List.map_congr_left fun c _ => types c

theorem sound_cut (h : t.Sound typed) (offset length : Nat) :
    ∃ u, t.cut? offset length = some u ∧ u.Sound typed := by
  refine ⟨_, cut?_eq h.wellFormed h.fits offset length, sound_rows h ?_ ?_ fun _ => rfl⟩
  · intro c hc
    rw [Column.size_slice, h.wellFormed.rows c hc, Nat.min_comm]
  · have := h.fits
    omega

theorem sound_chunks (h : t.Sound typed) (size : Nat) :
    ∃ chunks, t.chunks? size = some chunks ∧ ∀ u ∈ chunks, u.Sound typed := by
  rw [chunks?_eq]
  have cuts : ((List.range (Batch.chunkCount t.numRows (Batch.chunkStep size))).mapM fun k =>
      t.cut? (k * Batch.chunkStep size) (Batch.chunkStep size)).isSome := by
    refine isSome_mapM_iff.mpr fun k _ => ?_
    obtain ⟨u, cut, -⟩ := sound_cut h (k * Batch.chunkStep size) (Batch.chunkStep size)
    rw [cut, Option.isSome_some]
  obtain ⟨chunks, all⟩ := Option.isSome_iff_exists.mp cuts
  refine ⟨chunks, all, fun u hu => ?_⟩
  obtain ⟨k, -, cut⟩ := (mem_of_mapM all).mp hu
  obtain ⟨v, cut', sound⟩ := sound_cut h (k * Batch.chunkStep size) (Batch.chunkStep size)
  cases cut.symm.trans cut'
  exact sound

theorem sound_gather (h : t.Sound typed) {indices : List Nat} (few : indices.length ≤ maxWord)
    (there : ∀ i ∈ indices, i < t.numRows) :
    ∃ u, t.gather? indices = some u ∧ u.Sound typed :=
  ⟨_, gather?_eq h.wellFormed there, sound_rows h (fun c _ => c.size_pick indices) few fun _ => rfl⟩

theorem sound_project (h : t.Sound typed) (names : List String) :
    ∃ found, t.project? names = some found ∧ ∀ u, found = .ok u → u.Sound typed := by
  obtain ⟨found, all, members⟩ := exists_entries? h.wellFormed names
  rw [project?, all]
  refine ⟨_, rfl, fun u hu => ?_⟩
  cases found with
  | error error => cases hu
  | ok entries =>
    cases hu
    refine sound_ofParts (by simp) ?_ h.fits ?_
    · intro c hc
      obtain ⟨e, he, rfl⟩ := List.mem_map.mp hc
      obtain ⟨i, -, column⟩ := members entries rfl e he
      exact h.wellFormed.rows _ (List.mem_of_getElem? column)
    · intro ht
      rw [List.map_map, List.map_map]
      refine List.map_congr_left fun e he => ?_
      obtain ⟨i, field, column⟩ := members entries rfl e he
      have same := congrArg (·[i]?) (h.types ht)
      simpa [field, column] using same

theorem sound_withLead (h : t.Sound typed) (lead : String) : (t.withLead lead).Sound typed := by
  refine sound_ofParts ?_ h.wellFormed.rows h.fits ?_
  · rw [List.length_map]
    exact h.wellFormed.count
  · intro ht
    rw [List.map_map]
    exact h.types ht

theorem sound_decimalsToFloat (h : t.Sound typed) : t.decimalsToFloat.Sound typed := by
  refine sound_ofParts ?_ ?_ h.fits ?_
  · rw [List.length_map, List.length_map]
    exact h.wellFormed.count
  · intro c hc
    obtain ⟨d, hd, rfl⟩ := List.mem_map.mp hc
    rw [Column.size_decimalsToFloat]
    exact h.wellFormed.rows d hd
  · intro ht
    have floats := congrArg (List.map FieldType.decimalsToFloat) (h.types ht)
    rw [List.map_map, List.map_map] at floats ⊢
    refine Eq.trans (List.map_congr_left fun c _ => ?_) floats
    exact c.type_decimalsToFloat

theorem sound_beside (h : t.Sound typed) (h' : other.Sound typed) {u : Layout}
    (both : t.beside other = .ok u) : u.Sound typed := by
  rw [beside] at both
  split at both
  · cases both
  · rename_i same
    have rows : t.numRows = other.numRows := not_not.mp same
    split at both
    · cases both
    · cases both
      refine sound_ofParts ?_ ?_ h.fits ?_
      · rw [List.length_append, List.length_append, h.wellFormed.count, h'.wellFormed.count]
      · intro c hc
        rcases List.mem_append.mp hc with hc | hc
        · exact h.wellFormed.rows c hc
        · exact rows ▸ h'.wellFormed.rows c hc
      · intro ht
        rw [List.map_append, List.map_append, h.types ht, h'.types ht]

theorem sound_one {v : Layout} (sound : v.Sound typed) :
    ∀ made, (.ok [v] : Except TableError (List Layout)) = .ok made → ∀ u ∈ made, u.Sound typed := by
  intro made eq u hu
  cases eq
  exact List.mem_singleton.mp hu ▸ sound

theorem sound_map_one {found : Except TableError Layout} (sound : ∀ v, found = .ok v → v.Sound typed) :
    ∀ made, found.map ([·]) = .ok made → ∀ u ∈ made, u.Sound typed := by
  cases found with
  | error error =>
    intro made eq
    cases eq
  | ok v => exact sound_one (sound v rfl)

/-- What may be asked of a sound layout is answered, with sound layouts or an error. -/
theorem sound_perform {op : Operation Layout} (h : t.Sound typed) (others : ∀ u ∈ bench, u.Sound typed)
    (allowed : Allows bench t op) : ∃ result, t.perform op = some result ∧
      ∀ made, result = .ok made → ∀ u ∈ made, u.Sound typed := by
  cases op with
  | project names =>
    obtain ⟨found, done, sound⟩ := sound_project h names
    rw [perform, done]
    exact ⟨_, rfl, sound_map_one sound⟩
  | slice offset length =>
    obtain ⟨u, done, sound⟩ := sound_cut h offset length
    rw [perform, done]
    exact ⟨_, rfl, sound_one sound⟩
  | chunks size =>
    obtain ⟨chunks, done, sound⟩ := sound_chunks h size
    rw [perform, done]
    exact ⟨_, rfl, fun _ eq => Except.ok.inj eq ▸ sound⟩
  | withLead lead => exact ⟨_, rfl, sound_one (sound_withLead h lead)⟩
  | beside other =>
    exact ⟨_, rfl, sound_map_one fun _ both => sound_beside h (others other allowed) both⟩
  | decimalsToFloat => exact ⟨_, rfl, sound_one (sound_decimalsToFloat h)⟩
  | gather indices =>
    obtain ⟨u, done, sound⟩ := sound_gather h allowed.1 allowed.2
    rw [perform, done]
    exact ⟨_, rfl, sound_one sound⟩

theorem sound_reached {start : List Layout} (sound : ∀ t ∈ start, t.Sound typed)
    (h : Reached start bench) : ∀ t ∈ bench, t.Sound typed := by
  induction h with
  | refl => exact sound
  | tail _ step ih =>
    -- what was at hand stays as it was, and what an operation on it adds is sound
    obtain ⟨here, allowed, done⟩ := step
    intro u hu
    rcases List.mem_append.mp hu with old | new
    · exact ih u old
    · obtain ⟨result, done', given⟩ := sound_perform (ih _ here) ih allowed
      cases done.symm.trans done'
      exact given _ rfl u new

end Steps

end Layout

namespace Batch

/-- What is done on the layout of a batch is what is done on the batch. -/
theorem perform_layout {b : Batch} (h : b.WellFormed) (fits : b.numRows ≤ maxWord) (op : Operation Batch) :
    b.layout.perform (op.map layout) = (b.perform op).map (Except.map (List.map layout)) := by
  cases op with
  | project names =>
    rw [Operation.map, Layout.perform, project?_layout, perform]
    cases b.project names <;> rfl
  | slice offset length =>
    rw [Operation.map, Layout.perform, cut?_layout h fits]
    rfl
  | chunks size =>
    rw [Operation.map, Layout.perform, chunks?_layout h fits]
    rfl
  | withLead lead =>
    rw [Operation.map, Layout.perform, withLead_layout]
    rfl
  | beside other =>
    rw [Operation.map, Layout.perform, beside_layout, perform]
    cases b.beside other <;> rfl
  | decimalsToFloat =>
    rw [Operation.map, Layout.perform, decimalsToFloat_layout]
    rfl
  | gather indices =>
    rw [Operation.map, Layout.perform, gather?_layout, perform]
    cases b.gather? indices <;> rfl

end Batch

/-! ## Batches that are built -/

namespace Layout

theorem firstOfOtherSize?_eq_none_iff (expected index : Nat) (columns : List Column) :
    Batch.firstOfOtherSize? expected index columns = none ↔ ∀ c ∈ columns, c.size = expected := by
  induction columns generalizing index with
  | nil => simp [Batch.firstOfOtherSize?]
  | cons c rest ih =>
    rw [Batch.firstOfOtherSize?, List.forall_mem_cons]
    split
    · rename_i same
      rw [ih, and_iff_right same]
    · rename_i other
      simp [other]

theorem ofColumns_eq_ok_iff {s : Schema} {columns : List Column} {t : Layout} :
    ofColumns s columns = .ok t ↔ columns.length = s.fields.length ∧
      (∀ c ∈ columns, c.size = (columns.head?.map Column.size).getD 0) ∧
      t = ⟨s.fields, s.positions, columns, (columns.head?.map Column.size).getD 0⟩ := by
  rw [ofColumns, ← firstOfOtherSize?_eq_none_iff _ 0]
  by_cases count : s.fields.length = columns.length
  · rw [if_neg (not_not.mpr count), and_iff_right count.symm]
    dsimp only
    cases Batch.firstOfOtherSize? ((columns.head?.map Column.size).getD 0) 0 columns with
    | none => simp [eq_comm]
    | some other => simp
  · rw [if_pos count]
    simp [Ne.symm count]

/-- What is checked are the columns: the rest is well formed exactly if the schema is. -/
theorem ofColumns_wellFormed_iff {s : Schema} {columns : List Column} {t : Layout}
    (h : ofColumns s columns = .ok t) : t.WellFormed ↔ s.Bounded := by
  obtain ⟨count, rows, rfl⟩ := ofColumns_eq_ok_iff.mp h
  exact ⟨fun formed name i found => count ▸ formed.positions name i found,
    fun bounded => ⟨count, rows, fun name i found => count ▸ bounded name i found⟩⟩

theorem empty_wellFormed_iff (s : Schema) : (empty s).WellFormed ↔ s.Bounded := by
  have count : (empty s).columns.length = s.fields.length := List.length_map _
  refine ⟨fun formed name i found => count ▸ formed.positions name i found, fun bounded => ?_⟩
  refine ⟨count, fun c hc => ?_, fun name i found => count ▸ bounded name i found⟩
  obtain ⟨f, -, rfl⟩ := List.mem_map.mp hc
  rfl

theorem ofStringRows_wellFormed {names : List String} {rows : List (List (Option String))} {t : Layout}
    (h : ofStringRows names rows = .ok t) : t.WellFormed := by
  unfold ofStringRows at h
  split at h
  · cases h
  · exact (ofColumns_wellFormed_iff h).mpr (Schema.noted_ofFields _).bounded

end Layout

namespace Batch

theorem layout_ofColumns (fields : List Field) (columns : List Column) :
    Layout.ofColumns (.ofFields fields) columns = (ofColumns fields columns).map layout := by
  unfold ofColumns Layout.ofColumns Schema.ofFields
  by_cases count : fields.length = columns.length
  · simp only [count, ne_eq, not_true_eq_false, if_false]
    cases firstOfOtherSize? ((columns.head?.map Column.size).getD 0) 0 columns with
    | some other => rfl
    | none =>
      have own : (fields.zipWith Entry.mk columns).map (·.field) = fields := by
        rw [← List.map_uncurry_zip_eq_zipWith, List.map_map]
        exact List.map_fst_zip (Nat.le_of_eq count)
      have held : (fields.zipWith Entry.mk columns).map (·.column) = columns := by
        rw [← List.map_uncurry_zip_eq_zipWith, List.map_map]
        exact List.map_snd_zip (Nat.le_of_eq count.symm)
      simp only [Except.map, layout, Layout.ofParts, Batch.fields, Batch.columns, own, held]
  · simp only [count, ne_eq, not_false_eq_true, if_true]
    rfl

theorem layout_empty (fields : List Field) :
    Layout.empty (.ofFields fields) = (empty fields).layout := by
  simp only [layout, Layout.ofParts, Layout.empty, empty, Schema.ofFields, Batch.fields, Batch.columns,
    List.map_map, Function.comp_def, List.map_id']

theorem layout_ofStringRows (names : List String) (rows : List (List (Option String))) :
    Layout.ofStringRows names rows = (ofStringRows names rows).map layout := by
  unfold ofStringRows Layout.ofStringRows
  cases firstOfOtherWidth? names.length 0 rows with
  | some other => rfl
  | none =>
    have long : ∀ cells : Nat → Column, (∀ index, (cells index).size = rows.length) →
        ((names.mapIdx fun index _ => cells index).head?.map Column.size).getD 0 =
          if names.isEmpty then 0 else rows.length := by
      intro cells sizes
      cases names with
      | nil => rfl
      | cons name rest => simp [sizes]
    refine Layout.ofColumns_eq_ok_iff.mpr ⟨by simp [Schema.ofFields], ?_, ?_⟩
    · intro c hc
      obtain ⟨i, hi, rfl⟩ := List.mem_mapIdx.mp hc
      have some_name : names.isEmpty = false := List.isEmpty_eq_false_iff.mpr (List.ne_nil_of_length_pos
        (Nat.lt_of_le_of_lt (Nat.zero_le i) hi))
      rw [long _ (by simp [Column.size]), some_name]
      simp [Column.size]
    · rw [long _ (by simp [Column.size])]
      -- position by position
      have own : ∀ column : Nat → Column, (names.mapIdx fun index name =>
          (⟨⟨name, .string, true⟩, column index⟩ : Entry)).map (·.field) =
            names.map fun name => ⟨name, .string, true⟩ :=
        fun _ => List.ext_getElem (by simp) (by simp)
      have held : ∀ column : Nat → Column, (names.mapIdx fun index name =>
          (⟨⟨name, .string, true⟩, column index⟩ : Entry)).map (·.column) =
            names.mapIdx fun index _ => column index :=
        fun _ => List.ext_getElem (by simp) (by simp)
      simp only [layout, Layout.ofParts, Schema.ofFields, Batch.fields, Batch.columns, own, held]

end Batch

/-- **The representation of batches.** Batches that are built are well formed. A layout that is built under
a schema is well formed exactly if the index of the schema is bounded by its fields, as it is if it is
that of their names, and with the fields of a batch it is the layout of the batch. From well-formed layouts
with as many rows as can be counted, no number of operations leads to another kind of layout, nor to one
where an operation that is allowed misses a bound; and columns that have the types of their fields keep
them. Gathering misses a bound exactly if there is a column and a row is past the end. And all this is
about batches: what is done on the layout of one is what is done on the batch. -/
theorem representation_invariant :
    (∀ fields columns b, Batch.ofColumns fields columns = .ok b → b.layout.WellFormed) ∧
    (∀ fields, (Batch.empty fields).layout.WellFormed) ∧
    (∀ names rows b, Batch.ofStringRows names rows = .ok b → b.layout.WellFormed) ∧
    (∀ start bench, (∀ t ∈ start, t.WellFormed ∧ t.numRows ≤ maxWord) → Layout.Reached start bench →
      ∀ t ∈ bench, t.WellFormed ∧ t.numRows ≤ maxWord ∧
        (∀ op, Layout.Allows bench t op → ∃ result, t.perform op = some result) ∧
        ((∀ u ∈ start, u.WellTyped) → t.WellTyped)) ∧
    (∀ t : Layout, t.WellFormed → ∀ indices, t.perform (.gather indices) = none ↔
      t.columns ≠ [] ∧ ∃ i ∈ indices, t.numRows ≤ i) ∧
    (∀ b : Batch, b.WellFormed → b.numRows ≤ maxWord → ∀ op : Operation Batch,
      b.layout.perform (op.map Batch.layout) =
        (b.perform op).map (Except.map (List.map Batch.layout))) ∧
    (∀ s : Schema, (∀ columns t, Layout.ofColumns s columns = .ok t → (t.WellFormed ↔ s.Bounded)) ∧
      ((Layout.empty s).WellFormed ↔ s.Bounded) ∧ (s.Noted → s.Bounded)) ∧
    (∀ fields columns, Layout.ofColumns (.ofFields fields) columns =
      (Batch.ofColumns fields columns).map Batch.layout) ∧
    (∀ fields, Layout.empty (.ofFields fields) = (Batch.empty fields).layout) ∧
    ∀ names rows, Layout.ofStringRows names rows =
      (Batch.ofStringRows names rows).map Batch.layout := by
  refine ⟨?_, ?_, ?_, ?_, ?_, fun b h fits op => Batch.perform_layout h fits op, ?_, ?_, ?_, ?_⟩
  · intro fields columns b h
    have built := Batch.layout_ofColumns fields columns
    rw [h] at built
    exact (Layout.ofColumns_wellFormed_iff built).mpr (Schema.noted_ofFields fields).bounded
  · intro fields
    rw [← Batch.layout_empty, Layout.empty_wellFormed_iff]
    exact (Schema.noted_ofFields fields).bounded
  · intro names rows b h
    have built := Batch.layout_ofStringRows names rows
    rw [h] at built
    exact Layout.ofStringRows_wellFormed built
  · intro start bench wellFormed reached
    have sound : ∀ t ∈ start, t.Sound (∀ u ∈ start, u.WellTyped) :=
      fun t ht => ⟨(wellFormed t ht).1, (wellFormed t ht).2, fun all => all t ht⟩
    have kept := Layout.sound_reached sound reached
    intro t ht
    refine ⟨(kept t ht).wellFormed, (kept t ht).fits, ?_, (kept t ht).types⟩
    intro op allowed
    obtain ⟨result, done, -⟩ := Layout.sound_perform (kept t ht) kept allowed
    exact ⟨result, done⟩
  · intro t h indices
    rw [Layout.perform, Option.map_eq_none_iff]
    exact Layout.gather?_eq_none_iff h indices
  · intro s
    exact ⟨fun columns t => Layout.ofColumns_wellFormed_iff, Layout.empty_wellFormed_iff s,
      Schema.Noted.bounded⟩
  · exact Batch.layout_ofColumns
  · exact Batch.layout_empty
  · exact Batch.layout_ofStringRows

def twoRows : Batch := ⟨[⟨⟨"id", .string, true⟩, ⟨.string, #[some "1", none]⟩⟩], 2⟩

theorem operations_on_twoRows : ∃ bench, Layout.Reached [twoRows.layout] bench ∧ bench.length = 4 ∧
    (∀ t ∈ bench, t.WellFormed ∧ t.WellTyped) ∧ twoRows.layout.perform (.gather [0, 2]) = none := by
  obtain ⟨-, -, -, kept, past, -⟩ := representation_invariant
  have wellFormed : twoRows.layout.WellFormed :=
    Batch.layout_wellFormed (by simp [twoRows, Batch.WellFormed, Column.size])
  have room : ∀ n, n ≤ 3 → n ≤ maxWord := by
    intro n hn
    exact Nat.le_trans hn (by decide)
  have start : ∀ t ∈ [twoRows.layout], t.WellFormed ∧ t.numRows ≤ maxWord := by
    intro t ht
    rw [List.mem_singleton.mp ht]
    exact ⟨wellFormed, room 2 (by decide)⟩
  have gather : Layout.Allows [twoRows.layout] twoRows.layout (.gather [1, 0, 1]) :=
    ⟨room 3 (by decide), by decide⟩
  have first := Layout.Step.add List.mem_cons_self gather rfl
  have reached : Layout.Reached [twoRows.layout] _ :=
    .tail (.tail (.single first)
      (@Layout.Step.add _ twoRows.layout (.slice maxWord maxWord) _ List.mem_cons_self trivial rfl))
      (@Layout.Step.add _ twoRows.layout (.withLead "x") _ List.mem_cons_self trivial rfl)
  refine ⟨_, reached, rfl, ?_, ?_⟩
  · intro t ht
    obtain ⟨formed, -, -, types⟩ := kept _ _ start reached t ht
    refine ⟨formed, types ?_⟩
    intro u hu
    rw [List.mem_singleton.mp hu]
    rfl
  · refine (past _ wellFormed _).mpr ⟨?_, 2, by simp, Nat.le_refl 2⟩
    exact List.cons_ne_nil _ _

end RdfMapping
