import Mathlib.Data.List.Nodup
import RdfMapping.Proofs.Names
import RdfMapping.Toml.Reader

/-!
No table that is read from a TOML document has a name twice.

`Toml.Distinct` says so of the tables in a value at any depth, and `Draft.Distinct` of the tables of a
document that is being read. A name enters a table when it is not there yet, and is replaced in its
place otherwise: `named_append` and `named_replace`. So what defines, extends or sets something at the
end of a path keeps the names distinct if it does so in the table there (`named_modify`), and so does
each reader. Finishing the drafts changes no name (`distinct_finish`), which gives `distinct_parse?`.
-/

namespace RdfMapping.Toml

/-- The names of a table are distinct, and its values have a property. -/
structure Named {α : Type} (P : α → Prop) (entries : List (String × α)) : Prop where
  names : (entries.map (·.1)).Nodup
  values : ∀ e ∈ entries, P e.2

/-- In each table of a value, at any depth, the names are distinct. -/
inductive Distinct : Toml → Prop where
  | string (s : String) : Distinct (.string s)
  | integer (n : Int) : Distinct (.integer n)
  | float (text : String) : Distinct (.float text)
  | bool (b : Bool) : Distinct (.bool b)
  | dateTime (text : String) : Distinct (.dateTime text)
  | array {items : List Toml} (each : ∀ v ∈ items, Distinct v) : Distinct (.array items)
  | table {entries : List (String × Toml)} (names : (entries.map (·.1)).Nodup)
      (each : ∀ e ∈ entries, Distinct e.2) : Distinct (.table entries)

theorem distinct_table_iff {entries : List (String × Toml)} :
    Distinct (.table entries) ↔ Named Distinct entries := by
  refine ⟨?_, ?_⟩
  · rintro (_ | _ | _ | _ | _ | _ | ⟨names, each⟩)
    exact ⟨names, each⟩
  · intro h
    exact .table h.names h.values

/-- The same of a document that is being read. -/
inductive Draft.Distinct : Draft → Prop where
  | value {v : Toml} (h : Toml.Distinct v) : Draft.Distinct (.value v)
  | table {implicit dotted : Bool} {entries : Drafts} (names : (entries.map (·.1)).Nodup)
      (each : ∀ e ∈ entries, Draft.Distinct e.2) : Draft.Distinct (.table implicit dotted entries)
  | tables {last : Drafts} {earlier : List Drafts}
      (names : ∀ entries ∈ last :: earlier, (entries.map (·.1)).Nodup)
      (each : ∀ entries ∈ last :: earlier, ∀ e ∈ entries, Draft.Distinct e.2) :
      Draft.Distinct (.tables last earlier)

namespace Draft

theorem distinct_table_iff {implicit dotted : Bool} {entries : Drafts} :
    Distinct (.table implicit dotted entries) ↔ Named Distinct entries := by
  refine ⟨?_, ?_⟩
  · rintro (_ | ⟨names, each⟩ | _)
    exact ⟨names, each⟩
  · intro h
    exact .table h.names h.values

theorem distinct_tables_iff {last : Drafts} {earlier : List Drafts} :
    Distinct (.tables last earlier) ↔ ∀ entries ∈ last :: earlier, Named Distinct entries := by
  refine ⟨?_, ?_⟩
  · rintro (_ | _ | ⟨names, each⟩)
    exact fun entries he => ⟨names entries he, each entries he⟩
  · intro h
    exact .tables (fun entries he => (h entries he).names) fun entries he => (h entries he).values

end Draft

/-! ## Entries that are added and replaced -/

section Named

variable {α : Type} {P : α → Prop} {entries : List (String × α)} {name : String} {x : α}

theorem named_nil : Named P ([] : List (String × α)) := ⟨List.nodup_nil, by simp⟩

theorem named_append (h : Named P entries) (new : entries.lookup name = none) (hx : P x) :
    Named P (entries ++ [(name, x)]) := by
  have fresh := lookup_eq_none_iff_not_mem.mp new
  refine ⟨?_, ?_⟩
  · rw [List.map_append, List.map_singleton, List.nodup_append]
    refine ⟨h.names, List.nodup_singleton name, ?_⟩
    intro a ha b hb same
    rw [same, List.mem_singleton.mp hb] at ha
    exact fresh ha
  · intro e he
    rcases List.mem_append.mp he with he | he
    · exact h.values e he
    · exact List.mem_singleton.mp he ▸ hx

theorem Named.of_lookup (h : Named P entries) (held : entries.lookup name = some x) : P x :=
  h.values (name, x) (mem_of_lookup held)

end Named

namespace Draft

variable {name : String} {entries entries' : Drafts} {d : Draft}

theorem named_replace (h : Named Distinct entries) (hd : d.Distinct) :
    Named Distinct (replace name d entries) := by
  refine ⟨?_, ?_⟩
  · have same : (replace name d entries).map (·.1) = entries.map (·.1) := by
      rw [replace, List.map_map]
      refine List.map_congr_left fun e _ => ?_
      by_cases place : e.1 = name <;> simp [place]
    rw [same]
    exact h.names
  · intro e he
    obtain ⟨old, ho, rfl⟩ := List.mem_map.mp he
    by_cases place : old.1 = name
    · rw [if_pos place]
      exact hd
    · rw [if_neg place]
      exact h.values old ho

/-- A change of the table at the end of a path keeps all names distinct if it keeps those of that
table distinct: by induction on the path, as what it leads through is added or replaced. -/
theorem named_modify {byDots : Bool} {change : Bool → Drafts → Option Drafts}
    (keeps : ∀ dotted entries entries', change dotted entries = some entries' →
      Named Distinct entries → Named Distinct entries')
    {path : List String} {dotted : Bool} (h : modify byDots change path dotted entries = some entries')
    (named : Named Distinct entries) : Named Distinct entries' := by
  induction path generalizing dotted entries entries' with
  | nil => exact keeps dotted entries entries' h named
  | cons name path ih =>
    rw [modify] at h
    -- the name is new, a value, a table to go into, or an array whose last table is meant
    split at h
    · rename_i new
      obtain ⟨inner, changed, rfl⟩ := Option.map_eq_some_iff.mp h
      exact named_append named new (distinct_table_iff.mpr (ih changed named_nil))
    · cases h
    · rename_i held
      split at h
      · cases h
      · obtain ⟨inner, changed, rfl⟩ := Option.map_eq_some_iff.mp h
        have before := distinct_table_iff.mp (named.of_lookup held)
        exact named_replace named (distinct_table_iff.mpr (ih changed before))
    · rename_i last earlier held
      obtain ⟨inner, changed, rfl⟩ := Option.map_eq_some_iff.mp h
      have before := List.forall_mem_cons.mp (distinct_tables_iff.mp (named.of_lookup held))
      exact named_replace named (distinct_tables_iff.mpr
        (List.forall_mem_cons.mpr ⟨ih changed before.1, before.2⟩))

theorem named_assign {path : List String} {v : Toml} (hv : v.Distinct)
    (h : assign path name v entries = some entries') (named : Named Distinct entries) :
    Named Distinct entries' := by
  refine named_modify ?_ h named
  intro dotted entries entries' set named
  rw [Draft.set] at set
  split at set
  · cases set
  · split at set
    · rename_i new
      cases set
      exact named_append named new (.value hv)
    · cases set

theorem named_define (h : define name entries = some entries') (named : Named Distinct entries) :
    Named Distinct entries' := by
  rw [define] at h
  split at h
  · rename_i new
    cases h
    exact named_append named new (distinct_table_iff.mpr named_nil)
  · rename_i held
    cases h
    exact named_replace named
      (distinct_table_iff.mpr (distinct_table_iff.mp (named.of_lookup held)))
  · cases h

theorem named_appendTable (h : append name entries = some entries')
    (named : Named Distinct entries) : Named Distinct entries' := by
  rw [append] at h
  split at h
  · rename_i new
    cases h
    exact named_append named new (distinct_tables_iff.mpr (by simp [named_nil]))
  · rename_i held
    cases h
    have before := distinct_tables_iff.mp (named.of_lookup held)
    exact named_replace named
      (distinct_tables_iff.mpr (List.forall_mem_cons.mpr ⟨named_nil, before⟩))
  · cases h

/-! ## Finished tables -/

theorem map_fst_finishEntries (entries : Drafts) :
    (finishEntries entries).map (·.1) = entries.map (·.1) := by
  induction entries with
  | nil => rfl
  | cons e rest ih => rw [finishEntries, List.map_cons, List.map_cons, ih]

mutual

theorem distinct_finish : ∀ {d : Draft}, d.Distinct → (finish d).Distinct
  | .value _, .value h => by
    rw [finish]
    exact h
  | .table _ _ entries, .table names each => by
    rw [finish]
    exact .table (map_fst_finishEntries entries ▸ names) (distinct_finishEntries each)
  | .tables last earlier, .tables names each => by
    rw [finish]
    obtain ⟨lastNames, names⟩ := List.forall_mem_cons.mp names
    obtain ⟨lastEach, each⟩ := List.forall_mem_cons.mp each
    have done : Toml.Distinct (.table (finishEntries last)) :=
      .table (map_fst_finishEntries last ▸ lastNames) (distinct_finishEntries lastEach)
    exact .array (distinct_finishTables names each (by simpa using done))

theorem distinct_finishEntries : ∀ {entries : Drafts}, (∀ e ∈ entries, e.2.Distinct) →
    ∀ e ∈ finishEntries entries, e.2.Distinct
  | [], _ => by simp [finishEntries]
  | (name, d) :: rest, each => by
    obtain ⟨head, tail⟩ := List.forall_mem_cons.mp each
    rw [finishEntries]
    exact List.forall_mem_cons.mpr ⟨distinct_finish head, distinct_finishEntries tail⟩

theorem distinct_finishTables : ∀ {tables : List Drafts} {done : List Toml},
    (∀ entries ∈ tables, (entries.map (·.1)).Nodup) →
    (∀ entries ∈ tables, ∀ e ∈ entries, e.2.Distinct) → (∀ v ∈ done, v.Distinct) →
    ∀ v ∈ finishTables tables done, v.Distinct
  | [], _, _, _, finished => by
    rw [finishTables]
    exact finished
  | entries :: rest, done, names, each, finished => by
    obtain ⟨headNames, names⟩ := List.forall_mem_cons.mp names
    obtain ⟨headEach, each⟩ := List.forall_mem_cons.mp each
    have next : Toml.Distinct (.table (finishEntries entries)) :=
      .table (map_fst_finishEntries entries ▸ headNames) (distinct_finishEntries headEach)
    rw [finishTables]
    exact distinct_finishTables names each (List.forall_mem_cons.mpr ⟨next, finished⟩)

end

theorem named_finishEntries (h : Named Distinct entries) :
    Named Toml.Distinct (finishEntries entries) :=
  ⟨map_fst_finishEntries entries ▸ h.names, distinct_finishEntries h.values⟩

end Draft

/-! ## Readers -/

/-- A reader of values reads values whose tables have distinct names. -/
def ReadsDistinct (read? : List Char → Option (Toml × List Char)) : Prop :=
  ∀ {cs v rest}, read? cs = some (v, rest) → Distinct v

theorem distinct_ofWord? {cs : List Char} {v : Toml} (h : Scalar.ofWord? cs = some v) :
    Distinct v := by
  rw [Scalar.ofWord?] at h
  split at h
  · cases h
    exact .bool true
  · split at h
    · cases h
      exact .bool false
    · split at h
      · cases h
        exact .dateTime _
      · split at h
        · cases h
          exact .float _
        · obtain ⟨n, -, rfl⟩ := Option.map_eq_some_iff.mp h
          exact .integer n

theorem readsDistinct_word? : ReadsDistinct word? := by
  intro cs v rest h
  rw [word?] at h
  split at h
  · rename_i joined
    cases h
    split at joined
    · split at joined
      · obtain ⟨w, read, same⟩ := Option.map_eq_some_iff.mp joined
        cases same
        exact distinct_ofWord? read
      · cases joined
    · cases joined
  · obtain ⟨w, read, same⟩ := Option.map_eq_some_iff.mp h
    cases same
    exact distinct_ofWord? read

theorem readsDistinct_scalar? : ReadsDistinct scalar? := by
  intro cs v rest h
  rw [scalar?.eq_def] at h
  split at h
  · obtain ⟨s, -, same⟩ := Option.map_eq_some_iff.mp h
    cases same
    exact .string _
  · obtain ⟨s, -, same⟩ := Option.map_eq_some_iff.mp h
    cases same
    exact .string _
  · exact readsDistinct_word? h

section Nested

variable {value? : List Char → Option (Toml × List Char)} (values : ReadsDistinct value?)

include values

theorem distinct_items? {fuel : Nat} {cs rest : List Char} {vs : List Toml}
    (h : items? value? fuel cs = some (vs, rest)) : ∀ v ∈ vs, Distinct v := by
  induction fuel generalizing cs vs rest with
  | zero => cases h
  | succ fuel ih =>
    simp only [items?, bind, Option.bind_eq_some_iff] at h
    obtain ⟨start, -, h⟩ := h
    split at h
    · cases h
      simp
    · simp only [Option.bind_eq_some_iff] at h
      obtain ⟨⟨v, after⟩, read, next, -, h⟩ := h
      split at h
      · obtain ⟨⟨vs, _⟩, more, same⟩ := Option.map_eq_some_iff.mp h
        cases same
        exact List.forall_mem_cons.mpr ⟨values read, ih more⟩
      · cases h
        simpa using values read
      · cases h

theorem distinct_assignment? {cs rest : List Char} {name : List String × String} {v : Toml}
    (h : assignment? value? cs = some ((name, v), rest)) : Distinct v := by
  simp only [assignment?, bind, Option.bind_eq_some_iff] at h
  obtain ⟨⟨name, after⟩, -, h⟩ := h
  split at h
  · simp only [Option.bind_eq_some_iff] at h
    obtain ⟨⟨w, after⟩, read, same⟩ := h
    cases same
    exact values read
  · cases h

theorem named_inlineEntries? {fuel : Nat} {entries entries' : Drafts} {cs rest : List Char}
    (h : inlineEntries? value? fuel entries cs = some (entries', rest))
    (named : Named Draft.Distinct entries) : Named Draft.Distinct entries' := by
  induction fuel generalizing entries cs with
  | zero => cases h
  | succ fuel ih =>
    simp only [inlineEntries?, bind, Option.bind_eq_some_iff] at h
    obtain ⟨⟨⟨⟨path, name⟩, v⟩, after⟩, read, more, assigned, h⟩ := h
    have next := Draft.named_assign (distinct_assignment? values read) assigned named
    split at h
    · exact ih h next
    · cases h
      exact next
    · cases h

end Nested

/-- By induction on the levels of arrays and inline tables that a value may have. -/
theorem readsDistinct_value? (depth : Nat) : ReadsDistinct (value? depth) := by
  induction depth with
  | zero => exact readsDistinct_scalar?
  | succ depth ih =>
    intro cs v rest h
    rw [value?.eq_def] at h
    split at h
    · contradiction
    · rename_i less same
      cases same
      -- an array, an inline table, or a value that holds no other
      split at h
      · obtain ⟨⟨vs, _⟩, read, same⟩ := Option.map_eq_some_iff.mp h
        cases same
        exact .array (distinct_items? ih read)
      · split at h
        · cases h
          exact .table List.nodup_nil (by simp)
        · obtain ⟨⟨entries, _⟩, read, same⟩ := Option.map_eq_some_iff.mp h
          cases same
          exact distinct_table_iff.mpr
            (Draft.named_finishEntries (named_inlineEntries? ih read named_nil))
      · exact readsDistinct_scalar? h

/-! ## Documents -/

section Document

variable {state state' : DocumentState} {cs rest : List Char}

theorem named_header? (h : header? state cs = some (state', rest))
    (named : Named Draft.Distinct state.root) : Named Draft.Distinct state'.root := by
  simp only [header?, bind, Option.bind_eq_some_iff] at h
  obtain ⟨⟨⟨path, name⟩, after⟩, -, root, defined, h⟩ := h
  split at h
  · obtain ⟨_, -, same⟩ := Option.map_eq_some_iff.mp h
    cases same
    exact Draft.named_modify (fun _ _ _ => Draft.named_define) defined named
  · cases h

theorem named_arrayHeader? (h : arrayHeader? state cs = some (state', rest))
    (named : Named Draft.Distinct state.root) : Named Draft.Distinct state'.root := by
  simp only [arrayHeader?, bind, Option.bind_eq_some_iff] at h
  obtain ⟨⟨⟨path, name⟩, after⟩, -, root, appended, h⟩ := h
  split at h
  · obtain ⟨_, -, same⟩ := Option.map_eq_some_iff.mp h
    cases same
    exact Draft.named_modify (fun _ _ _ => Draft.named_appendTable) appended named
  · cases h

theorem named_line? (h : line? state cs = some (state', rest))
    (named : Named Draft.Distinct state.root) : Named Draft.Distinct state'.root := by
  simp only [line?, bind, Option.bind_eq_some_iff] at h
  obtain ⟨⟨⟨⟨path, name⟩, v⟩, after⟩, read, root, assigned, h⟩ := h
  obtain ⟨_, -, same⟩ := Option.map_eq_some_iff.mp h
  cases same
  have distinct := distinct_assignment? (readsDistinct_value? _) read
  exact Draft.named_modify (fun _ _ _ => Draft.named_assign distinct) assigned named

theorem named_lines? {fuel : Nat} (h : lines? fuel state cs = some state')
    (named : Named Draft.Distinct state.root) : Named Draft.Distinct state'.root := by
  induction fuel generalizing state cs with
  | zero => cases h
  | succ fuel ih =>
    rw [lines?] at h
    split at h
    · cases h
      exact named
    · obtain ⟨rest, -, h⟩ := Option.bind_eq_some_iff.mp h
      exact ih h named
    · obtain ⟨⟨next, rest⟩, read, h⟩ := Option.bind_eq_some_iff.mp h
      exact ih h (named_arrayHeader? read named)
    · obtain ⟨⟨next, rest⟩, read, h⟩ := Option.bind_eq_some_iff.mp h
      exact ih h (named_header? read named)
    · split at h
      · exact ih h named
      · obtain ⟨⟨next, rest⟩, read, h⟩ := Option.bind_eq_some_iff.mp h
        exact ih h (named_line? read named)

end Document

/-- The tables of a document have distinct names, the top one and all others. -/
theorem distinct_parse? {s : String} {entries : List (String × Toml)}
    (h : parse? s = some entries) : Distinct (.table entries) := by
  obtain ⟨state, read, rfl⟩ := Option.map_eq_some_iff.mp h
  exact distinct_table_iff.mpr (Draft.named_finishEntries (named_lines? read named_nil))

end RdfMapping.Toml
