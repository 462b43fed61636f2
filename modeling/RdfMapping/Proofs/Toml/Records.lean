import Mathlib.Data.List.Induction
import Mathlib.Logic.Function.Basic
import RdfMapping.Proofs.Names
import RdfMapping.Toml.Basic

/-!
Records that are read from a table, entry by entry.

A record has fields with names and readers of their own (`Record`). Its entries are taken in their order
(`take?`): a name that is no field is skipped with whatever stands under it, and a field may be given
once. When no name of the table is repeated, the order does not matter, and the record is what the fields
find under their names (`decode?_eq_some_iff`).
-/

namespace RdfMapping.Toml

/-- The fields of a record, their names, and how their values are read. -/
structure Record (K : Type) where
  fields : List K
  complete : ∀ k, k ∈ fields
  name : K → String
  apart : Function.Injective name
  Value : K → Type
  read? : (k : K) → Toml → Option (Value k)

namespace Record

variable {K : Type} (r : Record K)

abbrev Given := (k : K) → Option (r.Value k)

def field? (name : String) : Option K := r.fields.find? (r.name · == name)

/-- Takes an entry of a table: nothing, if its name is no field, and otherwise a value for its field,
which may have none yet. -/
def take? [DecidableEq K] (given : r.Given) (entry : String × Toml) : Option r.Given :=
  match r.field? entry.1 with
  | none => some given
  | some k =>
    if (given k).isSome then none
    else (r.read? k entry.2).map fun x => Function.update given k (some x)

def decode? [DecidableEq K] (entries : List (String × Toml)) : Option r.Given :=
  entries.foldlM r.take? fun _ => none

/-- The record that a table states: fields that are not given have their defaults. -/
def fill? [DecidableEq K] (defaults : (k : K) → r.Value k) (entries : List (String × Toml)) :
    Option ((k : K) → r.Value k) :=
  (r.decode? entries).map fun given k => (given k).getD (defaults k)

/-- What a field finds under its name: it may find nothing, but not what it cannot read. -/
def find? (entries : List (String × Toml)) (k : K) : Option (Option (r.Value k)) :=
  match entries.lookup (r.name k) with
  | none => some none
  | some v => (r.read? k v).map some

variable {r} {entries : List (String × Toml)} {name : String} {v : Toml} {k : K}

theorem field?_eq_some_iff : r.field? name = some k ↔ r.name k = name := by
  refine ⟨?_, ?_⟩
  · intro h
    simpa using List.find?_some h
  · intro h
    have there : (r.field? name).isSome := List.find?_isSome.mpr ⟨k, r.complete k, by simpa using h⟩
    obtain ⟨own, found⟩ := Option.isSome_iff_exists.mp there
    have same : r.name own = name := by simpa using List.find?_some found
    rw [found, r.apart (same.trans h.symm)]

theorem find?_of_not_mem (h : r.name k ∉ entries.map (·.1)) : r.find? entries k = some none := by
  rw [find?, lookup_eq_none_iff_not_mem.mpr h]

theorem find?_of_mem (once : (entries.map (·.1)).Nodup) (h : (r.name k, v) ∈ entries) :
    r.find? entries k = (r.read? k v).map some := by
  rw [find?, lookup_of_mem once h]

theorem find?_append_of_ne (h : r.name k ≠ name) :
    r.find? (entries ++ [(name, v)]) k = r.find? entries k := by
  rw [find?, find?, List.lookup_append, List.lookup_cons, beq_false_of_ne h, List.lookup_nil,
    Option.or_none]

theorem find?_append_self (new : r.name k ∉ entries.map (·.1)) :
    r.find? (entries ++ [(r.name k, v)]) k = (r.read? k v).map some := by
  rw [find?, List.lookup_append, lookup_eq_none_iff_not_mem.mpr new, Option.none_or,
    List.lookup_cons_self]

/-! ## Entries that are taken -/

section Taking

variable [DecidableEq K] {earlier given : r.Given}

theorem take?_of_skipped (skipped : r.field? name = none) : r.take? given (name, v) = some given := by
  rw [take?, skipped]

theorem take?_eq_some_iff (unset : earlier k = none) :
    r.take? earlier (r.name k, v) = some given ↔
      ∃ x, r.read? k v = some x ∧ Function.update earlier k (some x) = given := by
  have named : r.field? (r.name k) = some k := field?_eq_some_iff.mpr rfl
  simp only [take?, named, unset, Option.isSome_none, Bool.false_eq_true, if_false,
    Option.map_eq_some_iff]

theorem exists_take?_skipped_iff (skipped : r.field? name = none) :
    (∃ earlier, (∀ k, r.find? entries k = some (earlier k)) ∧
        r.take? earlier (name, v) = some given) ↔
      ∀ k, r.find? (entries ++ [(name, v)]) k = some (given k) := by
  have other : ∀ k, r.find? (entries ++ [(name, v)]) k = r.find? entries k := by
    intro k
    refine find?_append_of_ne fun same => ?_
    rw [field?_eq_some_iff.mpr same] at skipped
    cases skipped
  simp only [other, take?_of_skipped skipped, Option.some.injEq]
  refine ⟨?_, fun h => ⟨given, h, rfl⟩⟩
  rintro ⟨earlier, h, rfl⟩
  exact h

theorem exists_take?_iff (new : r.name k ∉ entries.map (·.1)) :
    (∃ earlier, (∀ i, r.find? entries i = some (earlier i)) ∧
        r.take? earlier (r.name k, v) = some given) ↔
      ∀ i, r.find? (entries ++ [(r.name k, v)]) i = some (given i) := by
  have before : r.find? entries k = some none := find?_of_not_mem new
  have after := find?_append_self (v := v) new
  have others : ∀ i, i ≠ k → r.find? (entries ++ [(r.name k, v)]) i = r.find? entries i :=
    fun i hi => find?_append_of_ne fun same => hi (r.apart same)
  refine ⟨?_, ?_⟩
  · rintro ⟨earlier, h, taken⟩ i
    have unset : earlier k = none := (Option.some.inj (before.symm.trans (h k))).symm
    obtain ⟨x, read, rfl⟩ := (take?_eq_some_iff unset).mp taken
    by_cases hi : i = k
    · subst hi
      rw [after, read, Function.update_self, Option.map_some]
    · rw [others i hi, h i, Function.update_of_ne hi]
  · intro h
    obtain ⟨x, read, set⟩ := Option.map_eq_some_iff.mp (after.symm.trans (h k))
    -- before the entry was taken, its field had no value
    refine ⟨Function.update given k none, ?_, ?_⟩
    · intro i
      by_cases hi : i = k
      · subst hi
        rw [before, Function.update_self]
      · rw [← others i hi, h i, Function.update_of_ne hi]
    · refine (take?_eq_some_iff (Function.update_self ..)).mpr ⟨x, read, ?_⟩
      rw [Function.update_idem, set, Function.update_eq_self]

theorem decode?_append (entries : List (String × Toml)) (entry : String × Toml) :
    r.decode? (entries ++ [entry]) = (r.decode? entries).bind (r.take? · entry) := by
  rw [decode?, List.foldlM_append]
  simp only [List.foldlM_cons, List.foldlM_nil, bind_pure]
  rfl

/-- By induction from the end: the last entry is taken after the others have been. -/
theorem decode?_eq_some_iff (once : (entries.map (·.1)).Nodup) :
    r.decode? entries = some given ↔ ∀ k, r.find? entries k = some (given k) := by
  induction entries using List.reverseRecOn generalizing given with
  | nil =>
    rw [decode?, List.foldlM_nil]
    refine ⟨?_, ?_⟩
    · intro h k
      cases h
      rfl
    · intro h
      exact congrArg some (funext fun k => Option.some.inj (h k))
  | append_singleton before entry ih =>
    obtain ⟨name, v⟩ := entry
    rw [List.map_append, List.map_singleton, List.nodup_append] at once
    obtain ⟨once, -, apart⟩ := once
    -- the name is new, so that the entry neither changes nor repeats what was taken
    have new : name ∉ before.map (·.1) := fun h => apart name h name List.mem_cons_self rfl
    rw [decode?_append, Option.bind_eq_some_iff]
    simp only [ih once]
    cases named : r.field? name with
    | none => exact exists_take?_skipped_iff named
    | some k =>
      obtain rfl := field?_eq_some_iff.mp named
      exact exists_take?_iff new

theorem decode?_eq_none_iff (once : (entries.map (·.1)).Nodup) :
    r.decode? entries = none ↔ ∃ k, r.find? entries k = none := by
  refine ⟨?_, ?_⟩
  · intro h
    by_contra all
    have found : ∀ k, r.find? entries k = some ((r.find? entries k).getD none) := by
      intro k
      cases hk : r.find? entries k with
      | none => exact absurd ⟨k, hk⟩ all
      | some x => rfl
    rw [(decode?_eq_some_iff once).mpr found] at h
    cases h
  · rintro ⟨k, nothing⟩
    rw [Option.eq_none_iff_forall_ne_some]
    intro given h
    rw [(decode?_eq_some_iff once).mp h k] at nothing
    cases nothing

/-- A record is its defaults, but for what stands in the table under the names of its fields. -/
theorem fill?_eq_some_iff (once : (entries.map (·.1)).Nodup) {defaults x : (k : K) → r.Value k} :
    r.fill? defaults entries = some x ↔
      ∀ k, (entries.lookup (r.name k)).elim (some (defaults k)) (r.read? k) = some (x k) := by
  have each : ∀ k, (entries.lookup (r.name k)).elim (some (defaults k)) (r.read? k) =
      (r.find? entries k).map (·.getD (defaults k)) := by
    intro k
    rw [find?]
    cases entries.lookup (r.name k) with
    | none => rfl
    | some v => cases hv : r.read? k v <;> simp [hv]
  simp only [fill?, each, Option.map_eq_some_iff, decode?_eq_some_iff once]
  refine ⟨?_, ?_⟩
  · rintro ⟨given, found, rfl⟩ k
    exact ⟨given k, found k, rfl⟩
  · intro h
    choose given found same using h
    exact ⟨given, found, funext same⟩

end Taking

end Record

end RdfMapping.Toml
