import Mathlib.Data.List.Perm.Basic

/-!
Lists of things under names.

A name stands for the first thing that is listed under it. When no name is listed twice, what is found
under a name is what is listed (`lookup_of_mem`) and stands beside the others (`perm_of_lookup`). Putting
something under a name takes the place of what was there (`lookup_put`), so the names remain distinct
(`nodup_put`).
-/

namespace RdfMapping

variable {α β : Type} {l : List (String × α)} {name : String}

/-! ## What is found -/

theorem lookup_eq_none_iff_not_mem : l.lookup name = none ↔ name ∉ l.map (·.1) := by
  rw [List.lookup_eq_none_iff, List.mem_map]
  simp only [bne_iff_ne, ne_eq, not_exists, not_and]
  exact forall₂_congr fun e _ => not_congr eq_comm

theorem mem_of_lookup {x : α} (h : l.lookup name = some x) : (name, x) ∈ l := by
  obtain ⟨before, after, rfl, -⟩ := List.lookup_eq_some_iff.mp h
  simp

theorem lookup_of_mem (once : (l.map (·.1)).Nodup) {x : α} (h : (name, x) ∈ l) :
    l.lookup name = some x := by
  obtain ⟨before, after, rfl⟩ := List.append_of_mem h
  refine List.lookup_eq_some_iff.mpr ⟨before, after, rfl, fun e he => ?_⟩
  rw [List.map_append, List.map_cons, List.nodup_append] at once
  simpa using (once.2.2 e.1 (List.mem_map_of_mem he) name List.mem_cons_self).symm

theorem eq_of_mem (once : (l.map (·.1)).Nodup) {x y : α} (hx : (name, x) ∈ l)
    (hy : (name, y) ∈ l) : x = y :=
  Option.some.inj ((lookup_of_mem once hx).symm.trans (lookup_of_mem once hy))

theorem elim_lookup_eq_some_iff (once : (l.map (·.1)).Nodup) {read? : α → Option β} {d y : β} :
    (l.lookup name).elim (some d) read? = some y ↔
      (∃ x, (name, x) ∈ l ∧ read? x = some y) ∨ name ∉ l.map (·.1) ∧ d = y := by
  cases found : l.lookup name with
  | none =>
    have absent := lookup_eq_none_iff_not_mem.mp found
    have nowhere : ∀ x, (name, x) ∉ l := fun x hx => absent (List.mem_map_of_mem hx)
    simp [absent, nowhere]
  | some x =>
    have there := mem_of_lookup found
    refine ⟨fun read => .inl ⟨x, there, read⟩, ?_⟩
    rintro (⟨other, listed, read⟩ | ⟨absent, -⟩)
    · exact eq_of_mem once listed there ▸ read
    · exact absurd (List.mem_map_of_mem there) absent

theorem lookup_map_snd (f : α → β) (l : List (String × α)) (name : String) :
    (l.map (Prod.map id f)).lookup name = (l.lookup name).map f := by
  induction l with
  | nil => rfl
  | cons e rest ih =>
    obtain ⟨own, x⟩ := e
    simp only [List.map_cons, Prod.map_apply, id, List.lookup_cons, ih]
    cases name == own <;> rfl

/-! ## The others -/

theorem filter_map_snd (f : α → β) (l : List (String × α)) (name : String) :
    (l.map (Prod.map id f)).filter (·.1 != name) = (l.filter (·.1 != name)).map (Prod.map id f) := by
  rw [List.filter_map]
  rfl

theorem filter_of_not_mem (h : name ∉ l.map (·.1)) : l.filter (·.1 != name) = l := by
  refine List.filter_eq_self.mpr fun e he => ?_
  have apart : e.1 ≠ name := fun same => h (same ▸ List.mem_map_of_mem he)
  simpa using apart

/-- A name that is taken once stands beside the others. -/
theorem perm_of_lookup (once : (l.map (·.1)).Nodup) {x : α} (h : l.lookup name = some x) :
    l.Perm ((name, x) :: l.filter (·.1 != name)) := by
  induction l with
  | nil => simp at h
  | cons e rest ih =>
    obtain ⟨own, y⟩ := e
    obtain ⟨new, once⟩ := List.nodup_cons.mp once
    by_cases same : own = name
    · subst same
      rw [List.lookup_cons_self] at h
      cases h
      rw [List.filter_cons_of_neg (by simp), filter_of_not_mem new]
    · have later : rest.lookup name = some x := by
        rw [← h, List.lookup_cons, beq_false_of_ne (Ne.symm same)]
      rw [List.filter_cons_of_pos (by simpa using same)]
      exact ((ih once later).cons _).trans (.swap ..)

/-! ## Putting something under a name -/

theorem lookup_put (l : List (String × α)) (name other : String) (x : α) :
    ((name, x) :: l.filter (·.1 != name)).lookup other =
      if other = name then some x else l.lookup other := by
  rw [List.lookup_cons]
  by_cases same : other = name
  · simp [same]
  · rw [if_neg same, beq_false_of_ne same]
    induction l with
    | nil => rfl
    | cons e rest ih =>
      obtain ⟨own, y⟩ := e
      by_cases dropped : own = name
      · subst dropped
        rw [List.filter_cons_of_neg (by simp), List.lookup_cons, beq_false_of_ne same]
        exact ih
      · rw [List.filter_cons_of_pos (by simpa using dropped), List.lookup_cons, List.lookup_cons]
        cases other == own with
        | true => rfl
        | false => exact ih

theorem nodup_put (once : (l.map (·.1)).Nodup) (x : α) :
    (((name, x) :: l.filter (·.1 != name)).map (·.1)).Nodup := by
  rw [List.map_cons, List.nodup_cons]
  refine ⟨?_, once.sublist (List.filter_sublist.map _)⟩
  simp

end RdfMapping
