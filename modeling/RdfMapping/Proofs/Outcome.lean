import Mathlib.Data.List.Forall2
import Mathlib.Data.List.Perm.Basic

/-!
What comes of steps that may fail, when they succeed.

`Except.toOption` forgets why a step failed. It respects sequencing (`toOption_bind`) and traversals
(`toOption_mapM`), so a chain of checks is read as a chain of options. A traversal in `Option` is then
known from its members (`mapM_eq_some_iff`): it gives `ys` exactly when every step gives the member of
`ys` in its place. Where it matters why something failed, the first step that fails decides
(`bind_eq_error_iff`, `mapM_eq_error_iff`, `mapM_range_eq_error_iff`). Where it only matters which errors
there can be, `FailsIn` bounds them step by step.
-/

namespace RdfMapping

section Except

variable {ε ε' α β : Type}

@[simp] theorem toOption_ok (a : α) : (Except.ok a : Except ε α).toOption = some a := rfl

@[simp] theorem toOption_error (e : ε) : (Except.error e : Except ε α).toOption = none := rfl

@[simp] theorem toOption_eq_some_iff {x : Except ε α} {a : α} :
    x.toOption = some a ↔ x = .ok a := by
  cases x <;> simp

@[simp] theorem toOption_bind (x : Except ε α) (f : α → Except ε β) :
    (x >>= f).toOption = x.toOption.bind fun a => (f a).toOption := by
  cases x <;> rfl

@[simp] theorem toOption_map (x : Except ε α) (f : α → β) :
    (x.map f).toOption = x.toOption.map f := by
  cases x <;> rfl

@[simp] theorem toOption_mapError (x : Except ε α) (f : ε → ε') :
    (x.mapError f).toOption = x.toOption := by
  cases x <;> rfl

theorem bind_eq_ok_iff {x : Except ε α} {f : α → Except ε β} {b : β} :
    (x >>= f) = .ok b ↔ ∃ a, x = .ok a ∧ f a = .ok b := by
  cases x with
  | error e => simp [bind, Except.bind]
  | ok a => simp [bind, Except.bind]

theorem map_eq_ok_iff {x : Except ε α} {f : α → β} {b : β} :
    x.map f = .ok b ↔ ∃ a, x = .ok a ∧ f a = b := by
  cases x <;> simp [Except.map]

theorem mapError_eq_ok_iff {x : Except ε α} {f : ε → ε'} {a : α} :
    x.mapError f = .ok a ↔ x = .ok a := by
  rw [← toOption_eq_some_iff, toOption_mapError, toOption_eq_some_iff]

theorem exists_eq_ok_iff {x : Except ε α} : (∃ a, x = .ok a) ↔ x.toOption.isSome := by
  cases x <;> simp

theorem exists_eq_ok_iff_ne_error {x : Except ε α} : (∃ a, x = .ok a) ↔ ∀ e, x ≠ .error e := by
  cases x <;> simp

theorem toOption_mapM (f : α → Except ε β) (l : List α) :
    (l.mapM f).toOption = l.mapM fun a => (f a).toOption := by
  induction l with
  | nil => rfl
  | cons a l ih =>
    simp only [List.mapM_cons, toOption_bind, ih]
    rfl

/-! ## The first step that fails -/

theorem bind_eq_error_iff {x : Except ε α} {f : α → Except ε β} {e : ε} :
    (x >>= f) = .error e ↔ x = .error e ∨ ∃ a, x = .ok a ∧ f a = .error e := by
  cases x with
  | error e' => simp [bind, Except.bind]
  | ok a => simp [bind, Except.bind]

theorem map_eq_error_iff {x : Except ε α} {f : α → β} {e : ε} :
    x.map f = .error e ↔ x = .error e := by
  cases x <;> simp [Except.map]

theorem mapError_eq_error_iff {x : Except ε α} {f : ε → ε'} {e : ε'} :
    x.mapError f = .error e ↔ ∃ e', x = .error e' ∧ f e' = e := by
  cases x <;> simp [Except.mapError]

theorem mapM_eq_error_iff {f : α → Except ε β} {l : List α} {e : ε} :
    l.mapM f = .error e ↔
      ∃ before a after, l = before ++ a :: after ∧ (∀ b ∈ before, ∃ y, f b = .ok y) ∧
        f a = .error e := by
  -- on the list: either its head fails, or its tail does and the head joins those before
  induction l with
  | nil => simp [pure, Except.pure]
  | cons a l ih =>
    rw [List.mapM_cons, bind_eq_error_iff]
    refine ⟨?_, ?_⟩
    · intro h
      rcases h with head | ⟨y, head, tail⟩
      · exact ⟨[], a, l, rfl, by simp, head⟩
      · rcases bind_eq_error_iff.mp tail with tail | ⟨ys, -, none⟩
        · obtain ⟨before, b, after, rfl, earlier, fails⟩ := ih.mp tail
          exact ⟨a :: before, b, after, rfl, List.forall_mem_cons.mpr ⟨⟨y, head⟩, earlier⟩, fails⟩
        · cases none
    · intro h
      obtain ⟨before, b, after, parts, earlier, fails⟩ := h
      cases before with
      | nil =>
        obtain ⟨rfl, -⟩ := List.cons.inj parts
        exact .inl fails
      | cons c before =>
        obtain ⟨rfl, rest⟩ := List.cons.inj parts
        obtain ⟨⟨y, head⟩, earlier⟩ := List.forall_mem_cons.mp earlier
        refine .inr ⟨y, head, bind_eq_error_iff.mpr (.inl ?_)⟩
        exact ih.mpr ⟨before, b, after, rest, earlier, fails⟩

theorem mapM_range_eq_error_iff {f : Nat → Except ε β} {n : Nat} {e : ε} :
    (List.range n).mapM f = .error e ↔
      ∃ i < n, (∀ j < i, ∃ y, f j = .ok y) ∧ f i = .error e := by
  rw [mapM_eq_error_iff]
  refine ⟨?_, ?_⟩
  · intro h
    obtain ⟨before, i, after, parts, earlier, fails⟩ := h
    have place : (List.range n)[before.length]? = some i := by
      rw [parts, List.getElem?_append_right (Nat.le_refl _), Nat.sub_self, List.getElem?_cons_zero]
    obtain ⟨bound, same⟩ := List.getElem?_eq_some_iff.mp place
    rw [List.getElem_range] at same
    rw [List.length_range] at bound
    refine ⟨i, same ▸ bound, fun j hj => earlier j ?_, fails⟩
    -- what stands in front of `i` are the numbers below it
    have front : before = List.range i := by
      have := congrArg (List.take before.length) parts
      rw [List.take_append_of_le_length (Nat.le_refl _), List.take_length, List.take_range, same,
        Nat.min_eq_left (by omega)] at this
      exact this.symm
    rw [front]
    exact List.mem_range.mpr hj
  · intro h
    obtain ⟨i, bound, earlier, fails⟩ := h
    refine ⟨List.range i, i, (List.range (n - (i + 1))).map (i + 1 + ·), ?_, ?_, fails⟩
    · have whole : n = (i + 1) + (n - (i + 1)) := by omega
      calc List.range n = List.range (i + 1) ++ (List.range (n - (i + 1))).map (i + 1 + ·) := by
            rw [← List.range_add, ← whole]
        _ = _ := by rw [List.range_succ, List.append_assoc, List.singleton_append]
    · intro j hj
      exact earlier j (List.mem_range.mp hj)

/-- A second traversal, of what the first one gives, may as well be made step by step. -/
theorem mapM_mapM_of_ok {γ : Type} {f : α → Except ε β} {l : List α} {ys : List β}
    (h : l.mapM f = .ok ys) (g : β → Except ε γ) : ys.mapM g = l.mapM fun a => f a >>= g := by
  induction l generalizing ys with
  | nil =>
    cases h
    rfl
  | cons a l ih =>
    rw [List.mapM_cons, bind_eq_ok_iff] at h
    obtain ⟨y, head, h⟩ := h
    obtain ⟨zs, tail, same⟩ := bind_eq_ok_iff.mp h
    cases same
    rw [List.mapM_cons, List.mapM_cons, ih tail, head]
    rfl

/-! ## The errors of a chain -/

/-- Whatever error comes of a step, it is one of these. -/
def FailsIn (x : Except ε α) (errors : ε → Prop) : Prop := ∀ e, x = .error e → errors e

namespace FailsIn

variable {errors : ε → Prop} {x : Except ε α}

theorem ok (a : α) : FailsIn (.ok a) errors := nofun

theorem error {e : ε} (h : errors e) : FailsIn (.error e : Except ε α) errors := by
  intro e' same
  exact Except.error.inj same ▸ h

theorem mono {more : ε → Prop} (hx : FailsIn x errors) (h : ∀ e, errors e → more e) :
    FailsIn x more := fun e fails => h e (hx e fails)

theorem bind {f : α → Except ε β} (hx : FailsIn x errors)
    (hf : ∀ a, x = .ok a → FailsIn (f a) errors) : FailsIn (x >>= f) errors := by
  intro e fails
  rcases bind_eq_error_iff.mp fails with first | ⟨a, ha, later⟩
  · exact hx e first
  · exact hf a ha e later

theorem map (hx : FailsIn x errors) (f : α → β) : FailsIn (x.map f) errors := by
  intro e fails
  exact hx e (map_eq_error_iff.mp fails)

theorem mapError {errors' : ε' → Prop} {f : ε → ε'} (hx : FailsIn x errors)
    (h : ∀ e, errors e → errors' (f e)) : FailsIn (x.mapError f) errors' := by
  intro e fails
  obtain ⟨own, first, rfl⟩ := mapError_eq_error_iff.mp fails
  exact h own (hx own first)

theorem mapM {f : α → Except ε β} {l : List α} (h : ∀ a ∈ l, FailsIn (f a) errors) :
    FailsIn (l.mapM f) errors := by
  intro e fails
  obtain ⟨before, a, after, rfl, -, first⟩ := mapM_eq_error_iff.mp fails
  exact h a (by simp) e first

end FailsIn

end Except

section Option

variable {α β γ : Type}

theorem mapM_eq_some_iff {f : α → Option β} {l : List α} {ys : List β} :
    l.mapM f = some ys ↔ l.map f = ys.map some := by
  induction l generalizing ys with
  | nil => cases ys <;> simp
  | cons a l ih =>
    cases ha : f a with
    | none => cases ys <;> simp [ha]
    | some y =>
      cases hl : l.mapM f with
      | none =>
        -- the rest gives no list, so it gives none that starts with `z`
        cases ys with
        | nil => simp [ha, hl]
        | cons z ys =>
          have : l.map f ≠ ys.map some := fun h => by simp [ih.mpr h] at hl
          simp [ha, hl, this]
      | some zs =>
        have tail := ih.mp hl
        cases ys with
        | nil => simp [ha, hl]
        | cons z ys =>
          have injective : zs.map some = ys.map some ↔ zs = ys :=
            List.map_inj_right fun _ _ h => Option.some.inj h
          simp [ha, hl, tail, injective]

theorem mapM_eq_some_iff_forall₂ {f : α → Option β} {l : List α} {ys : List β} :
    l.mapM f = some ys ↔ List.Forall₂ (fun a y => f a = some y) l ys := by
  rw [mapM_eq_some_iff, ← List.forall₂_eq_eq_eq, List.forall₂_map_left_iff,
    List.forall₂_map_right_iff]

theorem mapM_eq_map {f : α → Option β} {g : α → β} {l : List α}
    (h : ∀ a ∈ l, f a = some (g a)) : l.mapM f = some (l.map g) := by
  rw [mapM_eq_some_iff, List.map_map]
  exact List.map_congr_left h

theorem length_of_mapM {f : α → Option β} {l : List α} {ys : List β} (h : l.mapM f = some ys) :
    ys.length = l.length := by
  have := congrArg List.length (mapM_eq_some_iff.mp h)
  simpa using this.symm

theorem mem_of_mapM {f : α → Option β} {l : List α} {ys : List β} (h : l.mapM f = some ys)
    {y : β} : y ∈ ys ↔ ∃ a ∈ l, f a = some y := by
  have : some y ∈ l.map f ↔ some y ∈ ys.map some := by rw [mapM_eq_some_iff.mp h]
  simpa using this.symm

theorem isSome_mapM_iff {f : α → Option β} {l : List α} :
    (l.mapM f).isSome ↔ ∀ a ∈ l, (f a).isSome := by
  induction l with
  | nil => simp
  | cons a l ih =>
    rw [List.forall_mem_cons, ← ih]
    cases ha : f a with
    | none => simp [ha]
    | some y => cases hl : l.mapM f <;> simp [ha, hl]

theorem isSome_of_mapM {f : α → Option β} {l : List α} {ys : List β} (h : l.mapM f = some ys) :
    ∀ a ∈ l, (f a).isSome := by
  apply isSome_mapM_iff.mp
  rw [h, Option.isSome_some]

theorem exists_of_mapM [Inhabited β] {f : α → Option β} {l : List α} {ys : List β}
    (h : l.mapM f = some ys) : ∃ g : α → β, (∀ a ∈ l, f a = some (g a)) ∧ ys = l.map g := by
  have members : ∀ a ∈ l, f a = some ((f a).getD default) := by
    intro a ha
    obtain ⟨y, hy⟩ := Option.isSome_iff_exists.mp (isSome_of_mapM h a ha)
    rw [hy, Option.getD_some]
  refine ⟨fun a => (f a).getD default, members, ?_⟩
  have maps := mapM_eq_some_iff.mp h
  rw [List.map_congr_left members] at maps
  have injective := (List.map_inj_right fun _ _ eq => Option.some.inj eq).mp
    (maps.symm.trans (List.map_map (l := l)).symm)
  exact injective

theorem getElem?_of_mapM {f : α → Option β} {l : List α} {ys : List β} (h : l.mapM f = some ys)
    (i : Nat) : ys[i]? = l[i]?.bind f := by
  have same : l[i]?.map f = ys[i]?.map some := by
    rw [← List.getElem?_map, mapM_eq_some_iff.mp h, List.getElem?_map]
  cases hl : l[i]? with
  | none =>
    rw [hl] at same
    exact Option.map_eq_none_iff.mp same.symm
  | some a =>
    cases hy : ys[i]? with
    | none => simp [hl, hy] at same
    | some y => simpa [hl, hy] using same.symm

theorem mapM_congr {m : Type → Type} [Monad m] [LawfulMonad m] {f g : α → m β} {l : List α}
    (h : ∀ a ∈ l, f a = g a) : l.mapM f = l.mapM g := by
  induction l with
  | nil => rfl
  | cons a l ih =>
    obtain ⟨head, tail⟩ := List.forall_mem_cons.mp h
    simp only [List.mapM_cons, head, ih tail]

/-- Two traversals give the same, and something, exactly when their steps do. -/
theorem mapM_eq_and_isSome_iff {f g : α → Option β} {l : List α} :
    (l.mapM f).isSome ∧ l.mapM f = l.mapM g ↔ ∀ a ∈ l, (f a).isSome ∧ f a = g a := by
  refine ⟨?_, ?_⟩
  · intro h a ha
    obtain ⟨some_f, same⟩ := h
    obtain ⟨ys, hf⟩ := Option.isSome_iff_exists.mp some_f
    have hg : l.mapM g = some ys := same ▸ hf
    have maps : l.map f = l.map g := (mapM_eq_some_iff.mp hf).trans (mapM_eq_some_iff.mp hg).symm
    exact ⟨isSome_mapM_iff.mp some_f a ha, List.map_inj_left.mp maps a ha⟩
  · intro h
    exact ⟨isSome_mapM_iff.mpr fun a ha => (h a ha).1, mapM_congr fun a ha => (h a ha).2⟩

theorem mapM_flatMap (f : β → Option γ) (g : α → List β) (l : List α) :
    (l.flatMap g).mapM f = (l.mapM fun a => (g a).mapM f).map List.flatten := by
  induction l with
  | nil => rfl
  | cons a l ih =>
    simp only [List.flatMap_cons, List.mapM_append, List.mapM_cons, ih]
    cases (g a).mapM f with
    | none => rfl
    | some ys => cases l.mapM fun a => (g a).mapM f <;> simp

theorem mapM_mapM (f : α → Option β) (g : β → Option γ) (l : List α) :
    ((l.mapM f).bind fun ys => ys.mapM g) = l.mapM fun a => (f a).bind g := by
  induction l with
  | nil => rfl
  | cons a l ih =>
    simp only [List.mapM_cons, ← ih]
    cases f a with
    | none => rfl
    | some y =>
      cases l.mapM f with
      | none => cases hy : g y <;> simp [hy]
      | some ys => simp

theorem mapM_of_mapM {f : α → Option β} {l : List α} {ys : List β} (h : l.mapM f = some ys)
    (g : β → Option γ) : ys.mapM g = l.mapM fun a => (f a).bind g := by
  rw [← mapM_mapM, h, Option.bind_some]

theorem mapM_range_getElem? (f : α → Option β) (l : List α) :
    (List.range l.length).mapM (fun i => l[i]?.bind f) = l.mapM f := by
  have members : (List.range l.length).map (fun i => l[i]?) = l.map some := by
    apply List.ext_getElem
    · simp
    · intro i _ _
      simp
  calc _ = ((List.range l.length).map fun i => l[i]?).mapM fun a? => a?.bind f := by
        rw [List.mapM_map]
        rfl
    _ = l.mapM f := by
        rw [members, List.mapM_map]
        rfl

theorem map_mapM (f : α → Option β) (e : β → γ) (l : List α) :
    (l.mapM f).map (List.map e) = l.mapM fun a => (f a).map e := by
  induction l with
  | nil => rfl
  | cons a l ih =>
    simp only [List.mapM_cons, ← ih]
    cases f a with
    | none => rfl
    | some x => cases l.mapM f <;> rfl

/-- What can be read off a value that a step gives can be read off the traversal. -/
theorem map_of_mapM {f : α → Option β} {l : List α} {ys : List β} (h : l.mapM f = some ys)
    {e : β → γ} {g : α → γ} (read : ∀ a y, f a = some y → e y = g a) : ys.map e = l.map g := by
  have step : ∀ a ∈ l, (f a).map e = some (g a) := by
    intro a ha
    obtain ⟨y, hy⟩ := Option.isSome_iff_exists.mp (isSome_of_mapM h a ha)
    rw [hy, Option.map_some, read a y hy]
  have all : some (ys.map e) = some (l.map g) := by
    rw [← Option.map_some (f := List.map e), ← h, map_mapM, mapM_eq_some_iff, List.map_map]
    exact List.map_congr_left step
  exact Option.some.inj all

/-- When the steps of two traversals give the same in another order, so do the traversals. -/
theorem perm_of_mapM {α' : Type} {f : α → Option β} {g : α' → Option β} {l : List α} {l' : List α'}
    (same : (l.map f).Perm (l'.map g)) {ys : List β} (h : l.mapM f = some ys) :
    ∃ zs, l'.mapM g = some zs ∧ ys.Perm zs := by
  rw [mapM_eq_some_iff.mp h] at same
  -- each step of the second traversal is one of the first, so it succeeds
  have all : ∀ a ∈ l', (g a).isSome := by
    intro a ha
    obtain ⟨y, -, hy⟩ := List.mem_map.mp (same.mem_iff.mpr (List.mem_map_of_mem ha))
    rw [← hy, Option.isSome_some]
  obtain ⟨zs, hz⟩ := Option.isSome_iff_exists.mp (isSome_mapM_iff.mpr all)
  rw [mapM_eq_some_iff.mp hz] at same
  exact ⟨zs, hz, (List.map_perm_map_iff fun _ _ eq => Option.some.inj eq).mp same⟩

/-- Two traversals of one list, joined member by member, are one traversal. -/
theorem mapM_zipWith {f : α → Option β} {g : α → Option β} (h : β → β → β) (l : List α) :
    ((l.mapM f).bind fun xs => (l.mapM g).map fun ys => xs.zipWith h ys) =
      l.mapM fun a => (f a).bind fun x => (g a).map fun y => h x y := by
  induction l with
  | nil => rfl
  | cons a l ih =>
    simp only [List.mapM_cons, ← ih]
    cases f a with
    | none => rfl
    | some x =>
      cases g a with
      | none => cases l.mapM f <;> rfl
      | some y =>
        cases l.mapM f with
        | none => rfl
        | some xs => cases l.mapM g <;> simp

end Option

end RdfMapping
