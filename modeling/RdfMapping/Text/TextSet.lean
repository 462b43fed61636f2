/-!
Finite sets of texts, kept as one strictly ascending list.

Texts are ordered by code point. The list is the canonical form of the set: two sets with the same
members are equal (`TextSet.ext_mem`), so a set printed in order determines its document.
The operations are `insert`, `union` and `ofList`; each is described by its members
(`mem_insert`, `mem_union`, `mem_ofList`).
-/

namespace RdfMapping

/-- The relation "strictly before" extends to a whole list. -/
abbrev Ascending (l : List String) : Prop := l.Pairwise (· < ·)

namespace Ascending

/-- Puts `s` in its place; a text already present is not repeated. -/
def insert (s : String) : List String → List String
  | [] => [s]
  | t :: rest => if s < t then s :: t :: rest else if t < s then t :: insert s rest else t :: rest

/-- Merges two ascending lists; a text of both lists is kept once. -/
def merge : List String → List String → List String
  | [], ys => ys
  | x :: xs, [] => x :: xs
  | x :: xs, y :: ys =>
    if x < y then x :: merge xs (y :: ys)
    else if y < x then y :: merge (x :: xs) ys
    else x :: merge xs ys
termination_by xs ys => xs.length + ys.length

/-- Drops each text that equals the one kept before it. -/
def dropRepeats : List String → List String
  | [] => []
  | [x] => [x]
  | x :: y :: rest => if x < y then x :: dropRepeats (y :: rest) else dropRepeats (y :: rest)

theorem eq_of_not_lt {a b : String} (h : ¬a < b) (k : ¬b < a) : a = b :=
  String.le_antisymm (String.not_lt.mp k) (String.not_lt.mp h)

theorem mem_insert {a s : String} {l : List String} : a ∈ insert s l ↔ a = s ∨ a ∈ l := by
  induction l with
  | nil => simp [insert]
  | cons t rest ih =>
    unfold insert
    split
    · simp
    · split
      · simp only [List.mem_cons, ih]
        constructor <;> rintro (h | h | h) <;> simp [h]
      · rename_i h k
        simp [eq_of_not_lt h k]

theorem insert_ascending {s : String} {l : List String} (h : Ascending l) :
    Ascending (insert s l) := by
  induction l with
  | nil => simp [insert]
  | cons t rest ih =>
    obtain ⟨head, tail⟩ := List.pairwise_cons.mp h
    unfold insert
    split
    · rename_i lt
      refine List.pairwise_cons.mpr ⟨fun a ha => ?_, h⟩
      rcases List.mem_cons.mp ha with rfl | ha
      · exact lt
      · exact String.lt_trans lt (head a ha)
    · split
      · rename_i lt
        refine List.pairwise_cons.mpr ⟨fun a ha => ?_, ih tail⟩
        rcases mem_insert.mp ha with rfl | ha
        · exact lt
        · exact head a ha
      · exact h

theorem mem_merge {a : String} {xs ys : List String} : a ∈ merge xs ys ↔ a ∈ xs ∨ a ∈ ys := by
  fun_induction merge xs ys with
  | case1 => simp
  | case2 => simp
  | case3 x xs y ys _ ih => simp [ih, or_assoc]
  | case4 x xs y ys _ _ ih =>
    simp only [List.mem_cons, ih]
    constructor <;> rintro (h | h | h) <;> simp_all
  | case5 x xs y ys h k ih =>
    have e := eq_of_not_lt h k
    subst e
    simp only [List.mem_cons, ih]
    constructor
    · rintro (h | h | h) <;> simp [h]
    · rintro ((h | h) | (h | h)) <;> simp [h]

theorem merge_ascending {xs ys : List String} (hx : Ascending xs) (hy : Ascending ys) :
    Ascending (merge xs ys) := by
  fun_induction merge xs ys with
  | case1 => exact hy
  | case2 => exact hx
  | case3 x xs y ys lt ih =>
    obtain ⟨headX, tailX⟩ := List.pairwise_cons.mp hx
    obtain ⟨headY, _⟩ := List.pairwise_cons.mp hy
    refine List.pairwise_cons.mpr ⟨fun a ha => ?_, ih tailX hy⟩
    rcases mem_merge.mp ha with ha | ha
    · exact headX a ha
    · rcases List.mem_cons.mp ha with rfl | ha
      · exact lt
      · exact String.lt_trans lt (headY a ha)
  | case4 x xs y ys _ lt ih =>
    obtain ⟨headX, _⟩ := List.pairwise_cons.mp hx
    obtain ⟨headY, tailY⟩ := List.pairwise_cons.mp hy
    refine List.pairwise_cons.mpr ⟨fun a ha => ?_, ih hx tailY⟩
    rcases mem_merge.mp ha with ha | ha
    · rcases List.mem_cons.mp ha with rfl | ha
      · exact lt
      · exact String.lt_trans lt (headX a ha)
    · exact headY a ha
  | case5 x xs y ys h k ih =>
    have e := eq_of_not_lt h k
    subst e
    obtain ⟨headX, tailX⟩ := List.pairwise_cons.mp hx
    obtain ⟨headY, tailY⟩ := List.pairwise_cons.mp hy
    refine List.pairwise_cons.mpr ⟨fun a ha => ?_, ih tailX tailY⟩
    rcases mem_merge.mp ha with ha | ha
    · exact headX a ha
    · exact headY a ha

theorem mem_dropRepeats {a : String} {l : List String}
    (h : l.Pairwise (· ≤ ·)) : a ∈ dropRepeats l ↔ a ∈ l := by
  fun_induction dropRepeats l with
  | case1 => simp
  | case2 => simp
  | case3 x y rest _ ih => simp [ih (List.pairwise_cons.mp h).2]
  | case4 x y rest nlt ih =>
    have hxy : x ≤ y := (List.pairwise_cons.mp h).1 y (by simp)
    have e : x = y := String.le_antisymm hxy (String.not_lt.mp nlt)
    subst e
    simp [ih (List.pairwise_cons.mp h).2]

theorem dropRepeats_ascending {l : List String} (h : l.Pairwise (· ≤ ·)) :
    Ascending (dropRepeats l) := by
  fun_induction dropRepeats l with
  | case1 => simp
  | case2 => simp
  | case3 x y rest lt ih =>
    have tail := (List.pairwise_cons.mp h).2
    refine List.pairwise_cons.mpr ⟨fun a ha => ?_, ih tail⟩
    rcases List.mem_cons.mp ((mem_dropRepeats tail).mp ha) with rfl | ha
    · exact lt
    · exact Std.lt_of_lt_of_le lt ((List.pairwise_cons.mp tail).1 a ha)
  | case4 x y rest _ ih => exact ih (List.pairwise_cons.mp h).2

def before (a b : String) : Bool := decide (a ≤ b)

theorem mergeSort_pairwise (l : List String) : (l.mergeSort before).Pairwise (· ≤ ·) := by
  have h : (l.mergeSort before).Pairwise (fun a b => before a b = true) :=
    List.pairwise_mergeSort
      (fun a b c hab hbc => by
        simp only [before, decide_eq_true_eq] at hab hbc ⊢
        exact String.le_trans hab hbc)
      (fun a b => by
        simp only [before, Bool.or_eq_true, decide_eq_true_eq]
        exact String.le_total a b) l
  exact h.imp (fun hab => by simpa [before] using hab)

/-- The members of `l` in ascending order, each once. -/
def sort (l : List String) : List String := dropRepeats (l.mergeSort before)

theorem sort_ascending (l : List String) : Ascending (sort l) :=
  dropRepeats_ascending (mergeSort_pairwise l)

theorem mem_sort {a : String} {l : List String} : a ∈ sort l ↔ a ∈ l := by
  unfold sort
  rw [mem_dropRepeats (mergeSort_pairwise l)]
  exact (List.mergeSort_perm l _).mem_iff

/-- Two ascending lists with the same members are equal. -/
theorem eq_of_mem_iff {xs ys : List String} (hx : Ascending xs) (hy : Ascending ys)
    (h : ∀ a, a ∈ xs ↔ a ∈ ys) : xs = ys := by
  induction xs generalizing ys with
  | nil =>
    cases ys with
    | nil => rfl
    | cons y ys => exact absurd ((h y).mpr (by simp)) (by simp)
  | cons x xs ih =>
    cases ys with
    | nil => exact absurd ((h x).mp (by simp)) (by simp)
    | cons y ys =>
      obtain ⟨headX, tailX⟩ := List.pairwise_cons.mp hx
      obtain ⟨headY, tailY⟩ := List.pairwise_cons.mp hy
      have hxy : x = y := by
        rcases List.mem_cons.mp ((h x).mp (by simp)) with e | hm
        · exact e
        · rcases List.mem_cons.mp ((h y).mpr (by simp)) with e | hm'
          · exact e.symm
          · exact absurd (String.lt_trans (headX y hm') (headY x hm)) (String.lt_irrefl x)
      subst hxy
      congr 1
      refine ih tailX tailY fun a => ⟨fun ha => ?_, fun ha => ?_⟩
      · rcases List.mem_cons.mp ((h a).mp (by simp [ha])) with e | hm
        · exact absurd (e ▸ headX a ha) (String.lt_irrefl a)
        · exact hm
      · rcases List.mem_cons.mp ((h a).mpr (by simp [ha])) with e | hm
        · exact absurd (e ▸ headY a ha) (String.lt_irrefl a)
        · exact hm

end Ascending

structure TextSet where
  toList : List String
  ascending : Ascending toList
deriving DecidableEq

namespace TextSet

def empty : TextSet := ⟨[], List.Pairwise.nil⟩

instance : EmptyCollection TextSet := ⟨empty⟩
instance : Inhabited TextSet := ⟨empty⟩
instance : Membership String TextSet := ⟨fun s a => a ∈ s.toList⟩

instance (a : String) (s : TextSet) : Decidable (a ∈ s) :=
  inferInstanceAs (Decidable (a ∈ s.toList))

def size (s : TextSet) : Nat := s.toList.length

def contains (s : TextSet) (a : String) : Bool := decide (a ∈ s)

def insert (s : TextSet) (a : String) : TextSet :=
  ⟨Ascending.insert a s.toList, Ascending.insert_ascending s.ascending⟩

/-- Adds one member, and says whether it was missing before. -/
def insertNew (s : TextSet) (a : String) : TextSet × Bool := (s.insert a, !s.contains a)

def union (s t : TextSet) : TextSet :=
  ⟨Ascending.merge s.toList t.toList, Ascending.merge_ascending s.ascending t.ascending⟩

instance : Union TextSet := ⟨union⟩

def ofList (l : List String) : TextSet := ⟨Ascending.sort l, Ascending.sort_ascending l⟩

@[simp] theorem not_mem_empty {a : String} : ¬a ∈ (∅ : TextSet) := List.not_mem_nil

@[simp] theorem mem_insert {a b : String} {s : TextSet} : a ∈ s.insert b ↔ a = b ∨ a ∈ s :=
  Ascending.mem_insert

@[simp] theorem mem_union {a : String} {s t : TextSet} : a ∈ s ∪ t ↔ a ∈ s ∨ a ∈ t :=
  Ascending.mem_merge

@[simp] theorem mem_ofList {a : String} {l : List String} : a ∈ ofList l ↔ a ∈ l :=
  Ascending.mem_sort

@[simp] theorem contains_iff {a : String} {s : TextSet} : s.contains a = true ↔ a ∈ s := by
  simp [contains]

theorem nodup (s : TextSet) : s.toList.Nodup := by
  refine s.ascending.imp ?_
  intro a b lt same
  exact String.lt_irrefl b (same ▸ lt)

theorem ext_mem {s t : TextSet} (h : ∀ a, a ∈ s ↔ a ∈ t) : s = t := by
  cases s with
  | mk xs hx =>
    cases t with
    | mk ys hy =>
      have e : xs = ys := Ascending.eq_of_mem_iff hx hy h
      subst e
      rfl

theorem ofList_congr {l l' : List String} (h : ∀ a, a ∈ l ↔ a ∈ l') : ofList l = ofList l' := by
  apply ext_mem
  intro a
  rw [mem_ofList, mem_ofList, h]

@[simp] theorem ofList_nil : ofList [] = ∅ := ext_mem fun a => by simp

@[simp] theorem empty_union (s : TextSet) : ∅ ∪ s = s := ext_mem fun a => by simp

@[simp] theorem union_empty (s : TextSet) : s ∪ ∅ = s := ext_mem fun a => by simp

theorem mem_foldl_union {α : Type} (f : α → TextSet) {l : List α} {s : TextSet} {a : String} :
    a ∈ l.foldl (fun all x => all ∪ f x) s ↔ a ∈ s ∨ ∃ x ∈ l, a ∈ f x := by
  induction l generalizing s with
  | nil => simp
  | cons x rest ih => simp [ih, or_assoc]

@[simp] theorem union_ofList_ofList (s : TextSet) (l l' : List String) :
    s ∪ ofList l ∪ ofList l' = s ∪ ofList (l ++ l') :=
  ext_mem fun a => by simp [or_assoc]

end TextSet

end RdfMapping
