import Mathlib.Data.Finset.Basic
import Mathlib.Data.Finset.Card
import Std.Data.HashSet.Lemmas
import RdfMapping.Proofs.Text.ByteOrder
import RdfMapping.Statement.Document

/-!
Sets of texts after any history.

Texts are kept in a hash table that knows no order (`TextTable`): of two tables that are united, one takes in
the texts of the other. A history makes, extends and unites sets under any number of names (`SetStep`), and
runs on every kind of sets (`SetKind`): on tables, on ascending lists of texts (`TextSet`), and on finite sets
as such. Where each operation keeps two kinds related, so does every history (`SetKind.Agree.run`). So tables
and lists hold what the set operations say, whichever table takes in the other, and what is printed of them is
determined by that (`sets_of_any_history`).
-/

namespace RdfMapping

/-! ## Histories -/

/-- How sets of a kind are made. Adding one text also says whether it was missing. -/
structure SetKind (σ : Type) where
  empty : σ
  insert : σ → String → σ × Bool
  extend : σ → List String → σ
  ofList : List String → σ
  union : σ → σ → σ

inductive SetStep where
  | clear (name : String)
  | insert (name text : String)
  | extend (name : String) (texts : List String)
  | collect (name : String) (texts : List String)
  | union (name left right : String)
  | merge (name other : String)

namespace SetKind

def step {σ : Type} (k : SetKind σ) (sets : String → σ) : SetStep → (String → σ) × List Bool
  | .clear name => (Function.update sets name k.empty, [])
  | .insert name text =>
    let (s, added) := k.insert (sets name) text
    (Function.update sets name s, [added])
  | .extend name texts => (Function.update sets name (k.extend (sets name) texts), [])
  | .collect name texts => (Function.update sets name (k.ofList texts), [])
  | .union name left right => (Function.update sets name (k.union (sets left) (sets right)), [])
  | .merge name other =>
    -- the set is taken out of its place before its union with the other one is put there
    let taken := Function.update sets name k.empty
    (Function.update taken name (k.union (sets name) (sets other)), [])

def run {σ : Type} (k : SetKind σ) : List SetStep → (String → σ) → (String → σ) × List Bool
  | [], sets => (sets, [])
  | s :: rest, sets =>
    let next := k.step sets s
    let last := k.run rest next.1
    (last.1, next.2 ++ last.2)

def after {σ : Type} (k : SetKind σ) (steps : List SetStep) : (String → σ) × List Bool :=
  k.run steps fun _ => k.empty

/-- The operations of two kinds keep their sets related, and say the same. -/
structure Agree {σ τ : Type} (R : σ → τ → Prop) (k : SetKind σ) (l : SetKind τ) : Prop where
  empty : R k.empty l.empty
  insert : ∀ {s t} (text : String), R s t →
    R (k.insert s text).1 (l.insert t text).1 ∧ (k.insert s text).2 = (l.insert t text).2
  extend : ∀ {s t} (texts : List String), R s t → R (k.extend s texts) (l.extend t texts)
  ofList : ∀ texts : List String, R (k.ofList texts) (l.ofList texts)
  union : ∀ {s t s' t'}, R s t → R s' t' → R (k.union s s') (l.union t t')

section Agree

variable {σ τ : Type} {R : σ → τ → Prop} {k : SetKind σ} {l : SetKind τ} {sets : String → σ}
  {others : String → τ}

theorem related_update (h : ∀ name, R (sets name) (others name)) {s : σ} {t : τ} (related : R s t)
    (at_name : String) : ∀ name, R (Function.update sets at_name s name)
      (Function.update others at_name t name) := by
  intro name
  by_cases same : name = at_name
  · subst same
    rwa [Function.update_self, Function.update_self]
  · rw [Function.update_of_ne same, Function.update_of_ne same]
    exact h name

theorem Agree.step (agree : Agree R k l) (h : ∀ name, R (sets name) (others name)) (s : SetStep) :
    (∀ name, R ((k.step sets s).1 name) ((l.step others s).1 name)) ∧
      (k.step sets s).2 = (l.step others s).2 := by
  cases s with
  | clear name => exact ⟨related_update h agree.empty name, rfl⟩
  | insert name text =>
    obtain ⟨related, same⟩ := agree.insert text (h name)
    exact ⟨related_update h related name, congrArg ([·]) same⟩
  | extend name texts => exact ⟨related_update h (agree.extend texts (h name)) name, rfl⟩
  | collect name texts => exact ⟨related_update h (agree.ofList texts) name, rfl⟩
  | union name left right => exact ⟨related_update h (agree.union (h left) (h right)) name, rfl⟩
  | merge name other =>
    have taken := related_update h agree.empty name
    exact ⟨related_update taken (agree.union (h name) (h other)) name, rfl⟩

theorem Agree.run (agree : Agree R k l) (h : ∀ name, R (sets name) (others name)) (steps : List SetStep) :
    (∀ name, R ((k.run steps sets).1 name) ((l.run steps others).1 name)) ∧
      (k.run steps sets).2 = (l.run steps others).2 := by
  induction steps generalizing sets others with
  | nil => exact ⟨h, rfl⟩
  | cons s rest ih =>
    obtain ⟨related, said⟩ := agree.step h s
    obtain ⟨related', more⟩ := ih related
    exact ⟨related', congrArg₂ (· ++ ·) said more⟩

theorem Agree.after (agree : Agree R k l) (steps : List SetStep) :
    (∀ name, R ((k.after steps).1 name) ((l.after steps).1 name)) ∧ (k.after steps).2 = (l.after steps).2 :=
  agree.run (fun _ => agree.empty) steps

end Agree

def finite : SetKind (Finset String) where
  empty := ∅
  insert s text := (Insert.insert text s, decide (text ∉ s))
  extend s texts := s ∪ texts.toFinset
  ofList texts := texts.toFinset
  union s t := s ∪ t

def ascending : SetKind TextSet where
  empty := ∅
  insert := TextSet.insertNew
  extend s texts := s ∪ TextSet.ofList texts
  ofList := TextSet.ofList
  union s t := s ∪ t

end SetKind

/-! ## Ascending lists -/

namespace TextSet

def Holds (s : TextSet) (m : Finset String) : Prop := ∀ a, a ∈ s ↔ a ∈ m

theorem agree_finite : SetKind.Agree Holds SetKind.ascending SetKind.finite where
  empty := by
    intro a
    simp [SetKind.ascending, SetKind.finite]
  insert := by
    intro s m text h
    refine ⟨?_, ?_⟩
    · intro a
      simp [SetKind.ascending, SetKind.finite, insertNew, h a]
    · have missing : s.contains text = decide (text ∈ m) := by
        rw [contains, decide_eq_decide]
        exact h text
      simp [SetKind.ascending, SetKind.finite, insertNew, missing]
  extend := by
    intro s m texts h a
    simp [SetKind.ascending, SetKind.finite, h a]
  ofList := by
    intro texts a
    simp [SetKind.ascending, SetKind.finite]
  union := by
    intro s m t n h h' a
    simp [SetKind.ascending, SetKind.finite, h a, h' a]

section Holds

variable {s t : TextSet} {m n : Finset String}

theorem Holds.size_eq (h : s.Holds m) : s.size = m.card := by
  have same : s.toList.toFinset = m := Finset.ext fun a => List.mem_toFinset.trans (h a)
  rw [← same, List.toFinset_card_of_nodup s.nodup, size]

theorem Holds.eq_iff (h : s.Holds m) (h' : t.Holds n) : s = t ↔ m = n := by
  refine ⟨?_, ?_⟩
  · rintro rfl
    exact Finset.ext fun a => (h a).symm.trans (h' a)
  · rintro rfl
    exact ext_mem fun a => (h a).trans (h' a).symm

end Holds

/-! ## Documents -/

/-- Each line is ended by a line feed, so that what is left after the last one is empty. -/
theorem toList_join_lines (l : List String) : (String.join (l.map (· ++ "\n"))).toList =
    ['\n'].intercalate (l.map String.toList ++ [[]]) := by
  rw [String.toList_join]
  induction l with
  | nil => rfl
  | cons a rest ih =>
    cases more : rest.map String.toList ++ [[]] with
    | nil => simp at more
    | cons b others =>
      rw [List.map_cons, List.flatMap_cons, ih, List.map_cons, List.cons_append, more,
        List.intercalate_cons_cons, String.toList_append]
      rfl

theorem splitOn_document {s : TextSet} (single : ∀ a ∈ s, '\n' ∉ a.toList) :
    s.document.toList.splitOn '\n' = s.toList.map String.toList ++ [[]] := by
  rw [document, toList_join_lines]
  refine List.splitOn_intercalate '\n' ?_ (by simp)
  intro line hl
  rcases List.mem_append.mp hl with some_line | last
  · obtain ⟨a, ha, rfl⟩ := List.mem_map.mp some_line
    exact single a ha
  · rw [List.mem_singleton.mp last]
    exact List.not_mem_nil

theorem document_inj {s t : TextSet} (single : ∀ a ∈ s, '\n' ∉ a.toList)
    (single' : ∀ a ∈ t, '\n' ∉ a.toList) (same : s.document = t.document) : s = t := by
  have lines := splitOn_document single
  rw [same, splitOn_document single'] at lines
  have inj : Function.Injective String.toList := fun _ _ => String.toList_injective
  have texts : t.toList = s.toList := List.map_injective_iff.mpr inj (List.append_cancel_right lines)
  refine ext_mem fun a => ?_
  show a ∈ s.toList ↔ a ∈ t.toList
  rw [texts]

end TextSet

/-! ## Tables -/

/-- A set of texts in a hash table. -/
structure TextTable where
  texts : Std.HashSet String

namespace TextTable

def contains (t : TextTable) (text : String) : Bool := t.texts.contains text

def size (t : TextTable) : Nat := t.texts.size

def insert (t : TextTable) (text : String) : TextTable × Bool :=
  let (present, texts) := t.texts.containsThenInsert text
  (⟨texts⟩, !present)

def extend (t : TextTable) (texts : List String) : TextTable := ⟨t.texts.insertMany texts⟩

/-- The table takes in the texts of the other one, in the order in which they lie there. -/
def absorb (t other : TextTable) : TextTable := t.extend other.texts.toList

/-- How tables are made, when it is known which of two tables takes in the other. -/
def kind (absorbs : TextTable → TextTable → Bool) : SetKind TextTable where
  empty := ⟨∅⟩
  insert := insert
  extend := extend
  ofList texts := extend ⟨∅⟩ texts
  union t other := if absorbs t other then t.absorb other else other.absorb t

/-- A table takes in another one that has no more texts. -/
def isLarger (t other : TextTable) : Bool := other.size ≤ t.size

def same (t other : TextTable) : Bool :=
  t.size == other.size && t.texts.toList.all other.contains

def sorted (t : TextTable) : List String :=
  t.texts.toList.mergeSort fun a b => decide (Percent.utf8 a ≤ Percent.utf8 b)

def document (t : TextTable) : String :=
  t.sorted.foldl (fun written text => (written ++ text).push '\n') ""

def Holds (t : TextTable) (m : Finset String) : Prop := ∀ a, t.contains a = true ↔ a ∈ m

theorem Holds.extend {t : TextTable} {m : Finset String} (h : t.Holds m) (texts : List String) :
    (t.extend texts).Holds (m ∪ texts.toFinset) := by
  intro a
  rw [contains, TextTable.extend, Std.HashSet.contains_insertMany_list, Bool.or_eq_true,
    List.contains_iff_mem, Finset.mem_union, List.mem_toFinset]
  exact or_congr_left (h a)

theorem mem_toList_iff {t : TextTable} {a : String} : a ∈ t.texts.toList ↔ t.contains a = true := by
  rw [Std.HashSet.mem_toList, contains, Std.HashSet.mem_iff_contains]

theorem Holds.toFinset_toList {t : TextTable} {m : Finset String} (h : t.Holds m) :
    t.texts.toList.toFinset = m :=
  Finset.ext fun a => List.mem_toFinset.trans (mem_toList_iff.trans (h a))

theorem Holds.absorb {t u : TextTable} {m n : Finset String} (h : t.Holds m) (h' : u.Holds n) :
    (t.absorb u).Holds (m ∪ n) :=
  h'.toFinset_toList ▸ h.extend u.texts.toList

theorem agree_finite (absorbs : TextTable → TextTable → Bool) :
    SetKind.Agree Holds (kind absorbs) SetKind.finite where
  empty := by
    intro a
    simp [kind, SetKind.finite, contains]
  insert := by
    intro t m text h
    refine ⟨?_, ?_⟩
    · intro a
      have added := h a
      simp only [kind, SetKind.finite, insert, Std.HashSet.containsThenInsert_snd, contains,
        Std.HashSet.contains_insert, Bool.or_eq_true, beq_iff_eq, Finset.mem_insert] at added ⊢
      exact or_congr eq_comm added
    · have present : t.texts.contains text = decide (text ∈ m) :=
        Bool.eq_iff_iff.mpr ((h text).trans decide_eq_true_iff.symm)
      simp only [kind, SetKind.finite, insert, Std.HashSet.containsThenInsert_fst, present, decide_not]
  extend := fun texts h => h.extend texts
  ofList := by
    intro texts
    have none : Holds ⟨∅⟩ ∅ := fun a => by simp [contains]
    simpa [kind, SetKind.finite] using none.extend texts
  union := by
    intro t m u n h h'
    simp only [kind, SetKind.finite]
    split
    · exact h.absorb h'
    · rw [Finset.union_comm]
      exact h'.absorb h

section Holds

variable {t u : TextTable} {m n : Finset String}

theorem nodup_toList (t : TextTable) : t.texts.toList.Nodup :=
  t.texts.distinct_toList.imp fun apart => beq_eq_false_iff_ne.mp apart

theorem Holds.size_eq (h : t.Holds m) : t.size = m.card := by
  rw [← h.toFinset_toList, List.toFinset_card_of_nodup t.nodup_toList, Std.HashSet.length_toList, size]

theorem Holds.same_iff (h : t.Holds m) (h' : u.Holds n) : t.same u = true ↔ m = n := by
  have part : (∀ a ∈ t.texts.toList, u.contains a = true) ↔ m ⊆ n := by
    refine forall_congr' fun a => ?_
    rw [mem_toList_iff, h a, h' a]
  rw [same, Bool.and_eq_true, beq_iff_eq, List.all_eq_true, part, h.size_eq, h'.size_eq]
  refine ⟨?_, ?_⟩
  · rintro ⟨size, sub⟩
    exact Finset.eq_of_subset_of_card_le sub size.ge
  · rintro rfl
    exact ⟨rfl, Finset.Subset.refl m⟩

/-- Sorted by their bytes, the texts of a table are those of the set in ascending order. -/
theorem Holds.sorted_eq (h : t.Holds m) {s : TextSet} (h' : s.Holds m) : t.sorted = s.toList := by
  have order : (fun a b => decide (Percent.utf8 a ≤ Percent.utf8 b)) = Ascending.before := by
    funext a b
    exact decide_eq_decide.mpr (not_congr Percent.utf8_lt_iff)
  rw [sorted, order]
  have apart : (t.texts.toList.mergeSort Ascending.before).Nodup :=
    (List.mergeSort_perm _ _).nodup_iff.mpr t.nodup_toList
  refine Ascending.eq_of_mem_iff ?_ s.ascending fun a => ?_
  · refine ((Ascending.mergeSort_pairwise _).and apart).imp fun hab => ?_
    exact String.not_le.mp fun hba => hab.2 (String.le_antisymm hab.1 hba)
  · rw [(List.mergeSort_perm _ _).mem_iff, mem_toList_iff, h a, ← h' a]
    rfl

theorem document_eq (t : TextTable) : t.document = String.join (t.sorted.map (· ++ "\n")) := by
  have line : (fun written text : String => (written ++ text).push '\n') =
      fun written text => written ++ (text ++ "\n") := by
    funext written text
    rw [← String.toList_inj]
    simp
  rw [document, line, String.join, List.foldl_map]

end Holds

end TextTable

/-- **Sets after any history.** Let texts be added, and sets be made, extended and united, in any order and
under any number of names. Whichever of two tables takes in the other when they are united, tables and
ascending lists hold the texts that the operations on finite sets say, and each addition says whether the
text was missing. So they have as many texts as the finite sets, and are equal exactly if these are. The
texts of a table, sorted by their bytes, are the list, which is strictly ascending by bytes, and the document
is made of them with a line feed after each. Split at line feeds, the document of texts without line feeds
gives the list back, so that sets of such texts with one document are equal. -/
theorem sets_of_any_history (absorbs : TextTable → TextTable → Bool) (steps : List SetStep) :
    ((TextTable.kind absorbs).after steps).2 = (SetKind.finite.after steps).2 ∧
    (SetKind.ascending.after steps).2 = (SetKind.finite.after steps).2 ∧
    ∀ (name : String) (t : TextTable) (s : TextSet) (m : Finset String),
      ((TextTable.kind absorbs).after steps).1 name = t → (SetKind.ascending.after steps).1 name = s →
      (SetKind.finite.after steps).1 name = m →
        (∀ a, (t.contains a = true ↔ a ∈ m) ∧ (a ∈ s ↔ a ∈ m)) ∧
        t.size = m.card ∧ s.size = m.card ∧
        t.sorted = s.toList ∧ s.toList.Pairwise (Percent.utf8 · < Percent.utf8 ·) ∧
        t.document = s.document ∧ s.document = String.join (s.toList.map (· ++ "\n")) ∧
        ((∀ a ∈ m, '\n' ∉ a.toList) →
          s.document.toList.splitOn '\n' = s.toList.map String.toList ++ [[]]) ∧
        ∀ (other : String) (t' : TextTable) (s' : TextSet) (m' : Finset String),
          ((TextTable.kind absorbs).after steps).1 other = t' →
          (SetKind.ascending.after steps).1 other = s' → (SetKind.finite.after steps).1 other = m' →
            (t.same t' = true ↔ m = m') ∧ (s = s' ↔ m = m') ∧
            ((∀ a ∈ m, '\n' ∉ a.toList) → (∀ a ∈ m', '\n' ∉ a.toList) →
              s.document = s'.document → m = m') := by
  obtain ⟨tables, said⟩ := (TextTable.agree_finite absorbs).after steps
  obtain ⟨lists, said'⟩ := TextSet.agree_finite.after steps
  refine ⟨said, said', ?_⟩
  rintro name _ _ _ rfl rfl rfl
  have table := tables name
  have list := lists name
  have sorted := table.sorted_eq list
  refine ⟨fun a => ⟨table a, list a⟩, table.size_eq, list.size_eq, sorted, ?_, ?_, rfl, ?_, ?_⟩
  · exact ((SetKind.ascending.after steps).1 name).ascending.imp Percent.utf8_lt_iff.mpr
  · rw [TextTable.document_eq, sorted, TextSet.document]
  · intro single
    exact TextSet.splitOn_document fun a ha => single a ((list a).mp ha)
  · rintro other _ _ _ rfl rfl rfl
    refine ⟨table.same_iff (tables other), list.eq_iff (lists other), ?_⟩
    intro single single' same
    refine (list.eq_iff (lists other)).mp (TextSet.document_inj ?_ ?_ same)
    · exact fun a ha => single a ((list a).mp ha)
    · exact fun a ha => single' a ((lists other a).mp ha)

def sharedLine : List SetStep :=
  [.insert "left" "b", .insert "left" "a", .insert "left" "b", .collect "right" ["c", "b"],
    .union "all" "right" "left", .merge "left" "right"]

/-- The line is added once, and it does not show which of the sets took in the other. -/
theorem sets_of_sharedLine :
    ((TextTable.kind TextTable.isLarger).after sharedLine).2 = [true, true, false] ∧
    (((TextTable.kind TextTable.isLarger).after sharedLine).1 "all").same
      (((TextTable.kind TextTable.isLarger).after sharedLine).1 "left") = true ∧
    ((SetKind.ascending.after sharedLine).1 "all").size = 3 ∧
    ((SetKind.ascending.after sharedLine).1 "all").document.toList.splitOn '\n' =
      ((SetKind.ascending.after sharedLine).1 "all").toList.map String.toList ++ [[]] := by
  obtain ⟨said, -, sets⟩ := sets_of_any_history TextTable.isLarger sharedLine
  obtain ⟨-, -, size, -, -, -, -, lines, others⟩ := sets "all" _ _ _ rfl rfl rfl
  refine ⟨said.trans (by decide +kernel), ?_, size.trans (by decide +kernel), lines (by decide +kernel)⟩
  exact (others "left" _ _ _ rfl rfl rfl).1.mpr (by decide +kernel)

end RdfMapping
