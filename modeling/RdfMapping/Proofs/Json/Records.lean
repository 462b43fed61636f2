import Mathlib.Data.List.Forall2
import Mathlib.Data.List.Nodup
import RdfMapping.Json.Fields
import RdfMapping.Proofs.Outcome

/-!
The JSON values that spell a record.

A record is a list of fields with their values (`RecordField`). An object spells it if it gives each field at
most once, in whatever order and whatever else it holds, and an array if it gives the fields in their
order; what is not given has to be left out by right (`Spelled`). The values that are found for the
fields of a record say whether they spell it (`spelled_iff`). So no value that gives a field twice spells
anything (`not_spelled_of_repeats`).
-/

namespace RdfMapping.Json

/-- A field of a record that has a value: the names under which it may be given, the JSON values that
stand for what it has, and whether it may be left out. -/
structure RecordField where
  names : Spellings
  stands : Json → Prop
  omissible : Prop

namespace RecordField

variable {α : Type}

def optional (names : Spellings) (stands : α → Json → Prop) (absent a : α) : RecordField :=
  ⟨names, stands a, a = absent⟩

def required (names : Spellings) (stands : α → Json → Prop) (a : α) : RecordField :=
  ⟨names, stands a, False⟩

/-- What is found for a field: a value that stands for it, or nothing if it may be left out. -/
def Takes (f : RecordField) : Option Json → Prop
  | some j => f.stands j
  | none => f.omissible

end RecordField

/-- The JSON values that spell a record with the given fields. -/
inductive Spelled (fields : List RecordField) : Json → Prop
  | object {members} (named : ∀ m ∈ members, m.1.isSome)
      (stands : ∀ f ∈ fields, ∀ m ∈ members, spells f.names m → f.stands m.2)
      (once : ∀ f ∈ fields, members.countP (spells f.names) ≤ 1)
      (given : ∀ f ∈ fields, (∃ m ∈ members, spells f.names m) ∨ f.omissible) :
      Spelled fields (.object members)
  | array {front back items} (parts : fields = front ++ back)
      (stands : List.Forall₂ RecordField.stands front items) (left : ∀ f ∈ back, f.omissible) :
      Spelled fields (.array items)

/-- An object that gives one of the fields twice. -/
def Repeats (spellings : List Spellings) (j : Json) : Prop :=
  ∃ members, j = .object members ∧ ∃ names ∈ spellings, 2 ≤ members.countP (spells names)

/-- What is given for the field with the given names: a member of an object under one of them, or the
item of an array in its place. -/
inductive Gives (spellings : List Spellings) (names : Spellings) : Json → Json → Prop
  | named {members name value} (spelled : name ∈ names) (member : (some name, value) ∈ members) :
      Gives spellings names (.object members) value
  | placed {items value} {i : Nat} (field : spellings[i]? = some names)
      (item : items[i]? = some value) : Gives spellings names (.array items) value

/-! ## What is found for the fields -/

theorem takes_member?_iff (f : RecordField) (members : List (Option String × Json)) :
    (∃ v, member? members f.names = some v ∧ f.Takes v) ↔
      (∀ m ∈ members, spells f.names m → f.stands m.2) ∧ members.countP (spells f.names) ≤ 1 ∧
        ((∃ m ∈ members, spells f.names m) ∨ f.omissible) := by
  have all : (∀ m ∈ members, spells f.names m → f.stands m.2) ↔
      ∀ m ∈ members.filter (spells f.names), f.stands m.2 := by
    simp [List.mem_filter]
  have any : (∃ m ∈ members, spells f.names m) ↔ ∃ m, m ∈ members.filter (spells f.names) := by
    simp [List.mem_filter]
  rw [all, any, List.countP_eq_length_filter, member?]
  cases members.filter (spells f.names) with
  | nil => simp [RecordField.Takes]
  | cons m rest =>
    cases rest with
    | nil => simp [RecordField.Takes]
    | cons m' rest => simp

theorem exists_mapM_iff {α β : Type} {g : α → Option β} {p : α → β → Prop} {l : List α} :
    (∀ a ∈ l, ∃ b, g a = some b ∧ p a b) ↔ ∃ bs, l.mapM g = some bs ∧ List.Forall₂ p l bs := by
  simp only [mapM_eq_some_iff]
  induction l with
  | nil => simp
  | cons a l ih =>
    rw [List.forall_mem_cons, ih]
    refine ⟨?_, ?_⟩
    · intro h
      obtain ⟨⟨b, head, hb⟩, bs, tail, hbs⟩ := h
      exact ⟨b :: bs, by simp [head, tail], .cons hb hbs⟩
    · intro h
      obtain ⟨bs, whole, all⟩ := h
      cases all with
      | cons hb hbs =>
        obtain ⟨head, tail⟩ := List.cons.inj whole
        exact ⟨⟨_, head, hb⟩, _, tail, hbs⟩

/-- An array gives the fields in front of those that it leaves out. -/
theorem takes_items_iff {fields : List RecordField} {items : List Json}
    (short : items.length ≤ fields.length) :
    List.Forall₂ RecordField.Takes fields
        (items.map some ++ List.replicate (fields.length - items.length) none) ↔
      List.Forall₂ RecordField.stands (fields.take items.length) items ∧
        ∀ f ∈ fields.drop items.length, f.omissible := by
  have given : ∀ front : List RecordField, List.Forall₂ RecordField.Takes front (items.map some) ↔
      List.Forall₂ RecordField.stands front items := fun front => List.forall₂_map_right_iff
  have left : ∀ back : List RecordField,
      List.Forall₂ RecordField.Takes back (List.replicate back.length none) ↔
        ∀ f ∈ back, f.omissible := by
    intro back
    induction back with
    | nil => simp
    | cons f back ih =>
      rw [List.length_cons, List.replicate_succ, List.forall₂_cons, ih, List.forall_mem_cons]
      rfl
  rw [← given, ← left, List.length_drop]
  have size : (fields.take items.length).length = (items.map some).length := by
    rw [List.length_take, List.length_map, Nat.min_eq_left short]
  refine ⟨fun h => ?_, fun h => ?_⟩
  · have front := List.forall₂_take items.length h
    have back := List.forall₂_drop items.length h
    rw [List.take_left' (List.length_map ..)] at front
    rw [List.drop_left' (List.length_map ..)] at back
    exact ⟨front, back⟩
  · have whole := List.rel_append h.1 h.2
    simpa only [List.take_append_drop] using whole

/-- A value spells a record exactly if what is found for the fields is right for each of them. -/
theorem spelled_iff {fields : List RecordField} {j : Json} :
    Spelled fields j ↔ ∃ values, fields? (fields.map (·.names)) j = some values ∧
      List.Forall₂ RecordField.Takes fields values := by
  have noRecord : ∀ {k : Json}, (∀ members, k ≠ .object members) → (∀ items, k ≠ .array items) →
      ¬Spelled fields k := by
    intro k noObject noArray spelled
    cases spelled with
    | object => exact noObject _ rfl
    | array => exact noArray _ rfl
  cases j with
  | object members =>
    have found : Spelled fields (.object members) ↔ (∀ m ∈ members, m.1.isSome) ∧
        ∀ f ∈ fields, ∃ v, member? members f.names = some v ∧ f.Takes v := by
      simp only [takes_member?_iff]
      refine ⟨?_, ?_⟩
      · intro h
        obtain ⟨named, stands, once, given⟩ := h
        exact ⟨named, fun f hf => ⟨stands f hf, once f hf, given f hf⟩⟩
      · intro h
        obtain ⟨named, each⟩ := h
        exact .object named (fun f hf => (each f hf).1) (fun f hf => (each f hf).2.1)
          fun f hf => (each f hf).2.2
    rw [found, exists_mapM_iff, fields?, List.mapM_map]
    by_cases named : ∀ m ∈ members, m.1.isSome
    · rw [if_pos (List.all_eq_true.mpr named)]
      exact and_iff_right named
    · rw [if_neg fun all => named (List.all_eq_true.mp all)]
      refine ⟨fun h => absurd h.1 named, ?_⟩
      intro h
      obtain ⟨values, ⟨⟩, -⟩ := h
  | array items =>
    rw [fields?, List.length_map]
    refine ⟨?_, ?_⟩
    · intro h
      cases h with
      | @array front back _ parts stands left =>
        have size := stands.length_eq
        have short : items.length ≤ fields.length := by
          rw [parts, List.length_append]
          omega
        rw [if_pos short]
        refine ⟨_, rfl, (takes_items_iff short).mpr ⟨?_, ?_⟩⟩
        · rwa [parts, List.take_left' size]
        · rwa [parts, List.drop_left' size]
    · intro h
      obtain ⟨values, found, takes⟩ := h
      split at found
      · rename_i short
        obtain rfl := Option.some.inj found
        obtain ⟨stands, left⟩ := (takes_items_iff short).mp takes
        exact .array (List.take_append_drop ..).symm stands left
      · cases found
  | null => simp [fields?, noRecord]
  | bool b => simp [fields?, noRecord]
  | number digits => simp [fields?, noRecord]
  | string s => simp [fields?, noRecord]

theorem length_of_fields? {spellings : List Spellings} {j : Json} {values : List (Option Json)}
    (h : fields? spellings j = some values) : values.length = spellings.length := by
  cases j with
  | object members =>
    rw [fields?] at h
    split at h
    · exact length_of_mapM h
    · cases h
  | array items =>
    rw [fields?] at h
    split at h
    · obtain rfl := Option.some.inj h
      simp
      omega
    · cases h
  | _ => cases h

theorem not_spelled_of_repeats (fields : List RecordField) {j : Json}
    (h : Repeats (fields.map (·.names)) j) : ¬Spelled fields j := by
  obtain ⟨members, rfl, names, hn, twice⟩ := h
  obtain ⟨f, hf, rfl⟩ := List.mem_map.mp hn
  intro h
  obtain ⟨-, -, once, -⟩ := h
  exact absurd (once f hf) (Nat.not_le.mpr twice)

/-- What is given for a field of a record that is spelled stands for what the field has. -/
theorem stands_of_gives {fields : List RecordField} {f : RecordField} {j value : Json}
    (distinct : (fields.map (·.names)).Nodup) (hf : f ∈ fields) (spelled : Spelled fields j)
    (given : Gives (fields.map (·.names)) f.names j value) : f.stands value := by
  cases given with
  | @named members name _ hn member =>
    cases spelled with
    | object _ stands _ _ => exact stands f hf _ member (by simpa [spells] using hn)
  | @placed items _ i field item =>
    cases spelled with
    | @array front back _ parts stands _ =>
      obtain ⟨within, rfl⟩ := List.getElem?_eq_some_iff.mp item
      have inFront : i < front.length := stands.length_eq ▸ within
      have here := stands.get inFront within
      have member : front[i] ∈ fields := by simp [parts]
      rw [parts, List.getElem?_map, List.getElem?_append_left inFront,
        List.getElem?_eq_getElem inFront, Option.map_some] at field
      have same := List.inj_on_of_nodup_map distinct member hf (Option.some.inj field)
      exact same ▸ here

/-! ## Reading a field -/

section Reading

variable {α : Type} {read? : Json → Option α} {stands : α → Json → Prop}

theorem optional?_eq_some_iff (reads : ∀ j a, read? j = some a ↔ stands a j) {absent a : α}
    (names : Spellings) (v : Option Json) :
    optional? absent read? v = some a ↔ (RecordField.optional names stands absent a).Takes v := by
  cases v with
  | some j => exact reads j a
  | none =>
    simp only [optional?, RecordField.Takes, RecordField.optional, Option.some.injEq]
    exact eq_comm

theorem required?_eq_some_iff (reads : ∀ j a, read? j = some a ↔ stands a j) {a : α}
    (names : Spellings) (v : Option Json) :
    required? read? v = some a ↔ (RecordField.required names stands a).Takes v := by
  cases v with
  | some j => exact reads j a
  | none => simp [required?, RecordField.Takes, RecordField.required]

theorem text?_eq_some_iff (j : Json) (s : String) : text? j = some s ↔ j = text s := by
  cases j with
  | string t => cases t <;> simp [text?, text]
  | _ => simp [text?, text]

theorem textOrNull?_eq_some_iff (j : Json) (s : Option String) :
    textOrNull? j = some s ↔ j = textOrNull s := by
  cases j with
  | null => cases s <;> simp [textOrNull?, textOrNull, text]
  | string t => cases t <;> cases s <;> simp [textOrNull?, textOrNull, text]
  | _ => cases s <;> simp [textOrNull?, textOrNull, text]

/-- An array of values that stand for those of a list, one for each. -/
def StandsForList (stands : α → Json → Prop) (l : List α) (j : Json) : Prop :=
  ∃ items, j = .array items ∧ List.Forall₂ stands l items

theorem list?_eq_some_iff (reads : ∀ j a, read? j = some a ↔ stands a j) (j : Json) (l : List α) :
    list? read? j = some l ↔ StandsForList stands l j := by
  have each : ∀ items : List Json, items.mapM read? = some l ↔ List.Forall₂ stands l items := by
    intro items
    simp only [mapM_eq_some_iff_forall₂, reads]
    exact ⟨List.Forall₂.flip, List.Forall₂.flip⟩
  cases j with
  | array items => simp [list?, StandsForList, each]
  | _ => simp [list?, StandsForList]

end Reading

end RdfMapping.Json
