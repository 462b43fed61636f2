import Mathlib.Data.List.Basic
import RdfMapping.Proofs.Outcome
import RdfMapping.Run.Materialize

/-!
Rules one after the other.

A sequence of attempts gives what all of them give, or stops where the first of them is stopped; its
journal is made up of those of the attempts that were made (`sequence_eq_of_all`,
`sequence_eq_of_first`). Partitions that are run in turn are a sequence of sequences of rules; without
regard to what it gives it is one sequence (`course_runAll`), and so the first rule of all that is
stopped ends it (`runAll_eq_of_all`, `runAll_eq_of_first`).
-/

namespace RdfMapping

namespace Attempt

variable {α β γ : Type}

def sequence : List (Attempt α) → Attempt (List α)
  | [] => .done []
  | a :: rest => a.andThen fun x => (sequence rest).map (x :: ·)

theorem andThen_of_ok {a : Attempt α} {x : α} (h : a.outcome = .ok x) (f : α → Attempt β) :
    a.andThen f = ⟨a.journal ++ (f x).journal, (f x).outcome⟩ := by
  rw [andThen, h]

theorem andThen_of_error {a : Attempt α} {stop : Stop} (h : a.outcome = .error stop)
    (f : α → Attempt β) : a.andThen f = ⟨a.journal, .error stop⟩ := by
  rw [andThen, h]

theorem sequence_eq_of_all {l : List γ} {attempt : γ → Attempt α} {given : γ → α}
    (h : ∀ c ∈ l, (attempt c).outcome = .ok (given c)) :
    sequence (l.map attempt) = ⟨l.flatMap fun c => (attempt c).journal, .ok (l.map given)⟩ := by
  induction l with
  | nil => rfl
  | cons c l ih =>
    obtain ⟨head, tail⟩ := List.forall_mem_cons.mp h
    rw [List.map_cons, sequence, andThen_of_ok head, ih tail]
    rfl

/-- The first that is stopped is the last that is made. -/
theorem sequence_eq_of_first {before after : List γ} {c : γ} {attempt : γ → Attempt α} {stop : Stop}
    (earlier : ∀ b ∈ before, ∃ x, (attempt b).outcome = .ok x) (h : (attempt c).outcome = .error stop) :
    sequence ((before ++ c :: after).map attempt) =
      ⟨(before ++ [c]).flatMap fun b => (attempt b).journal, .error stop⟩ := by
  induction before with
  | nil =>
    rw [List.nil_append, List.map_cons, sequence, andThen_of_error h]
    simp
  | cons b before ih =>
    obtain ⟨⟨x, head⟩, tail⟩ := List.forall_mem_cons.mp earlier
    rw [List.cons_append, List.map_cons, sequence, andThen_of_ok head, ih tail]
    rfl

theorem all_or_first (l : List γ) (attempt : γ → Attempt α) :
    (∀ c ∈ l, ∃ x, (attempt c).outcome = .ok x) ∨
      ∃ before c after stop, l = before ++ c :: after ∧
        (∀ b ∈ before, ∃ x, (attempt b).outcome = .ok x) ∧ (attempt c).outcome = .error stop := by
  induction l with
  | nil => exact .inl (by simp)
  | cons c l ih =>
    cases h : (attempt c).outcome with
    | error stop => exact .inr ⟨[], c, l, stop, rfl, by simp, h⟩
    | ok x =>
      rcases ih with all | ⟨before, k, after, stop, rfl, earlier, stops⟩
      · exact .inl (List.forall_mem_cons.mpr ⟨⟨x, h⟩, all⟩)
      · exact .inr ⟨c :: before, k, after, stop, rfl, List.forall_mem_cons.mpr ⟨⟨x, h⟩, earlier⟩, stops⟩

/-- If some of them would be stopped, the sequence is stopped as one of them is. -/
theorem sequence_eq_of_some {l : List γ} {attempt : γ → Attempt α}
    (h : ∃ c ∈ l, ∃ stop, (attempt c).outcome = .error stop) :
    ∃ c ∈ l, ∃ stop, (attempt c).outcome = .error stop ∧
      (sequence (l.map attempt)).outcome = .error stop := by
  induction l with
  | nil => simp at h
  | cons c l ih =>
    rw [List.map_cons, sequence]
    cases first : (attempt c).outcome with
    | error stop =>
      rw [andThen_of_error first]
      exact ⟨c, List.mem_cons_self, stop, first, rfl⟩
    | ok x =>
      have later : ∃ c ∈ l, ∃ stop, (attempt c).outcome = .error stop := by
        simpa [first] using h
      obtain ⟨c', hc, stop, ended, last⟩ := ih later
      rw [andThen_of_ok first, map, last]
      exact ⟨c', List.mem_cons_of_mem _ hc, stop, ended, rfl⟩

/-- An attempt without what it gives. -/
def course (a : Attempt α) : Attempt Unit := a.map fun _ => ()

theorem andThen_assoc (a : Attempt α) (f : α → Attempt β) (g : β → Attempt γ) :
    (a.andThen f).andThen g = a.andThen fun x => (f x).andThen g := by
  obtain ⟨j, outcome⟩ := a
  cases outcome with
  | error stop => rfl
  | ok x =>
    simp only [andThen]
    cases (f x).outcome <;> simp

theorem map_andThen (a : Attempt α) (e : α → β) (f : β → Attempt γ) :
    (a.map e).andThen f = a.andThen fun x => f (e x) := by
  obtain ⟨j, outcome⟩ := a
  cases outcome <;> rfl

theorem course_map (a : Attempt α) (e : α → β) : (a.map e).course = a.course := by
  obtain ⟨j, outcome⟩ := a
  cases outcome <;> rfl

theorem course_andThen (a : Attempt α) (f : α → Attempt β) :
    (a.andThen f).course = a.andThen fun x => (f x).course := by
  obtain ⟨j, outcome⟩ := a
  cases outcome <;> rfl

theorem ok_of_course {a : Attempt α} {j : Journal} {u : Unit} (h : a.course = ⟨j, .ok u⟩) :
    ∃ x, a = ⟨j, .ok x⟩ := by
  obtain ⟨journal, outcome⟩ := a
  cases outcome with
  | error stop => cases h
  | ok x =>
    cases h
    exact ⟨x, rfl⟩

theorem eq_of_course {a : Attempt α} {j : Journal} {stop : Stop} (h : a.course = ⟨j, .error stop⟩) :
    a = ⟨j, .error stop⟩ := by
  obtain ⟨journal, outcome⟩ := a
  cases outcome with
  | ok x => cases h
  | error stop =>
    cases h
    rfl

theorem course_sequence_append (l l' : List (Attempt α)) :
    (sequence (l ++ l')).course = (sequence l).andThen fun _ => (sequence l').course := by
  induction l with
  | nil => rfl
  | cons a l ih =>
    rw [List.cons_append, sequence, sequence, course_andThen, andThen_assoc]
    simp only [course_map, map_andThen, ih]

end Attempt

namespace Partition

theorem group_pair {a b : MappingRule} (h : a.partitionId < b.partitionId) :
    group [b, a] = [⟨a.partitionId, [a]⟩, ⟨b.partitionId, [b]⟩] := by
  have names : TextSet.ofList [b.partitionId, a.partitionId] =
      ⟨[a.partitionId, b.partitionId], by simpa using h⟩ := by
    apply TextSet.ext_mem
    intro id
    rw [TextSet.mem_ofList]
    exact (List.Perm.swap a.partitionId b.partitionId []).mem_iff
  have apart : a.partitionId ≠ b.partitionId := fun same => String.lt_irrefl _ (same ▸ h)
  simp only [group, List.map_cons, List.map_nil, names]
  simp [apart, apart.symm]

variable {index : SubjectIndex} {d : DataSource} {s : Settings}

/-- What happens when rules are run, one after the other. -/
def journal (index : SubjectIndex) (d : DataSource) (s : Settings) (rules : List MappingRule) :
    Journal :=
  rules.flatMap fun r => (r.run index d s).journal

theorem runRules_eq_sequence (rules : List MappingRule) (lines : TextSet) :
    runRules index d s rules lines =
      (Attempt.sequence (rules.map fun r => r.run index d s)).map fun outs =>
        outs.foldl (fun all out => all ∪ out.lines) lines := by
  induction rules generalizing lines with
  | nil => rfl
  | cons r rest ih =>
    rw [runRules, List.map_cons, Attempt.sequence]
    cases h : (r.run index d s).outcome with
    | error stop =>
      rw [Attempt.andThen_of_error h, Attempt.andThen_of_error h]
      rfl
    | ok out =>
      rw [Attempt.andThen_of_ok h, Attempt.andThen_of_ok h, ih]
      simp only [Attempt.map]
      cases (Attempt.sequence (rest.map fun r => r.run index d s)).outcome <;> rfl

theorem runAll_eq_sequence (partitions : List Partition) :
    runAll index d s partitions = Attempt.sequence (partitions.map fun p => p.run index d s) := by
  induction partitions with
  | nil => rfl
  | cons p rest ih => rw [runAll, List.map_cons, Attempt.sequence, ih]

theorem course_runAll (index : SubjectIndex) (d : DataSource) (s : Settings)
    (partitions : List Partition) :
    (runAll index d s partitions).course =
      (Attempt.sequence ((partitions.flatMap (·.rules)).map fun r => r.run index d s)).course := by
  induction partitions with
  | nil => rfl
  | cons p rest ih =>
    rw [List.flatMap_cons, List.map_append, Attempt.course_sequence_append, runAll, run,
      runRules_eq_sequence]
    simp only [Attempt.course_andThen, Attempt.course_map, Attempt.map_andThen, ih]

theorem runAll_eq_of_all {partitions : List Partition}
    (h : ∀ r ∈ partitions.flatMap (·.rules), ∃ out, (r.run index d s).outcome = .ok out) :
    ∃ finished, runAll index d s partitions =
      ⟨journal index d s (partitions.flatMap (·.rules)), .ok finished⟩ := by
  have given : ∀ r ∈ partitions.flatMap (·.rules), (r.run index d s).outcome =
      .ok ((r.run index d s).outcome.toOption.getD {}) := by
    intro r hr
    obtain ⟨out, hout⟩ := h r hr
    rw [hout]
    rfl
  have course := course_runAll index d s partitions
  rw [Attempt.sequence_eq_of_all given] at course
  exact Attempt.ok_of_course course

/-- The first rule that is stopped stops all that come after it, in its partition and in the others. -/
theorem runAll_eq_of_first {partitions : List Partition} {before after : List MappingRule}
    {k : MappingRule} {stop : Stop} (order : partitions.flatMap (·.rules) = before ++ k :: after)
    (earlier : ∀ r ∈ before, ∃ out, (r.run index d s).outcome = .ok out)
    (h : (k.run index d s).outcome = .error stop) :
    runAll index d s partitions = ⟨journal index d s (before ++ [k]), .error stop⟩ := by
  have course := course_runAll index d s partitions
  rw [order, Attempt.sequence_eq_of_first earlier h] at course
  exact Attempt.eq_of_course course

/-- Whatever stops it, a run in turn is a run of the first rules of the partitions. -/
theorem exists_journal_runAll (index : SubjectIndex) (d : DataSource) (s : Settings)
    (partitions : List Partition) : ∃ ran, ran <+: partitions.flatMap (·.rules) ∧
      (runAll index d s partitions).journal = journal index d s ran := by
  rcases Attempt.all_or_first (partitions.flatMap (·.rules)) fun r => r.run index d s with
    all | ⟨before, k, after, stop, order, earlier, stops⟩
  · obtain ⟨finished, whole⟩ := runAll_eq_of_all all
    exact ⟨_, List.prefix_rfl, by rw [whole]⟩
  · refine ⟨before ++ [k], ⟨after, by simp [order]⟩, ?_⟩
    rw [runAll_eq_of_first order earlier stops]

end Partition

end RdfMapping
