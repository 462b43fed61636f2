import RdfMapping.Proofs.Run.RuleMeaning
import RdfMapping.Proofs.Run.Sequence
import RdfMapping.Proofs.Source.Snapshots

/-!
The connections of a run: one at a time, and none that is left open.

In a balanced journal a connection is closed before the next is opened, and before the end
(`Journal.Balanced`). An attempt notes a number of connections (`Attempt.Notes`): to open one notes it
exactly if it is granted, and to close it notes that, whatever it reports (`Attempt.Connects`). This holds
of tables in memory, and of any source that is disturbed (`DataSource.Counted`). Then what comes of the
query makes no difference to the journal, a rule is balanced wherever it fails
(`MappingRule.balanced_run`), and so are rules one after the other. Over a store the journal is
what its clients do if each rule connects, asks and closes (`Partition.run_steps`).
-/

namespace RdfMapping

namespace Journal

variable {j k : Journal}

theorem opened_append (j k : Journal) : Journal.opened (j ++ k) = j.opened + k.opened :=
  List.count_append ..

theorem closed_append (j k : Journal) : Journal.closed (j ++ k) = j.closed + k.closed :=
  List.count_append ..

/-- At no time is there more than one connection, and at the end there is none. -/
structure Balanced (j : Journal) : Prop where
  alone : ∀ n, Journal.closed (j.take n) ≤ Journal.opened (j.take n) ∧
    Journal.opened (j.take n) ≤ Journal.closed (j.take n) + 1
  released : j.closed = j.opened

theorem opened_take_le (n : Nat) (j : Journal) : Journal.opened (j.take n) ≤ j.opened :=
  (List.take_sublist n j).count_le _

theorem closed_take_le (n : Nat) (j : Journal) : Journal.closed (j.take n) ≤ j.closed :=
  (List.take_sublist n j).count_le _

theorem balanced_of_none (opened : j.opened = 0) (closed : j.closed = 0) : j.Balanced where
  alone n := by
    have := opened_take_le n j
    have := closed_take_le n j
    omega
  released := by rw [opened, closed]

/-- The first events of two journals: some of the first one, or all of it and some of the other. -/
theorem take_append_cases (n : Nat) (j k : Journal) :
    (∃ i, (j ++ k).take n = j.take i) ∨ ∃ i, (j ++ k).take n = j ++ k.take i := by
  rcases Nat.le_total n j.length with here | there
  · exact .inl ⟨n, List.take_append_of_le_length here⟩
  · refine .inr ⟨n - j.length, ?_⟩
    rw [List.take_append, List.take_of_length_le there]

theorem Balanced.append (hj : j.Balanced) (hk : k.Balanced) : Balanced (j ++ k) where
  alone n := by
    rcases take_append_cases n j k with ⟨i, here⟩ | ⟨i, there⟩
    · rw [here]
      exact hj.alone i
    · have := hk.alone i
      have := hj.released
      rw [there, opened_append, closed_append]
      omega
  released := by rw [closed_append, opened_append, hj.released, hk.released]

theorem balanced_open_close (opened : j.opened = 1) (notYet : j.closed = 0) (noMore : k.opened = 0)
    (closed : k.closed = 1) : Balanced (j ++ k) where
  alone n := by
    rcases take_append_cases n j k with ⟨i, here⟩ | ⟨i, there⟩
    · have := opened_take_le i j
      have := closed_take_le i j
      rw [here]
      omega
    · have := opened_take_le i k
      have := closed_take_le i k
      rw [there, opened_append, closed_append]
      omega
  released := by rw [closed_append, opened_append, opened, notYet, noMore, closed]

end Journal

/-! ## Sources that note their connections -/

namespace Attempt

variable {α β : Type} {a : Attempt α} {f : α → Attempt β} {m n : Nat}

/-- What an attempt has opened and closed. -/
structure Notes (a : Attempt α) (opened closed : Nat) : Prop where
  opened : a.journal.opened = opened
  closed : a.journal.closed = closed

theorem notes_map (h : a.Notes m n) (g : α → β) : (a.map g).Notes m n := ⟨h.opened, h.closed⟩

theorem Notes.andThen (ha : a.Notes m n) (hf : ∀ x, (f x).Notes 0 0) : (a.andThen f).Notes m n := by
  cases h : a.outcome with
  | error stop =>
    rw [andThen_of_error h]
    exact ⟨ha.opened, ha.closed⟩
  | ok x =>
    rw [andThen_of_ok h]
    constructor
    · rw [Journal.opened_append, ha.opened, (hf x).opened, Nat.add_zero]
    · rw [Journal.closed_append, ha.closed, (hf x).closed, Nat.add_zero]

theorem notes_settle (h : a.Notes m n) : a.settle.Notes m n := by
  have same : a.settle.journal = a.journal := by
    obtain ⟨j, outcome⟩ := a
    rcases outcome with (error | _) | x <;> rfl
  exact ⟨same ▸ h.opened, same ▸ h.closed⟩

/-- An attempt to open a connection notes it exactly if it is granted, and when it is closed that is
noted too. -/
structure Connects (a : Attempt Session) : Prop where
  granted : ∀ s, a.outcome = .ok s → a.Notes 1 0 ∧ s.close.Notes 0 1
  stopped : ∀ stop, a.outcome = .error stop → a.Notes 0 0

theorem connects_failed (error : MappingError) : (failed error : Attempt Session).Connects where
  granted _ h := by cases h
  stopped _ _ := ⟨rfl, rfl⟩

theorem connects_crashed : (crashed : Attempt Session).Connects where
  granted _ h := by cases h
  stopped _ _ := ⟨rfl, rfl⟩

theorem Connects.map {a : Attempt Session} (h : a.Connects) {g : Session → Session}
    (closes : ∀ s : Session, s.close.Notes 0 1 → (g s).close.Notes 0 1) : (a.map g).Connects where
  granted s ok := by
    obtain ⟨s, first, rfl⟩ := map_eq_ok_iff.mp ok
    exact ⟨notes_map (h.granted s first).1 g, closes s (h.granted s first).2⟩
  stopped stop error := notes_map (h.stopped stop (map_eq_error_iff.mp error)) g

theorem Connects.stalled {a : Attempt Session} (h : a.Connects) (seconds : Nat) :
    ((happens (.stalled seconds)).andThen fun _ => a).Connects where
  granted s ok := (h.granted s ok).imp_left fun noted => ⟨noted.opened, noted.closed⟩
  stopped stop error := ⟨(h.stopped stop error).opened, (h.stopped stop error).closed⟩

end Attempt

/-- Every attempt to open a source notes what it does. -/
def DataSource.Counted (d : DataSource) : Prop := ∀ source, (d.connect source).Connects

theorem Store.counted_dataSource (st : Store) : st.dataSource.Counted := by
  intro source
  simp only [Store.dataSource]
  cases st.connect source with
  | error e => exact Attempt.connects_failed e
  | ok k =>
    constructor
    · intro s granted
      cases granted
      exact ⟨⟨rfl, rfl⟩, rfl, rfl⟩
    · intro stop error
      cases error

theorem Disruption.closes_apply (d : Disruption) (s : Session) (h : s.close.Notes 0 1) :
    (d.apply s).close.Notes 0 1 := by
  cases d with
  | failClose => exact h.andThen fun _ => ⟨rfl, rfl⟩
  | _ => exact h

/-- Sources that are slow or faulty note what they do as before. -/
theorem DataSource.Counted.disturbed {d : DataSource} (h : d.Counted)
    (plan : List (String × Disturbance)) : (d.disturbed plan).Counted := by
  intro source
  simp only [DataSource.disturbed]
  cases plan.lookup source with
  | none => exact h source
  | some disturbance =>
    refine Attempt.Connects.stalled ?_ disturbance.delay
    cases disturbance.disruption with
    | none => exact h source
    | some disruption =>
      cases disruption with
      | refuse => exact Attempt.connects_failed _
      | crash => exact Attempt.connects_crashed
      | _ => exact (h source).map (Disruption.closes_apply _)

/-! ## Where a query over an open connection fails -/

/-- Whether the query was answered and rendered or not, and whether closing fails, crashes or goes well:
the connection is closed once. -/
theorem Session.notes_runAndClose {s : Session} (h : s.close.Notes 0 1) (q : Query) (render : Renderer) :
    (s.runAndClose q render).Notes 0 1 := by
  rw [Session.runAndClose_eq]
  exact (Attempt.notes_settle h).andThen fun _ => ⟨rfl, rfl⟩

def Disruption.stop (source : String) : Disruption → Stop
  | refuse => .failed (.dataSource (.refused source))
  | crash => .crashed
  | failQuery => .failed (.dataSource .queryFailed)
  | breakAfter _ => .failed (.dataSource .streamBroke)
  | failClose => .failed (.dataSource .closeFailed)

def Disruption.opens : Disruption → Bool
  | refuse | crash => false
  | _ => true

theorem drain_broken {render : Renderer} {batches : List Batch} {out given : RuleOutput}
    (h : drain render none batches out = .ok given) (n : Nat) (more : RuleOutput) (error : MappingError) :
    drain render (some error) (batches.take n) more = .error error := by
  induction batches generalizing out more n with
  | nil => rw [List.take_nil, drain]
  | cons b rest ih =>
    cases n with
    | zero => rw [List.take_zero, drain]
    | succ n =>
      rw [drain] at h
      rw [List.take_succ_cons, drain]
      cases rendered : render b with
      | error e =>
        rw [rendered] at h
        cases h
      | ok lines =>
        rw [rendered] at h
        exact ih h n _

theorem Disruption.runAndClose_apply {k : Connection} {q : Query} {render : Renderer} {out : RuleOutput}
    (well : k.session.run q render = .ok out) {d : Disruption} (opens : d.opens) (source : String) :
    (d.apply k.session).runAndClose q render = ⟨[.closed], .error (d.stop source)⟩ := by
  rw [Session.runAndClose_eq]
  cases d with
  | refuse => cases opens
  | crash => cases opens
  | failQuery => rfl
  | breakAfter n =>
    have stopped : ((breakAfter n).apply k.session).run q render = .error (.dataSource .streamBroke) := by
      simp only [Session.run, apply, Connection.session] at well ⊢
      cases answered : k.answer q with
      | error e =>
        rw [answered] at well
        cases well
      | ok batches =>
        rw [answered] at well
        exact drain_broken well n _ _
    rw [stopped]
    rfl
  | failClose =>
    have same : (failClose.apply k.session).run q render = .ok out := well
    rw [same]
    rfl

/-- A query that goes well over a store is stopped by what goes wrong with its source, and a connection
that was opened has been closed. -/
theorem Store.run_disturbed {st : Store} {source : String} {q : Query} {render : Renderer}
    {out : RuleOutput} (well : (st.dataSource.run source q render).outcome = .ok out)
    {plan : List (String × Disturbance)} {delay : Nat} {d : Disruption}
    (wrong : plan.lookup source = some ⟨delay, some d⟩) :
    (st.dataSource.disturbed plan).run source q render =
      ⟨.stalled delay :: if d.opens then [.opened, .closed] else [], .error (d.stop source)⟩ := by
  rw [st.outcome_run] at well
  obtain ⟨k, connected, ran⟩ := bind_eq_ok_iff.mp (mapError_eq_ok_iff.mp well)
  have session : st.dataSource.connect source = ⟨[.opened], .ok k.session⟩ := by
    simp only [Store.dataSource, connected]
    rfl
  simp only [DataSource.run, DataSource.disturbed, wrong, session]
  have closes := fun opens : d.opens => d.runAndClose_apply ran opens source
  have whole : ((Attempt.happens (.stalled delay)).andThen fun _ =>
        (⟨[.opened], .ok (d.apply k.session)⟩ : Attempt Session)).andThen (·.runAndClose q render) =
      ⟨.stalled delay :: .opened :: ((d.apply k.session).runAndClose q render).journal,
        ((d.apply k.session).runAndClose q render).outcome⟩ := rfl
  cases d with
  | refuse => rfl
  | crash => rfl
  | _ => exact whole.trans (by rw [closes rfl]; rfl)

/-! ## Rules -/

namespace MappingRule

variable {d : DataSource} {index : SubjectIndex}

theorem balanced_run (counted : d.Counted) (r : MappingRule) (index : SubjectIndex) (s : Settings) :
    (r.run index d s).journal.Balanced := by
  rw [run]
  cases r.plan index with
  | error e => exact Journal.balanced_of_none rfl rfl
  | ok p =>
    simp only [DataSource.run]
    cases opening : (d.connect r.sourceName).outcome with
    | error stop =>
      rw [Attempt.andThen_of_error opening]
      have noted := (counted _).stopped stop opening
      exact Journal.balanced_of_none noted.opened noted.closed
    | ok k =>
      rw [Attempt.andThen_of_ok opening]
      obtain ⟨noted, closes⟩ := (counted _).granted k opening
      have closed := k.notes_runAndClose closes ⟨p.request, s.chunkSize, s.coerceFloat⟩ p.render
      exact Journal.balanced_open_close noted.opened noted.closed closed.opened closed.closed

/-- What a rule does as a client of a store, under a name of its own. -/
def steps (r : MappingRule) (index : SubjectIndex) (s : Settings) : List ClientStep :=
  match r.plan index with
  | .ok p =>
    [.connect r.ruleId r.sourceName, .ask r.ruleId ⟨p.request, s.chunkSize, s.coerceFloat⟩,
      .close r.ruleId]
  | .error _ => []

end MappingRule

namespace Store

theorem noting_append (st : Store) (j k : Journal) : st.noting (j ++ k) = (st.noting j).noting k := by
  simp only [noting, Journal.opened_append, Journal.closed_append, Nat.add_assoc]

end Store

namespace Partition

variable {index : SubjectIndex} {d : DataSource} {st : Store} {s : Settings}

theorem journal_append (rules more : List MappingRule) :
    journal index d s (rules ++ more) = journal index d s rules ++ journal index d s more :=
  List.flatMap_append

theorem journal_cons (r : MappingRule) (rest : List MappingRule) :
    journal index d s (r :: rest) = (r.run index d s).journal ++ journal index d s rest := rfl

theorem balanced_journal (counted : d.Counted) (index : SubjectIndex) (s : Settings)
    (rules : List MappingRule) : (journal index d s rules).Balanced := by
  induction rules with
  | nil => exact Journal.balanced_of_none rfl rfl
  | cons r rest ih => exact (MappingRule.balanced_run counted r index s).append ih

end Partition

namespace MappingRule

theorem run_steps (r : MappingRule) (index : SubjectIndex) (st : Store) (s : Settings) :
    (Clients.mk st []).run (r.steps index s) =
      ⟨st.noting (r.run index st.dataSource s).journal, []⟩ := by
  unfold steps run
  cases r.plan index with
  | error e => rfl
  | ok p =>
    simp only [st.run_eq, Clients.run, Clients.step, Store.openConnection]
    cases st.connect r.sourceName with
    | error e => rfl
    | ok k => simp [Clients.connection?, Clients.others, Except.map, Store.noting, Store.closeConnection,
        Journal.opened, Journal.closed]

end MappingRule

/-- The journal of rules over a store is what its counters come to if each rule connects, asks and
closes, and no connection is held at the end. -/
theorem Partition.run_steps (index : SubjectIndex) (st : Store) (s : Settings)
    (rules : List MappingRule) :
    (Clients.mk st []).run (rules.flatMap (·.steps index s)) =
      ⟨st.noting (Partition.journal index st.dataSource s rules), []⟩ := by
  induction rules generalizing st with
  | nil => rfl
  | cons r rest ih =>
    rw [List.flatMap_cons, Clients.run_append, r.run_steps, ih, journal_cons, Store.noting_append]
    rfl

end RdfMapping
