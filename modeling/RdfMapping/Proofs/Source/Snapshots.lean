import RdfMapping.Proofs.Source.Sharing

/-!
What the clients of a store are told, from what was done before.

Every step is one of seven (`Clients.Takes`). The tables of a source are those that were put last
(`Clients.table?_run`), and a source is there if a table was ever put into it
(`Clients.isSome_tables?_run`). A connection keeps the tables that its source had when it was opened, until
its name is opened again or closed (`Clients.connection?_run`). The store counts what was opened and what
was closed (`Clients.opened_run`, `Clients.closed_run`). Every close is that of one connection that was
opened before, so the difference is the number of those that were not closed (`Clients.balance`).
-/

namespace RdfMapping

/-! ## Exchanges that open and close -/

namespace Exchange

def opened? : Exchange → Option String
  | (.connect name _, .opened) => some name
  | _ => none

def closed? : Exchange → Option String
  | (.close name, .closed) => some name
  | _ => none

/-- Whether the connection of a name is closed before the name is used for another one. -/
def closedFirst (name : String) : List Exchange → Bool
  | [] => false
  | e :: rest =>
    if closed? e = some name then true
    else if opened? e = some name then false
    else closedFirst name rest

def unclosed : List Exchange → Nat
  | [] => 0
  | e :: rest =>
    match opened? e with
    | some name => (if closedFirst name rest then 0 else 1) + unclosed rest
    | none => unclosed rest

end Exchange

/-- The table of a source that was put last under a name. -/
def lastTable? (source table : String) : List ClientStep → Option Batch
  | [] => none
  | .insertTable s t b :: rest =>
    (lastTable? source table rest).or (if s = source ∧ t = table then some b else none)
  | _ :: rest => lastTable? source table rest

/-! ## Tables -/

namespace Store

theorem tables?_insertTable (s : Store) (source table other : String) (b : Batch) :
    (s.insertTable source table b).tables? other =
      if other = source then some (((s.tables? source).getD []).put table b) else s.tables? other :=
  lookup_put ..

def table? (s : Store) (source table : String) : Option Batch :=
  (s.tables? source).bind (·.lookup table)

theorem table?_insertTable (s : Store) (source table : String) (b : Batch) (source' table' : String) :
    (s.insertTable source table b).table? source' table' =
      if source = source' ∧ table = table' then some b else s.table? source' table' := by
  unfold table?
  rw [tables?_insertTable]
  by_cases same : source' = source
  · subst same
    rw [if_pos rfl, Option.bind_some, Tables.put, lookup_put]
    by_cases here : table' = table
    · simp [here]
    · rw [if_neg here, if_neg (by simp [Ne.symm here])]
      cases s.tables? source' <;> rfl
  · rw [if_neg same, if_neg (by simp [Ne.symm same])]

end Store

namespace Clients

variable {c : Clients}

/-- What a step can do, and what is replied. -/
inductive Takes (c : Clients) : ClientStep → Clients × Reply → Prop
  | inserted (source table : String) (b : Batch) :
      Takes c (.insertTable source table b)
        ({ c with store := c.store.insertTable source table b }, .inserted)
  | opened (name : String) {source tables} (there : c.store.tables? source = some tables) :
      Takes c (.connect name source)
        (⟨{ c.store with opened := c.store.opened + 1 }, (name, ⟨source, tables⟩) :: c.others name⟩,
          .opened)
  | refused (name : String) {source} (unknown : c.store.tables? source = none) :
      Takes c (.connect name source) (c, .refused (.dataSource (.unknownSource source)))
  | answered {name k} (held : c.connection? name = some k) (q : Query) :
      Takes c (.ask name q) (c, .answered (k.answer q))
  | unanswered {name} (absent : c.connection? name = none) (q : Query) :
      Takes c (.ask name q) (c, .notOpen)
  | closed {name k} (held : c.connection? name = some k) :
      Takes c (.close name) (⟨c.store.closeConnection, c.others name⟩, .closed)
  | notOpen {name} (absent : c.connection? name = none) : Takes c (.close name) (c, .notOpen)

theorem takes_step (c : Clients) (x : ClientStep) : c.Takes x (c.step x) := by
  cases x with
  | insertTable source table b => exact .inserted source table b
  | connect name source =>
    cases h : c.store.tables? source with
    | none => exact step_connect_none name h ▸ .refused name h
    | some tables => exact step_connect_some name h ▸ .opened name h
  | ask name q =>
    cases h : c.connection? name with
    | none => exact step_ask_none h q ▸ .unanswered h q
    | some k => exact step_ask_some h q ▸ .answered h q
  | close name =>
    cases h : c.connection? name with
    | none => exact step_close_none h ▸ .notOpen h
    | some k => exact step_close_some h ▸ .closed h

section Step

variable {x : ClientStep} {y : Clients × Reply}

theorem Takes.sources (h : c.Takes x y) :
    y.1.store.sources =
      match x with
      | .insertTable source table b => (c.store.insertTable source table b).sources
      | _ => c.store.sources := by
  cases h <;> rfl

theorem Takes.store_opened (h : c.Takes x y) :
    y.1.store.opened = c.store.opened + if (Exchange.opened? (x, y.2)).isSome then 1 else 0 := by
  cases h <;> rfl

theorem Takes.store_closed (h : c.Takes x y) :
    y.1.store.closed = c.store.closed + if (Exchange.closed? (x, y.2)).isSome then 1 else 0 := by
  cases h <;> rfl

/-- A connection is kept while its name is neither opened nor closed. -/
theorem Takes.connection? {name : String} (h : c.Takes x y)
    (opened : Exchange.opened? (x, y.2) ≠ some name)
    (closed : Exchange.closed? (x, y.2) ≠ some name) :
    y.1.connection? name = c.connection? name := by
  cases h with
  | opened other there =>
    have apart : name ≠ other := fun same => opened (congrArg some same.symm)
    exact (lookup_put ..).trans (if_neg apart)
  | @closed other k held =>
    have apart : name ≠ other := fun same => closed (congrArg some same.symm)
    have others := lookup_put c.held other name k
    rwa [if_neg apart, List.lookup_cons, beq_false_of_ne apart] at others
  | _ => rfl

def HeldOnce (c : Clients) : Prop := (c.held.map (·.1)).Nodup

theorem Takes.heldOnce (h : c.Takes x y) (once : c.HeldOnce) : y.1.HeldOnce := by
  cases h with
  | opened name there => exact nodup_put once _
  | closed held => exact once.sublist (List.filter_sublist.map _)
  | _ => exact once

/-- How many of the connections that are held are closed before their names are used again. -/
def toClose (c : Clients) (log : List Exchange) : Nat :=
  c.held.countP fun h => Exchange.closedFirst h.1 log

theorem toClose_others (c : Clients) (name : String) (e : Exchange) (rest : List Exchange)
    (about : ∀ n, n ≠ name → e.opened? ≠ some n ∧ e.closed? ≠ some n) :
    (c.others name).countP (fun h => Exchange.closedFirst h.1 (e :: rest)) =
      (c.others name).countP fun h => Exchange.closedFirst h.1 rest := by
  refine List.countP_congr fun h there => ?_
  obtain ⟨opened, closed⟩ := about h.1 (by simpa using (List.mem_filter.mp there).2)
  rw [Exchange.closedFirst, if_neg closed, if_neg opened]

/-- A close takes one connection from those that are to be closed, and an opening adds one to them or to
those that are not closed. -/
theorem Takes.balance (h : c.Takes x y) (once : c.HeldOnce) (rest : List Exchange) :
    y.1.toClose rest + Exchange.unclosed ((x, y.2) :: rest) +
        (if (Exchange.closed? (x, y.2)).isSome then 1 else 0) =
      c.toClose ((x, y.2) :: rest) + Exchange.unclosed rest +
        if (Exchange.opened? (x, y.2)).isSome then 1 else 0 := by
  cases h with
  | @opened name source tables there =>
    let e : Exchange := (.connect name source, .opened)
    have others := toClose_others c name e rest
      fun n apart => ⟨fun same => apart (Option.some.inj same).symm, by simp [e, Exchange.closed?]⟩
    -- the connection whose name is used again is not one that is closed under it
    have before : c.toClose (e :: rest) = (c.others name).countP
        fun h => Exchange.closedFirst h.1 (e :: rest) := by
      unfold toClose Clients.others
      rw [List.countP_filter]
      refine List.countP_congr fun h _ => ?_
      by_cases own : h.1 = name
      · simp [own, e, Exchange.closedFirst, Exchange.closed?, Exchange.opened?]
      · simp [own]
    show List.countP _ ((name, _) :: c.others name) +
      ((if Exchange.closedFirst name rest then 0 else 1) + Exchange.unclosed rest) + 0 = _
    rw [List.countP_cons]
    show _ = c.toClose (e :: rest) + _ + 1
    rw [before, others]
    show _ + (if Exchange.closedFirst name rest = true then 1 else 0) + _ + 0 = _
    split <;> omega
  | @closed name k held =>
    let e : Exchange := (.close name, .closed)
    have others := toClose_others c name e rest
      fun n apart => ⟨by simp [e, Exchange.opened?], fun same => apart (Option.some.inj same).symm⟩
    have before : c.toClose (e :: rest) = (c.others name).countP
        (fun h => Exchange.closedFirst h.1 (e :: rest)) + 1 := by
      unfold toClose
      rw [(perm_of_lookup once held).countP_eq, List.countP_cons_of_pos]
      · rfl
      · simp [e, Exchange.closedFirst, Exchange.closed?]
    show (c.others name).countP _ + Exchange.unclosed rest + 1 = c.toClose (e :: rest) + _ + 0
    rw [before, others]
    omega
  | _ => rfl

end Step

/-! ## Runs -/

theorem table?_run (c : Clients) (past : List ClientStep) (source table : String) :
    (c.run past).store.table? source table =
      (lastTable? source table past).or (c.store.table? source table) := by
  induction past generalizing c with
  | nil => rfl
  | cons x rest ih =>
    have here := (takes_step c x).sources
    rw [run, ih]
    cases x with
    | insertTable s t b =>
      show (lastTable? source table rest).or ((c.store.insertTable s t b).table? source table) = _
      rw [Store.table?_insertTable, lastTable?, Option.or_assoc]
      congr 1
      split <;> simp
    | _ =>
      show (lastTable? source table rest).or _ = (lastTable? source table rest).or _
      unfold Store.table? Store.tables?
      rw [here]

theorem isSome_tables?_run (c : Clients) (past : List ClientStep) (source : String) :
    ((c.run past).store.tables? source).isSome ↔
      (∃ table b, .insertTable source table b ∈ past) ∨ (c.store.tables? source).isSome := by
  induction past generalizing c with
  | nil => simp [run]
  | cons x rest ih =>
    have here := (takes_step c x).sources
    rw [run, ih]
    cases x with
    | insertTable s t b =>
      show _ ∨ ((c.store.insertTable s t b).tables? source).isSome ↔ _
      rw [Store.tables?_insertTable]
      by_cases same : source = s
      · subst same
        simp only [if_true, Option.isSome_some, or_true, true_iff]
        exact .inl ⟨t, b, List.mem_cons_self⟩
      · simp [same]
    | _ =>
      unfold Store.tables?
      rw [here]
      simp

theorem connection?_run {name : String} {between : List ClientStep}
    (kept : ∀ e ∈ c.log between, e.opened? ≠ some name ∧ e.closed? ≠ some name) :
    (c.run between).connection? name = c.connection? name := by
  induction between generalizing c with
  | nil => rfl
  | cons x rest ih =>
    obtain ⟨here, later⟩ := List.forall_mem_cons.mp kept
    rw [run, ih later, (takes_step c x).connection? here.1 here.2]

theorem opened_run (c : Clients) (past : List ClientStep) :
    (c.run past).store.opened =
      c.store.opened + (c.log past).countP fun e => e.opened?.isSome := by
  induction past generalizing c with
  | nil => rfl
  | cons x rest ih =>
    rw [run, log, ih, (takes_step c x).store_opened, List.countP_cons]
    omega

theorem closed_run (c : Clients) (past : List ClientStep) :
    (c.run past).store.closed =
      c.store.closed + (c.log past).countP fun e => e.closed?.isSome := by
  induction past generalizing c with
  | nil => rfl
  | cons x rest ih =>
    rw [run, log, ih, (takes_step c x).store_closed, List.countP_cons]
    omega

theorem balance (once : c.HeldOnce) (past : List ClientStep) :
    (c.log past).countP (fun e => e.closed?.isSome) + Exchange.unclosed (c.log past) =
      c.toClose (c.log past) + (c.log past).countP fun e => e.opened?.isSome := by
  induction past generalizing c with
  | nil => simp [log, toClose, Exchange.unclosed, Exchange.closedFirst]
  | cons x rest ih =>
    have later := ih ((takes_step c x).heldOnce once)
    have here := (takes_step c x).balance once ((c.step x).1.log rest)
    rw [log, List.countP_cons, List.countP_cons]
    omega

theorem run_append (c : Clients) (before after : List ClientStep) :
    c.run (before ++ after) = (c.run before).run after := by
  induction before generalizing c with
  | nil => rfl
  | cons x rest ih => exact ih _

/-- **Connections are snapshots, and the counts are exact.** Whatever was done before, a store whose
connections share the tables of their sources replies as one whose connections have tables of their own.
A source has the tables that were put last, and it can be opened exactly if a table was ever put into it.
A connection that was opened, and whose name was neither opened nor closed since, answers from the tables
that its source had when it was opened. The store has counted the connections that were opened and those
that were closed, of which there are no more, and those that are open now are the ones that were opened
and not closed. -/
theorem snapshots_and_counts (past : List ClientStep) :
    let c := ({} : Clients).run past
    let log := ({} : Clients).log past
    (({} : Shared).log past = log ∧ (({} : Shared).run past).clients = c ∧
      ∀ x, ((({} : Shared).run past).step x).2 = (c.step x).2) ∧
    (∀ source table, c.store.table? source table = lastTable? source table past) ∧
    (∀ name source, ((c.step (.connect name source)).2 = .opened ↔
        ∃ table b, .insertTable source table b ∈ past) ∧
      ((c.step (.connect name source)).2 = .refused (.dataSource (.unknownSource source)) ↔
        ∀ table b, .insertTable source table b ∉ past)) ∧
    (∀ before name source between, past = before ++ .connect name source :: between →
      ∀ tables, (({} : Clients).run before).store.tables? source = some tables →
        (∀ e ∈ (({} : Clients).run (before ++ [.connect name source])).log between,
          e.opened? ≠ some name ∧ e.closed? ≠ some name) →
        ∀ q, (c.step (.ask name q)).2 = .answered (Connection.answer ⟨source, tables⟩ q)) ∧
    c.store.opened = log.countP (fun e => e.opened?.isSome) ∧
    c.store.closed = log.countP (fun e => e.closed?.isSome) ∧
    c.store.closed ≤ c.store.opened ∧ c.store.openNow = Exchange.unclosed log := by
  intro c log
  obtain ⟨sound, same, replies⟩ := Shared.run_clients Shared.sound_empty past
  have opened : c.store.opened = log.countP fun e => e.opened?.isSome :=
    (opened_run {} past).trans (Nat.zero_add _)
  have closed : c.store.closed = log.countP fun e => e.closed?.isSome :=
    (closed_run {} past).trans (Nat.zero_add _)
  have balanced : c.store.closed + Exchange.unclosed log = c.store.opened := by
    have once : ({} : Clients).HeldOnce := List.nodup_nil
    rw [opened, closed, balance once past]
    exact Nat.zero_add _
  refine ⟨⟨replies, same, fun x => ?_⟩, fun source table => ?_, fun name source => ?_, ?_, opened, closed,
    Nat.le.intro balanced, ?_⟩
  · rw [(Shared.step_clients sound x).2.2, same]
    rfl
  · rw [table?_run]
    exact Option.or_none
  · have known : (c.store.tables? source).isSome ↔ ∃ table b, .insertTable source table b ∈ past := by
      rw [isSome_tables?_run]
      exact or_iff_left (by simp [Store.tables?])
    simp only [← known, ← not_exists]
    cases h : c.store.tables? source with
    | none => simp [step_connect_none name h]
    | some tables => simp [step_connect_some name h]
  · intro before name source between parts tables there kept q
    -- the connection is held as it was opened, since its name was not used in between
    have held : c.connection? name = some ⟨source, tables⟩ := by
      have first : ({} : Clients).run (before ++ [.connect name source]) =
          ((({} : Clients).run before).step (.connect name source)).1 := run_append ..
      have whole : c = (({} : Clients).run (before ++ [.connect name source])).run between := by
        rw [← run_append, List.append_assoc, List.singleton_append, ← parts]
      rw [whole, connection?_run kept, first, step_connect_some name there]
      exact List.lookup_cons_self
    rw [step_ask_some held]
  · show c.store.opened - c.store.closed = _
    omega

/-- A table is replaced while a connection is open. The connection answers from the table that it found,
one row long, and is the one that is open after another was opened and closed. -/
theorem snapshot_of_replaced_table :
    let past := [.insertTable "db" "t" ⟨[], 1⟩, .connect "k" "db", .insertTable "db" "t" ⟨[], 2⟩,
      .connect "l" "db", .close "l"]
    ((({} : Clients).run past).step (.ask "k" ⟨.project ⟨.table "t", []⟩, 10, false⟩)).2 =
        .answered (.ok [⟨[], 1⟩]) ∧
      (({} : Clients).run past).store.openNow = 1 := by
  intro past
  obtain ⟨-, -, -, snapshot, -, -, -, open_now⟩ := snapshots_and_counts past
  have kept := snapshot [.insertTable "db" "t" ⟨[], 1⟩] "k" "db" _ rfl _ rfl (by decide)
    ⟨.project ⟨.table "t", []⟩, 10, false⟩
  exact ⟨kept, open_now⟩

end Clients

end RdfMapping
