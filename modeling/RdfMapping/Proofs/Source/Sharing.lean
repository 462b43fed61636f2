import Mathlib.Data.List.Count
import Mathlib.Logic.Function.Basic
import RdfMapping.Proofs.Names
import RdfMapping.Source.Clients

/-!
Connections that share the tables of their source, which are copied when they change.

The tables of a source are at an address, and a connection holds the address that its source had when it
was opened. Every address counts its holders (`Memory`). A table is put in place if the source is the only
holder of its address, and otherwise into a copy at an address of its own (`Memory.unshare`). As long as
the counts are right (`Memory.Counts`), no write reaches an address that anybody else holds
(`unshare_spec`), and each step of a shared store is the step of one whose connections have tables of
their own (`Shared.step_clients`). So the replies to any steps are the same (`Shared.run_clients`).
-/

namespace RdfMapping

/-! ## Addresses and their holders -/

/-- Tables at addresses, each with the number of those who hold it. Addresses from `next` on have not been
given out. -/
structure Memory where
  tables : Nat → Tables := fun _ => []
  holders : Nat → Nat := fun _ => 0
  next : Nat := 0

namespace Memory

def retain (m : Memory) (a : Nat) : Memory :=
  { m with holders := Function.update m.holders a (m.holders a + 1) }

def release (m : Memory) (a : Nat) : Memory :=
  { m with holders := Function.update m.holders a (m.holders a - 1) }

def write (m : Memory) (a : Nat) (tables : Tables) : Memory :=
  { m with tables := Function.update m.tables a tables }

/-- Writes tables at an address that has not been given out, and gives it to one holder. -/
def allocate (m : Memory) (tables : Tables) : Memory × Nat :=
  ({ tables := Function.update m.tables m.next tables
     holders := Function.update m.holders m.next 1
     next := m.next + 1 }, m.next)

/-- The address to write at for one who holds `a`: itself if nobody else holds it, and else that of a
copy. -/
def unshare (m : Memory) (a : Nat) : Memory × Nat :=
  if m.holders a = 1 then (m, a) else (m.release a).allocate (m.tables a)

structure Counts (m : Memory) (held : List Nat) : Prop where
  holders : ∀ a, m.holders a = held.count a
  given : ∀ a ∈ held, a < m.next

section Counts

variable {m : Memory} {held held' : List Nat} {a : Nat} {tables : Tables}

theorem Counts.perm (h : m.Counts held) (same : held.Perm held') : m.Counts held' := by
  refine ⟨fun b => ?_, fun b hb => ?_⟩
  · rw [h.holders, same.count_eq]
  · exact h.given b (same.mem_iff.mpr hb)

theorem Counts.write (h : m.Counts held) : (m.write a tables).Counts held :=
  ⟨h.holders, h.given⟩

theorem Counts.retain (h : m.Counts held) (given : a ∈ held) : (m.retain a).Counts (a :: held) := by
  refine ⟨fun b => ?_, ?_⟩
  · show Function.update m.holders a (m.holders a + 1) b = _
    rw [List.count_cons]
    by_cases same : b = a
    · subst same
      simp [h.holders]
    · simp [Function.update_of_ne same, h.holders, Ne.symm same]
  · exact List.forall_mem_cons.mpr ⟨h.given a given, h.given⟩

theorem Counts.release (h : m.Counts (a :: held)) : (m.release a).Counts held := by
  refine ⟨fun b => ?_, fun b hb => h.given b (List.mem_cons_of_mem _ hb)⟩
  show Function.update m.holders a (m.holders a - 1) b = _
  have counted := h.holders b
  rw [List.count_cons] at counted
  by_cases same : b = a
  · subst same
    simp [counted]
  · simpa [Function.update_of_ne same, Ne.symm same] using counted

theorem Counts.fresh (h : m.Counts held) : m.next ∉ held :=
  fun there => Nat.lt_irrefl _ (h.given _ there)

theorem Counts.allocate (h : m.Counts held) :
    (m.allocate tables).1.Counts ((m.allocate tables).2 :: held) := by
  show Counts _ (m.next :: held)
  refine ⟨fun b => ?_, ?_⟩
  · show Function.update m.holders m.next 1 b = _
    rw [List.count_cons]
    by_cases same : b = m.next
    · subst same
      simp [List.count_eq_zero_of_not_mem h.fresh]
    · simp [Function.update_of_ne same, h.holders, Ne.symm same]
  · refine List.forall_mem_cons.mpr ⟨Nat.lt_succ_self _, fun b hb => ?_⟩
    exact Nat.lt_succ_of_lt (h.given b hb)

theorem tables_allocate : (m.allocate tables).1.tables (m.allocate tables).2 = tables :=
  Function.update_self ..

theorem tables_allocate_of_held (h : m.Counts held) {b : Nat} (hb : b ∈ held) :
    (m.allocate tables).1.tables b = m.tables b := by
  refine Function.update_of_ne ?_ ..
  rintro rfl
  exact h.fresh hb

/-- Before it is written at, an address is held once: no other holder sees what is written, and the tables
to start from are those that were there. -/
theorem unshare_spec (h : m.Counts (a :: held)) :
    (m.unshare a).1.Counts ((m.unshare a).2 :: held) ∧ (m.unshare a).2 ∉ held ∧
      (m.unshare a).1.tables (m.unshare a).2 = m.tables a ∧
      ∀ b ∈ held, (m.unshare a).1.tables b = m.tables b := by
  unfold unshare
  split
  · rename_i alone
    refine ⟨h, ?_, rfl, fun _ _ => rfl⟩
    show a ∉ held
    -- the one holder that is counted is the one who writes
    rw [h.holders, List.count_cons_self] at alone
    exact List.count_eq_zero.mp (by omega)
  · have released := h.release
    exact ⟨released.allocate, released.fresh, tables_allocate,
      fun b hb => tables_allocate_of_held released hb⟩

end Counts

end Memory

/-! ## Exchanges -/

abbrev Exchange := ClientStep × Reply

def Clients.log (c : Clients) : List ClientStep → List Exchange
  | [] => []
  | x :: rest => (x, (c.step x).2) :: (c.step x).1.log rest

namespace Clients

variable {c : Clients} {name source : String}

theorem step_connect_some (name : String) {tables : Tables} (h : c.store.tables? source = some tables) :
    c.step (.connect name source) =
      (⟨{ c.store with opened := c.store.opened + 1 }, (name, ⟨source, tables⟩) :: c.others name⟩,
        .opened) := by
  simp only [step, Store.openConnection, Store.connect, h]
  rfl

theorem step_connect_none (name : String) (h : c.store.tables? source = none) :
    c.step (.connect name source) = (c, .refused (.dataSource (.unknownSource source))) := by
  simp only [step, Store.openConnection, Store.connect, h]
  rfl

theorem step_ask_some {k : Connection} (h : c.connection? name = some k) (q : Query) :
    c.step (.ask name q) = (c, .answered (k.answer q)) := by
  simp only [step, h]

theorem step_ask_none (h : c.connection? name = none) (q : Query) :
    c.step (.ask name q) = (c, .notOpen) := by
  simp only [step, h]

theorem step_close_some {k : Connection} (h : c.connection? name = some k) :
    c.step (.close name) = (⟨c.store.closeConnection, c.others name⟩, .closed) := by
  simp only [step, h]

theorem step_close_none (h : c.connection? name = none) : c.step (.close name) = (c, .notOpen) := by
  simp only [step, h]

end Clients

/-! ## A store with shared tables -/

/-- Sources with the addresses of their tables, and the connections that are held, with their sources and
the addresses that they hold. -/
structure Shared where
  memory : Memory := {}
  sources : List (String × Nat) := []
  held : List (String × (String × Nat)) := []
  opened : Nat := 0
  closed : Nat := 0

namespace Shared

/-- The address to put a table of a source at, which nobody else holds. -/
def own (s : Shared) (source : String) : Memory × Nat :=
  match s.sources.lookup source with
  | some a => s.memory.unshare a
  | none => (s.memory.allocate []).1.unshare (s.memory.allocate []).2

def insertTable (s : Shared) (source table : String) (b : Batch) : Shared :=
  let (memory, a) := s.own source
  { s with
    memory := memory.write a ((memory.tables a).put table b)
    sources := (source, a) :: s.sources.filter (·.1 != source) }

/-- Lets go of the connection that is held under a name. -/
def drop (s : Shared) (name : String) : Shared :=
  match s.held.lookup name with
  | some (_, a) => { s with memory := s.memory.release a, held := s.held.filter (·.1 != name) }
  | none => s

/-- Opens a connection that holds an address, in the place of one of its name. -/
def hold (s : Shared) (name source : String) (a : Nat) : Shared :=
  let s := { s with memory := s.memory.retain a, opened := s.opened + 1 }.drop name
  { s with held := (name, (source, a)) :: s.held }

def step (s : Shared) : ClientStep → Shared × Reply
  | .insertTable source table b => (s.insertTable source table b, .inserted)
  | .connect name source =>
    match s.sources.lookup source with
    | some a => (s.hold name source a, .opened)
    | none => (s, .refused (.dataSource (.unknownSource source)))
  | .ask name q =>
    match s.held.lookup name with
    | some (source, a) => (s, .answered (Connection.answer ⟨source, s.memory.tables a⟩ q))
    | none => (s, .notOpen)
  | .close name =>
    match s.held.lookup name with
    | some _ => ({ s.drop name with closed := s.closed + 1 }, .closed)
    | none => (s, .notOpen)

def run (s : Shared) : List ClientStep → Shared
  | [] => s
  | x :: rest => (s.step x).1.run rest

def log (s : Shared) : List ClientStep → List Exchange
  | [] => []
  | x :: rest => (x, (s.step x).2) :: (s.step x).1.log rest

/-- The store and the connections, each with the tables at its address. -/
def clients (s : Shared) : Clients where
  store :=
    { sources := s.sources.map (Prod.map id s.memory.tables), opened := s.opened, closed := s.closed }
  held := s.held.map (Prod.map id fun x => ⟨x.1, s.memory.tables x.2⟩)

def addresses (s : Shared) : List Nat := s.sources.map (·.2) ++ s.held.map (·.2.2)

/-- Names are taken once, and every address counts its holders. -/
structure Sound (s : Shared) : Prop where
  sources : (s.sources.map (·.1)).Nodup
  held : (s.held.map (·.1)).Nodup
  counts : s.memory.Counts s.addresses

theorem sound_empty : ({} : Shared).Sound where
  sources := List.nodup_nil
  held := List.nodup_nil
  counts := ⟨fun _ => rfl, by simp [addresses]⟩

section Sound

variable {s : Shared} {name source table : String} {b : Batch} {a : Nat}

theorem own_spec (sound : s.Sound) (source : String) :
    let others := (s.sources.filter (·.1 != source)).map (·.2) ++ s.held.map (·.2.2)
    (s.own source).1.Counts ((s.own source).2 :: others) ∧ (s.own source).2 ∉ others ∧
      (s.own source).1.tables (s.own source).2 = (s.clients.store.tables? source).getD [] ∧
      ∀ x ∈ others, (s.own source).1.tables x = s.memory.tables x := by
  intro others
  have known : s.clients.store.tables? source = (s.sources.lookup source).map s.memory.tables :=
    lookup_map_snd ..
  unfold own
  rw [known]
  -- a source that is known may share its address; a new one is given an address of its own
  cases h : s.sources.lookup source with
  | some a =>
    have apart : s.addresses.Perm (a :: others) :=
      ((perm_of_lookup sound.sources h).map (·.2)).append_right _
    exact Memory.unshare_spec (sound.counts.perm apart)
  | none =>
    have same : others = s.addresses := by
      show (s.sources.filter (·.1 != source)).map (·.2) ++ _ = _
      rw [filter_of_not_mem (lookup_eq_none_iff_not_mem.mp h)]
      rfl
    have allocated : (s.memory.allocate []).1.Counts ((s.memory.allocate []).2 :: s.addresses) :=
      sound.counts.allocate
    obtain ⟨counts, alone, tables, others⟩ := Memory.unshare_spec allocated
    rw [same]
    refine ⟨counts, alone, tables.trans Memory.tables_allocate, fun x hx => ?_⟩
    rw [others x hx, Memory.tables_allocate_of_held sound.counts hx]

theorem sound_insertTable (sound : s.Sound) : (s.insertTable source table b).Sound := by
  obtain ⟨counts, -⟩ := own_spec sound source
  exact ⟨nodup_put sound.sources _, sound.held, counts.write⟩

theorem clients_insertTable (sound : s.Sound) :
    (s.insertTable source table b).clients =
      { s.clients with store := s.clients.store.insertTable source table b } := by
  obtain ⟨-, alone, tables, others⟩ := own_spec sound source
  -- what is written is written at an address that nobody else holds
  have unseen : ∀ a ∈ (s.sources.filter (·.1 != source)).map (·.2) ++ s.held.map (·.2.2),
      (s.insertTable source table b).memory.tables a = s.memory.tables a := by
    intro a ha
    exact (Function.update_of_ne (ne_of_mem_of_not_mem ha alone) ..).trans (others a ha)
  have sources : (s.insertTable source table b).sources.map
      (Prod.map id (s.insertTable source table b).memory.tables) =
        (source, ((s.clients.store.tables? source).getD []).put table b) ::
          s.clients.store.sources.filter (·.1 != source) := by
    show (source, _) :: _ = _
    rw [← tables]
    congr 1
    · exact congrArg (source, ·) (Function.update_self ..)
    · rw [clients, filter_map_snd]
      refine List.map_congr_left fun e he => congrArg (e.1, ·) (unseen e.2 ?_)
      exact List.mem_append_left _ (List.mem_map_of_mem (f := (·.2)) he)
  have held : (s.insertTable source table b).held.map
      (Prod.map id fun x => ⟨x.1, (s.insertTable source table b).memory.tables x.2⟩) =
        s.clients.held := by
    refine List.map_congr_left fun e he =>
      congrArg (fun t => (e.1, Connection.mk e.2.1 t)) (unseen e.2.2 ?_)
    exact List.mem_append_right _ (List.mem_map_of_mem (f := (·.2.2)) he)
  rw [clients, sources, held]
  rfl

/-- A connection that is let go of is not held any more, and its address has one holder less. -/
theorem counts_drop (once : (s.held.map (·.1)).Nodup) {more : List Nat}
    (counts : s.memory.Counts (more ++ s.held.map (·.2.2))) :
    (s.drop name).memory.Counts (more ++ (s.drop name).held.map (·.2.2)) := by
  unfold drop
  cases h : s.held.lookup name with
  | none => exact counts
  | some x =>
    obtain ⟨source, a⟩ := x
    refine Memory.Counts.release (counts.perm ?_)
    exact (((perm_of_lookup once h).map (·.2.2)).append_left more).trans List.perm_middle

theorem drop_eq (s : Shared) (name : String) : (s.drop name).held = s.held.filter (·.1 != name) ∧
    (s.drop name).sources = s.sources ∧ (s.drop name).memory.tables = s.memory.tables ∧
    (s.drop name).opened = s.opened ∧ (s.drop name).closed = s.closed := by
  unfold drop
  cases h : s.held.lookup name with
  | none => exact ⟨(filter_of_not_mem (lookup_eq_none_iff_not_mem.mp h)).symm, rfl, rfl, rfl, rfl⟩
  | some x => exact ⟨rfl, rfl, rfl, rfl, rfl⟩

theorem clients_hold (s : Shared) (name source : String) (a : Nat) :
    (s.hold name source a).clients =
      ⟨{ s.clients.store with opened := s.opened + 1 },
        (name, ⟨source, s.memory.tables a⟩) :: s.clients.others name⟩ := by
  let more : Shared := { s with memory := s.memory.retain a, opened := s.opened + 1 }
  obtain ⟨held, sources, tables, opened, closed⟩ := drop_eq more name
  show clients { more.drop name with held := (name, (source, a)) :: (more.drop name).held } = _
  rw [clients, Clients.others, clients]
  simp only [held, sources, tables, opened, closed, filter_map_snd]
  rfl

theorem clients_close (s : Shared) (name : String) :
    { s.drop name with closed := s.closed + 1 }.clients =
      ⟨s.clients.store.closeConnection, s.clients.others name⟩ := by
  obtain ⟨held, sources, tables, opened, -⟩ := drop_eq s name
  rw [clients, Clients.others, clients]
  simp only [held, sources, tables, opened, filter_map_snd]
  rfl

theorem connection?_clients (s : Shared) (name : String) :
    s.clients.connection? name =
      (s.held.lookup name).map fun x => ⟨x.1, s.memory.tables x.2⟩ :=
  lookup_map_snd ..

theorem sound_close (sound : s.Sound) : { s.drop name with closed := s.closed + 1 }.Sound := by
  obtain ⟨held, sources, -⟩ := drop_eq s name
  refine ⟨?_, ?_, ?_⟩
  · show ((s.drop name).sources.map (·.1)).Nodup
    exact sources ▸ sound.sources
  · show ((s.drop name).held.map (·.1)).Nodup
    rw [held]
    exact sound.held.sublist (List.filter_sublist.map _)
  · show (s.drop name).memory.Counts ((s.drop name).sources.map (·.2) ++ (s.drop name).held.map (·.2.2))
    rw [sources]
    exact counts_drop sound.held sound.counts

theorem sound_hold (sound : s.Sound) (known : s.sources.lookup source = some a) :
    (s.hold name source a).Sound := by
  let more : Shared := { s with memory := s.memory.retain a, opened := s.opened + 1 }
  obtain ⟨held, sources, -⟩ := drop_eq more name
  have given : a ∈ s.addresses :=
    List.mem_append_left _ (List.mem_map_of_mem (f := (·.2))
      ((perm_of_lookup sound.sources known).mem_iff.mpr List.mem_cons_self))
  refine ⟨?_, ?_, ?_⟩
  · show ((more.drop name).sources.map (·.1)).Nodup
    exact sources ▸ sound.sources
  · show (((name, (source, a)) :: (more.drop name).held).map (·.1)).Nodup
    rw [held]
    exact nodup_put sound.held _
  · show (more.drop name).memory.Counts
      ((more.drop name).sources.map (·.2) ++ a :: (more.drop name).held.map (·.2.2))
    rw [sources]
    have retained : more.memory.Counts ((a :: s.sources.map (·.2)) ++ more.held.map (·.2.2)) :=
      sound.counts.retain given
    exact (counts_drop (s := more) sound.held retained).perm List.perm_middle.symm

/-- **Shared tables are not told from tables of one's own.** A step of the shared store is the step of the
store whose connections have tables of their own, with the same reply, and the counts stay right. -/
theorem step_clients (sound : s.Sound) (x : ClientStep) :
    (s.step x).1.Sound ∧ (s.step x).1.clients = (s.clients.step x).1 ∧
      (s.step x).2 = (s.clients.step x).2 := by
  -- for each step: what it finds among the shared tables, then the same step of the clients
  cases x with
  | insertTable source table b =>
    exact ⟨sound_insertTable sound, clients_insertTable sound, rfl⟩
  | connect name source =>
    have known : s.clients.store.tables? source = (s.sources.lookup source).map s.memory.tables :=
      lookup_map_snd ..
    cases h : s.sources.lookup source with
    | none =>
      have own : s.step (.connect name source) =
          (s, .refused (.dataSource (.unknownSource source))) := by simp only [step, h]
      rw [own, Clients.step_connect_none name (known.trans (by rw [h]; rfl))]
      exact ⟨sound, rfl, rfl⟩
    | some a =>
      have own : s.step (.connect name source) = (s.hold name source a, .opened) := by
        simp only [step, h]
      rw [own, Clients.step_connect_some name (known.trans (by rw [h]; rfl))]
      exact ⟨sound_hold sound h, clients_hold .., rfl⟩
  | ask name q =>
    have known := connection?_clients s name
    cases h : s.held.lookup name with
    | none =>
      have own : s.step (.ask name q) = (s, .notOpen) := by simp only [step, h]
      rw [own, Clients.step_ask_none (known.trans (by rw [h]; rfl))]
      exact ⟨sound, rfl, rfl⟩
    | some x =>
      have own : s.step (.ask name q) =
          (s, .answered (Connection.answer ⟨x.1, s.memory.tables x.2⟩ q)) := by simp only [step, h]
      rw [own, Clients.step_ask_some (known.trans (by rw [h]; rfl))]
      exact ⟨sound, rfl, rfl⟩
  | close name =>
    have known := connection?_clients s name
    cases h : s.held.lookup name with
    | none =>
      have own : s.step (.close name) = (s, .notOpen) := by simp only [step, h]
      rw [own, Clients.step_close_none (known.trans (by rw [h]; rfl))]
      exact ⟨sound, rfl, rfl⟩
    | some x =>
      have own : s.step (.close name) = ({ s.drop name with closed := s.closed + 1 }, .closed) := by
        simp only [step, h]
      rw [own, Clients.step_close_some (known.trans (by rw [h]; rfl))]
      exact ⟨sound_close sound, clients_close .., rfl⟩

theorem run_clients (sound : s.Sound) (steps : List ClientStep) :
    (s.run steps).Sound ∧ (s.run steps).clients = s.clients.run steps ∧
      s.log steps = s.clients.log steps := by
  induction steps generalizing s with
  | nil => exact ⟨sound, rfl, rfl⟩
  | cons x rest ih =>
    obtain ⟨kept, same, reply⟩ := step_clients sound x
    obtain ⟨sound, clients, log⟩ := ih kept
    rw [run, Clients.run, Shared.log, Clients.log, ← same, reply]
    exact ⟨sound, clients, congrArg _ log⟩

end Sound

end Shared

end RdfMapping
