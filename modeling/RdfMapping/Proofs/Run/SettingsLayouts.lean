import RdfMapping.Proofs.Outcome
import RdfMapping.Proofs.Toml.DistinctNames
import RdfMapping.Proofs.Toml.Records
import RdfMapping.Run.Settings

/-!
The two layouts of settings: in a section, or at the top of a document.

A document is read up to twice, each time as a record: for its section, with any other entry skipped, and
then, if there is none, for the settings at its top (`Settings.decode`). Only the table that the settings
stand in counts (`decode?_of_not_mem`, `decode?_of_mem`). The settings of a table are what stands in it
under their names, or else the defaults (`decodeTable_eq_some_iff`), and a run can have them exactly if
what stands there is allowed (`StatedBy.runnable`, `StatedBy.allowed`). As no name stands in a table twice,
the entries may be looked up instead of being taken in their order (`decode_eq_checked`). So the two
layouts agree (`layouts_agree`).
-/

namespace RdfMapping.Settings

open Toml (Record Distinct)

/-! ## The two records -/

/-- The settings by what they set. -/
inductive Key where
  | processes
  | chunkSize
  | coerceFloat
  | timeoutSeconds
deriving DecidableEq

abbrev record : Record Key where
  fields := [.processes, .chunkSize, .coerceFloat, .timeoutSeconds]
  complete k := by cases k <;> decide
  name
    | .processes => "number_of_processes"
    | .chunkSize => "chunksize"
    | .coerceFloat => "coerce_float"
    | .timeoutSeconds => "run_timeout_secs"
  apart i j := by cases i <;> cases j <;> decide
  Value
    | .processes => Nat
    | .chunkSize => Nat
    | .coerceFloat => Bool
    | .timeoutSeconds => Option Nat
  read?
    | .processes => count?
    | .chunkSize => count?
    | .coerceFloat => flag?
    | .timeoutSeconds => fun v => (count? v).map some

def get (s : Settings) : (k : Key) → record.Value k
  | .processes => s.processes
  | .chunkSize => s.chunkSize
  | .coerceFloat => s.coerceFloat
  | .timeoutSeconds => s.timeoutSeconds

def ofRecord (x : (k : Key) → record.Value k) : Settings :=
  ⟨x .processes, x .chunkSize, x .coerceFloat, x .timeoutSeconds⟩

def decodeTable (defaults : Settings) (entries : List (String × Toml)) : Option Settings :=
  (record.fill? defaults.get entries).map ofRecord

/-- The settings of a section. The items of an array are settings in their order, and a date gives
none. -/
def decodeSection (defaults : Settings) : Toml → Option Settings
  | .table entries => decodeTable defaults entries
  | .array items => decodeTable defaults ((record.fields.map record.name).zip items)
  | .dateTime _ => some defaults
  | _ => none

abbrev document (defaults : Settings) : Record Unit where
  fields := [()]
  complete := by simp
  name _ := "materialize"
  apart _ _ _ := rfl
  Value _ := Settings
  read? _ := decodeSection defaults

/-- The settings that a document states: those of its section, or those at its top if it has none. -/
def decode? (defaults : Settings) (entries : List (String × Toml)) : Option Settings :=
  ((document defaults).decode? entries).bind fun given =>
    match given () with
    | some settings => some settings
    | none => decodeTable defaults entries

def decode (defaults : Settings) (entries : List (String × Toml)) : Except SettingsFault Settings :=
  match decode? defaults entries with
  | some settings => settings.validate.map fun _ => settings
  | none => .error .unreadable

def onMachine (processors : Nat) : Settings := { processes := processors }

/-! ## The table that counts -/

section Layouts

variable {defaults : Settings} {entries inner : List (String × Toml)} {v : Toml}

theorem decode?_of_not_mem (once : (entries.map (·.1)).Nodup)
    (absent : "materialize" ∉ entries.map (·.1)) :
    decode? defaults entries = decodeTable defaults entries := by
  have none_given : (document defaults).decode? entries = some fun _ => none :=
    (Record.decode?_eq_some_iff once).mpr fun k => Record.find?_of_not_mem absent
  rw [decode?, none_given, Option.bind_some]

theorem decode?_of_mem (once : (entries.map (·.1)).Nodup) (h : ("materialize", v) ∈ entries) :
    decode? defaults entries = decodeSection defaults v := by
  have found : ∀ k, (document defaults).find? entries k = (decodeSection defaults v).map some :=
    fun k => Record.find?_of_mem once h
  cases read : decodeSection defaults v with
  | none =>
    have refused : (document defaults).decode? entries = none :=
      (Record.decode?_eq_none_iff once).mpr ⟨(), by rw [found, read, Option.map_none]⟩
    rw [decode?, refused, Option.bind_none]
  | some settings =>
    have given : (document defaults).decode? entries = some fun _ => some settings :=
      (Record.decode?_eq_some_iff once).mpr fun k => by rw [found, read, Option.map_some]
    rw [decode?, given, Option.bind_some]

theorem decode?_section (defaults : Settings) (v : Toml) :
    decode? defaults [("materialize", v)] = decodeSection defaults v :=
  decode?_of_mem (List.nodup_singleton _) (List.mem_singleton_self _)

end Layouts

/-! ## What a table states -/

theorem count?_eq_some_iff {v : Toml} {n : Nat} : count? v = some n ↔ v = .integer n := by
  cases v with
  | integer m =>
    rw [count?, Toml.integer.injEq]
    split
    · rw [Option.some.injEq]
      omega
    · simp only [reduceCtorEq, false_iff]
      omega
  | _ => simp [count?]

theorem flag?_eq_some_iff {v : Toml} {b : Bool} : flag? v = some b ↔ v = .bool b := by
  cases v <;> simp [flag?]

/-- A setting is what stands under its name, or the default if the name is missing. -/
structure StatedBy (s defaults : Settings) (entries : List (String × Toml)) : Prop where
  processes : ("number_of_processes", .integer s.processes) ∈ entries ∨
    "number_of_processes" ∉ entries.map (·.1) ∧ s.processes = defaults.processes
  chunkSize : ("chunksize", .integer s.chunkSize) ∈ entries ∨
    "chunksize" ∉ entries.map (·.1) ∧ s.chunkSize = defaults.chunkSize
  coerceFloat : ("coerce_float", .bool s.coerceFloat) ∈ entries ∨
    "coerce_float" ∉ entries.map (·.1) ∧ s.coerceFloat = defaults.coerceFloat
  timeoutSeconds : (∃ n : Nat, ("run_timeout_secs", .integer n) ∈ entries ∧ s.timeoutSeconds = some n) ∨
    "run_timeout_secs" ∉ entries.map (·.1) ∧ s.timeoutSeconds = defaults.timeoutSeconds

/-- What may stand in a table: under the name of a count a count that is not zero, a truth value under
the name of the flag, and anything under other names. -/
structure Allowed (entry : String × Toml) : Prop where
  counts : entry.1 ∈ ["number_of_processes", "chunksize", "run_timeout_secs"] →
    ∃ n : Nat, 1 ≤ n ∧ entry.2 = .integer n
  flag : entry.1 = "coerce_float" → ∃ b, entry.2 = .bool b

/-- A run needs a process, batches need a row, and a time limit needs a second. -/
structure Runnable (s : Settings) : Prop where
  processes : 1 ≤ s.processes
  chunkSize : 1 ≤ s.chunkSize
  timeoutSeconds : ∀ n, s.timeoutSeconds = some n → 1 ≤ n

theorem validate_eq_ok_iff {s : Settings} : s.validate = .ok () ↔ s.Runnable := by
  rw [validate]
  refine ⟨?_, ?_⟩
  · intro h
    split_ifs at h with noProcesses noRows noTime
    refine ⟨Nat.pos_of_ne_zero noProcesses, Nat.pos_of_ne_zero noRows, ?_⟩
    intro n limit
    exact Nat.pos_of_ne_zero fun zero => noTime (zero ▸ limit)
  · intro h
    rw [if_neg (Nat.pos_iff_ne_zero.mp h.processes), if_neg (Nat.pos_iff_ne_zero.mp h.chunkSize),
      if_neg fun limit => absurd (h.timeoutSeconds 0 limit) (by omega)]

section Tables

variable {defaults s : Settings} {entries : List (String × Toml)}

@[simp] theorem get_ofRecord (x : (k : Key) → record.Value k) : (ofRecord x).get = x :=
  funext fun k => by cases k <;> rfl

theorem decodeTable_eq_some_iff_lookup (once : (entries.map (·.1)).Nodup) :
    decodeTable defaults entries = some s ↔
      ∀ k, (entries.lookup (record.name k)).elim (some (defaults.get k)) (record.read? k) =
        some (s.get k) := by
  rw [← Record.fill?_eq_some_iff once, decodeTable, Option.map_eq_some_iff]
  refine ⟨?_, fun h => ⟨s.get, h, rfl⟩⟩
  rintro ⟨x, filled, rfl⟩
  rw [get_ofRecord, filled]

theorem read_or_default_iff {α : Type} {read? : Toml → Option α} {value : α → Toml}
    (reads : ∀ {v x}, read? v = some x ↔ v = value x) {name : String} {x d : α} :
    ((∃ v, (name, v) ∈ entries ∧ read? v = some x) ∨ name ∉ entries.map (·.1) ∧ d = x) ↔
      (name, value x) ∈ entries ∨ name ∉ entries.map (·.1) ∧ x = d := by
  simp only [reads, exists_eq_right, eq_comm]

theorem count_or_default_iff {name : String} {x d : Option Nat} :
    ((∃ v, (name, v) ∈ entries ∧ (count? v).map some = some x) ∨
        name ∉ entries.map (·.1) ∧ d = x) ↔
      (∃ n : Nat, (name, .integer n) ∈ entries ∧ x = some n) ∨
        name ∉ entries.map (·.1) ∧ x = d := by
  refine or_congr ?_ (and_congr_right' eq_comm)
  refine ⟨?_, ?_⟩
  · rintro ⟨v, listed, read⟩
    obtain ⟨n, count, limit⟩ := Option.map_eq_some_iff.mp read
    exact ⟨n, count?_eq_some_iff.mp count ▸ listed, limit.symm⟩
  · rintro ⟨n, listed, rfl⟩
    exact ⟨.integer n, listed, by rw [count?_eq_some_iff.mpr rfl, Option.map_some]⟩

theorem decodeTable_eq_some_iff (once : (entries.map (·.1)).Nodup) :
    decodeTable defaults entries = some s ↔ s.StatedBy defaults entries := by
  rw [decodeTable_eq_some_iff_lookup once]
  simp only [elim_lookup_eq_some_iff once]
  refine ⟨?_, ?_⟩
  · intro h
    exact ⟨(read_or_default_iff count?_eq_some_iff).mp (h .processes),
      (read_or_default_iff count?_eq_some_iff).mp (h .chunkSize),
      (read_or_default_iff flag?_eq_some_iff).mp (h .coerceFloat),
      count_or_default_iff.mp (h .timeoutSeconds)⟩
  · intro h k
    cases k with
    | processes => exact (read_or_default_iff count?_eq_some_iff).mpr h.processes
    | chunkSize => exact (read_or_default_iff count?_eq_some_iff).mpr h.chunkSize
    | coerceFloat => exact (read_or_default_iff flag?_eq_some_iff).mpr h.coerceFloat
    | timeoutSeconds => exact count_or_default_iff.mpr h.timeoutSeconds

/-! ## Tables that are accepted -/

theorem Allowed.exists_count {name : String} {v : Toml} (h : Allowed (name, v))
    (named : name ∈ ["number_of_processes", "chunksize", "run_timeout_secs"]) :
    ∃ n, count? v = some n := by
  obtain ⟨n, -, count⟩ := h.counts named
  exact ⟨n, count?_eq_some_iff.mpr count⟩

theorem Allowed.one_le {name : String} {n : Nat} (h : Allowed (name, .integer n))
    (named : name ∈ ["number_of_processes", "chunksize", "run_timeout_secs"]) : 1 ≤ n := by
  obtain ⟨m, positive, same⟩ := h.counts named
  cases same
  exact positive

theorem Allowed.exists_read? {k : Key} {v : Toml} (h : Allowed (record.name k, v)) :
    ∃ x, record.read? k v = some x := by
  cases k with
  | processes => exact h.exists_count (by simp)
  | chunkSize => exact h.exists_count (by simp)
  | coerceFloat =>
    obtain ⟨b, flag⟩ := h.flag rfl
    exact ⟨b, flag?_eq_some_iff.mpr flag⟩
  | timeoutSeconds =>
    obtain ⟨n, count⟩ := h.exists_count (by simp)
    exact ⟨some n, congrArg (Option.map some) count⟩

theorem exists_decodeTable (allowed : ∀ e ∈ entries, Allowed e) (once : (entries.map (·.1)).Nodup) :
    ∃ s, decodeTable defaults entries = some s := by
  have each : ∀ k, ∃ x, (entries.lookup (record.name k)).elim (some (defaults.get k))
      (record.read? k) = some x := by
    intro k
    cases found : entries.lookup (record.name k) with
    | none => exact ⟨defaults.get k, rfl⟩
    | some v => exact (allowed _ (mem_of_lookup found)).exists_read?
  choose x found using each
  refine ⟨ofRecord x, (decodeTable_eq_some_iff_lookup once).mpr fun k => ?_⟩
  rw [found, get_ofRecord]

theorem StatedBy.runnable (h : s.StatedBy defaults entries) (ready : defaults.Runnable)
    (allowed : ∀ e ∈ entries, Allowed e) : s.Runnable := by
  refine ⟨?_, ?_, ?_⟩
  · rcases h.processes with listed | ⟨-, same⟩
    · exact (allowed _ listed).one_le (by simp)
    · exact same ▸ ready.processes
  · rcases h.chunkSize with listed | ⟨-, same⟩
    · exact (allowed _ listed).one_le (by simp)
    · exact same ▸ ready.chunkSize
  · rcases h.timeoutSeconds with ⟨n, listed, limit⟩ | ⟨-, same⟩
    · intro seconds set
      obtain rfl : n = seconds := Option.some.inj (limit.symm.trans set)
      exact (allowed _ listed).one_le (by simp)
    · exact same ▸ ready.timeoutSeconds

theorem StatedBy.allowed (h : s.StatedBy defaults entries) (run : s.Runnable)
    (once : (entries.map (·.1)).Nodup) : ∀ e ∈ entries, Allowed e := by
  rintro ⟨name, v⟩ listed
  have there : name ∈ entries.map (·.1) := List.mem_map_of_mem listed
  refine ⟨?_, ?_⟩
  · intro named
    simp only [List.mem_cons, List.not_mem_nil, or_false] at named
    rcases named with rfl | rfl | rfl
    · rcases h.processes with stated | ⟨absent, -⟩
      · exact ⟨_, run.processes, eq_of_mem once listed stated⟩
      · exact absurd there absent
    · rcases h.chunkSize with stated | ⟨absent, -⟩
      · exact ⟨_, run.chunkSize, eq_of_mem once listed stated⟩
      · exact absurd there absent
    · rcases h.timeoutSeconds with ⟨n, stated, limit⟩ | ⟨absent, -⟩
      · exact ⟨n, run.timeoutSeconds n limit, eq_of_mem once listed stated⟩
      · exact absurd there absent
  · rintro rfl
    rcases h.coerceFloat with stated | ⟨absent, -⟩
    · exact ⟨_, eq_of_mem once listed stated⟩
    · exact absurd there absent

/-! ## Lookups -/

theorem given_eq_elim {α : Type} (absent : α) (read? : Toml → Option α) (v? : Option Toml) :
    given absent read? v? = v?.elim (some absent) read? := by
  cases v? <;> rfl

theorem ofEntries_eq_some_iff :
    ofEntries entries = some s ↔
      ∀ k, (entries.lookup (record.name k)).elim (some (get {} k)) (record.read? k) =
        some (s.get k) := by
  simp only [ofEntries, ofValues, given_eq_elim, bind, Option.bind_eq_some_iff, Option.some.injEq]
  refine ⟨?_, ?_⟩
  · rintro ⟨processes, h₁, chunkSize, h₂, coerceFloat, h₃, timeoutSeconds, h₄, rfl⟩ k
    cases k with
    | processes => exact h₁
    | chunkSize => exact h₂
    | coerceFloat => exact h₃
    | timeoutSeconds => exact h₄
  · intro h
    exact ⟨_, h .processes, _, h .chunkSize, _, h .coerceFloat, _, h .timeoutSeconds, rfl⟩

theorem decodeTable_eq_ofEntries (once : (entries.map (·.1)).Nodup) :
    decodeTable {} entries = ofEntries entries := by
  refine Option.ext fun s => ?_
  rw [decodeTable_eq_some_iff_lookup once, ofEntries_eq_some_iff]

theorem decodeSection_eq_ofSection {v : Toml} (h : Distinct v) :
    decodeSection {} v = ofSection v := by
  cases h with
  | table names each => exact decodeTable_eq_ofEntries names
  | @array items each =>
    -- the names go with as many items as there are
    rw [decodeSection, decodeTable_eq_ofEntries]
    · rcases items with _ | ⟨a, _ | ⟨b, _ | ⟨c, _ | ⟨d, more⟩⟩⟩⟩ <;> rfl
    · rcases items with _ | ⟨a, _ | ⟨b, _ | ⟨c, _ | ⟨d, more⟩⟩⟩⟩ <;> simp
  | _ => rfl

theorem decode_eq_checked (h : Distinct (.table entries)) : decode {} entries = checked entries := by
  obtain ⟨names, each⟩ := Toml.distinct_table_iff.mp h
  have same : decode? {} entries = ofDocument entries := by
    rw [ofDocument]
    cases found : entries.lookup "materialize" with
    | none =>
      rw [decode?_of_not_mem names (lookup_eq_none_iff_not_mem.mp found)]
      exact decodeTable_eq_ofEntries names
    | some v =>
      have listed := mem_of_lookup found
      rw [decode?_of_mem names listed]
      exact decodeSection_eq_ofSection (each _ listed)
  rw [decode, same]
  rfl

end Tables

/-! ## Layouts -/

/-- The table that the settings of a document stand in. -/
inductive StandIn (document : List (String × Toml)) : List (String × Toml) → Prop where
  | inSection {entries : List (String × Toml)} (h : ("materialize", .table entries) ∈ document) :
      StandIn document entries
  | atTop (h : "materialize" ∉ document.map (·.1)) : StandIn document document

section Layouts

variable {defaults s : Settings} {entries inner : List (String × Toml)}

theorem decode_eq_ok_iff :
    decode defaults entries = .ok s ↔ decode? defaults entries = some s ∧ s.Runnable := by
  rw [decode]
  cases decode? defaults entries with
  | none => simp
  | some found =>
    rw [map_eq_ok_iff, Option.some.injEq]
    refine ⟨?_, ?_⟩
    · rintro ⟨⟨⟩, valid, rfl⟩
      exact ⟨rfl, validate_eq_ok_iff.mp valid⟩
    · rintro ⟨rfl, run⟩
      exact ⟨(), validate_eq_ok_iff.mpr run, rfl⟩

theorem decode?_of_standIn (once : (entries.map (·.1)).Nodup) (h : StandIn entries inner) :
    decode? defaults entries = decodeTable defaults inner := by
  cases h with
  | inSection listed => exact decode?_of_mem once listed
  | atTop absent => exact decode?_of_not_mem once absent

theorem decode_section (once : (entries.map (·.1)).Nodup) (h : StandIn entries inner) :
    decode defaults entries = decode defaults [("materialize", .table inner)] := by
  rw [decode, decode, decode?_of_standIn once h, decode?_section]
  rfl

theorem StandIn.distinct (h : StandIn entries inner) (distinct : Distinct (.table entries)) :
    (inner.map (·.1)).Nodup := by
  obtain ⟨names, each⟩ := Toml.distinct_table_iff.mp distinct
  cases h with
  | inSection listed => exact (Toml.distinct_table_iff.mp (each _ listed)).names
  | atTop absent => exact names

end Layouts

theorem runnable_onMachine {processors : Nat} (some_processor : 1 ≤ processors) :
    (onMachine processors).Runnable :=
  ⟨some_processor, by simp [onMachine], nofun⟩

/-- **The two layouts agree.** A document without a section states what it would state as a section. A
document with a section states what its section states, whatever else is at its top. The settings that are
accepted are those of the table that they stand in, with the defaults for what the table does not give, and
there are such settings exactly if no setting in that table is of the wrong kind or zero. No settings are
accepted that a run cannot have. The tables that are read from texts have distinct names, and on a machine
with one processor this is how the settings of a text are read. -/
theorem layouts_agree {processors : Nat} (some_processor : 1 ≤ processors) :
    (∀ T, Distinct (.table T) → "materialize" ∉ T.map (·.1) →
        decode (onMachine processors) T = decode (onMachine processors) [("materialize", .table T)]) ∧
      (∀ T S, Distinct (.table T) → ("materialize", .table S) ∈ T →
        decode (onMachine processors) T = decode (onMachine processors) [("materialize", .table S)]) ∧
      (∀ T S, Distinct (.table T) → StandIn T S →
        (∀ s, decode (onMachine processors) T = .ok s ↔
          s.StatedBy (onMachine processors) S ∧ s.Runnable) ∧
        ((∃ s, decode (onMachine processors) T = .ok s) ↔ ∀ e ∈ S, Allowed e)) ∧
      (∀ T s, decode (onMachine processors) T = .ok s → s.Runnable) ∧
      ∀ text T, Toml.parse? text = some T →
        Distinct (.table T) ∧ ofText text = decode (onMachine 1) T := by
  refine ⟨?_, ?_, ?_, ?_, ?_⟩
  · intro T distinct absent
    exact decode_section (Toml.distinct_table_iff.mp distinct).names (.atTop absent)
  · intro T S distinct listed
    exact decode_section (Toml.distinct_table_iff.mp distinct).names (.inSection listed)
  · intro T S distinct h
    have once := h.distinct distinct
    have accepted : ∀ s, decode (onMachine processors) T = .ok s ↔
        s.StatedBy (onMachine processors) S ∧ s.Runnable := by
      intro s
      rw [decode_eq_ok_iff, decode?_of_standIn (Toml.distinct_table_iff.mp distinct).names h,
        decodeTable_eq_some_iff once]
    refine ⟨accepted, ?_, ?_⟩
    · rintro ⟨s, ok⟩
      obtain ⟨stated, run⟩ := (accepted s).mp ok
      exact stated.allowed run once
    · intro allowed
      obtain ⟨s, found⟩ := @exists_decodeTable (onMachine processors) S allowed once
      have stated := (decodeTable_eq_some_iff once).mp found
      exact ⟨s, (accepted s).mpr
        ⟨stated, stated.runnable (runnable_onMachine some_processor) allowed⟩⟩
  · intro T s ok
    exact (decode_eq_ok_iff.mp ok).2
  · intro text T read
    have distinct := Toml.distinct_parse? read
    refine ⟨distinct, ?_⟩
    rw [ofText, read]
    exact (decode_eq_checked distinct).symm

def threeProcesses : List (String × Toml) :=
  [("chunksize", .integer 500), ("comment", .float "0.5"), ("number_of_processes", .integer 3)]

/-- They stand in a section between settings that are of the wrong kind and zero. -/
def mixedDocument : List (String × Toml) :=
  [("chunksize", .string "big"), ("materialize", .table threeProcesses),
    ("run_timeout_secs", .integer 0)]

/-- On a machine with eight processors, it makes no difference where these settings stand. -/
theorem layouts_agree_mixed :
    decode (onMachine 8) threeProcesses =
        decode (onMachine 8) [("materialize", .table threeProcesses)] ∧
      decode (onMachine 8) mixedDocument =
        decode (onMachine 8) [("materialize", .table threeProcesses)] ∧
      decode (onMachine 8) mixedDocument = .ok ⟨3, 500, false, none⟩ ∧
      (⟨3, 500, false, none⟩ : Settings).Runnable := by
  have alone : Distinct (.table threeProcesses) := by
    refine .table (by simp [threeProcesses]) ?_
    simpa [threeProcesses] using ⟨.integer 500, .float "0.5", .integer 3⟩
  have distinct : Distinct (.table mixedDocument) := by
    refine .table (by simp [mixedDocument]) ?_
    simpa [mixedDocument] using ⟨.string "big", alone, .integer 0⟩
  have listed : ("materialize", .table threeProcesses) ∈ mixedDocument := by simp [mixedDocument]
  obtain ⟨top, inSection, accepted, run, -⟩ := layouts_agree (show 1 ≤ 8 by decide)
  have stated : decode (onMachine 8) mixedDocument = .ok ⟨3, 500, false, none⟩ := by
    refine ((accepted mixedDocument threeProcesses distinct (.inSection listed)).1 _).mpr ⟨?_, ?_⟩
    · exact ⟨.inl (by simp [threeProcesses]), .inl (by simp [threeProcesses]),
        .inr (by simp [threeProcesses, onMachine]), .inr (by simp [threeProcesses, onMachine])⟩
    · exact ⟨by decide, by decide, nofun⟩
  exact ⟨top _ alone (by simp [threeProcesses]), inSection _ _ distinct listed, stated,
    run _ _ stated⟩

end RdfMapping.Settings
