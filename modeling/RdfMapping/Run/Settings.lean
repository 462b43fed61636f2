import RdfMapping.Toml.Reader

/-!
The settings of a run, and how a TOML document states them.

The settings stand in a section `materialize`, or, in a document without it, at the top. Either way
they are read by `Settings.ofSection`: names that are no setting are ignored and settings that are not
given have their defaults. A section may also be an array of the settings in their order.
-/

namespace RdfMapping

/-- A length of time: whole seconds, and the nanoseconds beyond them. -/
structure Duration where
  seconds : Nat
  nanos : Fin 1000000000
deriving DecidableEq, Repr

def Duration.ofMillis (millis : Nat) : Duration :=
  ⟨millis / 1000, millis % 1000 * 1000000, by omega⟩

structure Settings where
  /-- How many partitions may be worked on at a time. -/
  processes : Nat := 1
  /-- How many rows a batch may have. -/
  chunkSize : Nat := 100000
  /-- Whether decimals are delivered as doubles. -/
  coerceFloat : Bool := false
  /-- How many seconds the run may take. -/
  timeoutSeconds : Option Nat := none
deriving DecidableEq, Repr

inductive SettingsFault where
  | noProcesses
  | noRows
  | noTime
  | unreadable
  | noFile (path : String)
deriving DecidableEq, Repr

def SettingsFault.message : SettingsFault → String
  | noProcesses => "number_of_processes must be at least 1"
  | noRows => "chunksize must be at least 1"
  | noTime => "run_timeout_secs must be at least 1"
  | unreadable => "invalid config"
  | noFile path => "cannot read " ++ path

namespace Settings

/-- A run needs a process, batches need a row, and a time limit needs a second. -/
def validate (s : Settings) : Except SettingsFault Unit :=
  if s.processes = 0 then .error .noProcesses
  else if s.chunkSize = 0 then .error .noRows
  else if s.timeoutSeconds = some 0 then .error .noTime
  else .ok ()

/-- Sets a time limit: the whole seconds, but at least one. -/
def withTimeout (s : Settings) (limit : Duration) : Settings :=
  { s with timeoutSeconds := some (max limit.seconds 1) }

def withTimeoutMillis (s : Settings) (millis : Nat) : Settings :=
  s.withTimeout (.ofMillis millis)

/-! ## Settings in TOML -/

/-- A count: an integer that is not negative. -/
def count? : Toml → Option Nat
  | .integer n => if 0 ≤ n then some n.toNat else none
  | _ => none

def flag? : Toml → Option Bool
  | .bool b => some b
  | _ => none

def given {α : Type} (absent : α) (read? : Toml → Option α) : Option Toml → Option α
  | some v => read? v
  | none => some absent

def ofValues (processes chunkSize coerceFloat timeoutSeconds : Option Toml) : Option Settings := do
  let defaults : Settings := {}
  some {
    processes := ← given defaults.processes count? processes
    chunkSize := ← given defaults.chunkSize count? chunkSize
    coerceFloat := ← given defaults.coerceFloat flag? coerceFloat
    timeoutSeconds := ← given defaults.timeoutSeconds (fun v => (count? v).map some) timeoutSeconds }

def ofEntries (entries : List (String × Toml)) : Option Settings :=
  ofValues (entries.lookup "number_of_processes") (entries.lookup "chunksize")
    (entries.lookup "coerce_float") (entries.lookup "run_timeout_secs")

/-- The settings of a section. A date in the place of a table gives no setting. -/
def ofSection : Toml → Option Settings
  | .table entries => ofEntries entries
  | .array items => ofValues items[0]? items[1]? items[2]? items[3]?
  | .dateTime _ => some {}
  | _ => none

/-- The settings of a document: those of its section, or of its top table if there is no section. -/
def ofDocument (entries : List (String × Toml)) : Option Settings :=
  match entries.lookup "materialize" with
  | some v => ofSection v
  | none => ofEntries entries

def checked (entries : List (String × Toml)) : Except SettingsFault Settings :=
  match ofDocument entries with
  | some s => s.validate.map fun _ => s
  | none => .error .unreadable

def ofText (text : String) : Except SettingsFault Settings :=
  match Toml.parse? text with
  | some entries => checked entries
  | none => .error .unreadable

end Settings

end RdfMapping
