import RdfMapping.Toml.Basic

/-!
TOML tables while a document is read.

A table that only a longer name has brought about is implicit and may still be defined, once: by a
header, if a header brought it about, or by further dotted names, if dotted names did. Values are
never extended. An array of tables is extended by its header, and names that go through it mean its
last table.
-/

namespace RdfMapping.Toml

/-- What a name stands for so far. -/
inductive Draft where
  | value (v : Toml)
  | table (implicit dotted : Bool) (entries : List (String × Draft))
  /-- The last table of an array, and the ones before it, last first. -/
  | tables (last : List (String × Draft)) (earlier : List (List (String × Draft)))

abbrev Drafts := List (String × Draft)

namespace Draft

def replace (name : String) (d : Draft) (entries : Drafts) : Drafts :=
  entries.map fun e => if e.1 = name then (name, d) else e

/-- Changes the table at the end of a path of names. Missing tables on the way are made; when the
path is a dotted name, it may only go through implicit tables. The change is told whether the table
was made by a dotted name. -/
def modify (byDots : Bool) (change : Bool → Drafts → Option Drafts) :
    List String → Bool → Drafts → Option Drafts
  | [], dotted, entries => change dotted entries
  | name :: path, _, entries =>
    match entries.lookup name with
    | none =>
      (modify byDots change path byDots []).map fun inner =>
        entries ++ [(name, .table true byDots inner)]
    | some (.value _) => none
    | some (.table implicit dotted inner) =>
      -- a table that a header has defined is closed to dotted names from outside
      if byDots && !implicit then none
      else (modify byDots change path dotted inner).map fun inner =>
        replace name (.table implicit dotted inner) entries
    | some (.tables last earlier) =>
      (modify byDots change path false last).map fun last =>
        replace name (.tables last earlier) entries

/-- Sets a name of a table: not twice, and by dots only in a table that dots have made. -/
def set (byDots : Bool) (name : String) (v : Toml) (dotted : Bool) (entries : Drafts) :
    Option Drafts :=
  if dotted != byDots then none
  else
    match entries.lookup name with
    | none => some (entries ++ [(name, .value v)])
    | some _ => none

def assign (path : List String) (name : String) (v : Toml) (entries : Drafts) : Option Drafts :=
  modify true (set (!path.isEmpty) name v) path false entries

def define (name : String) (entries : Drafts) : Option Drafts :=
  match entries.lookup name with
  | none => some (entries ++ [(name, .table false false [])])
  | some (.table true false inner) => some (replace name (.table false false inner) entries)
  | some _ => none

def append (name : String) (entries : Drafts) : Option Drafts :=
  match entries.lookup name with
  | none => some (entries ++ [(name, .tables [] [])])
  | some (.tables last earlier) => some (replace name (.tables [] (last :: earlier)) entries)
  | some _ => none

mutual

def finish : Draft → Toml
  | .value v => v
  | .table _ _ entries => .table (finishEntries entries)
  | .tables last earlier => .array (finishTables earlier [.table (finishEntries last)])

def finishEntries : List (String × Draft) → List (String × Toml)
  | [] => []
  | (name, d) :: rest => (name, finish d) :: finishEntries rest

/-- Puts finished tables, given last first, in front of others. -/
def finishTables : List (List (String × Draft)) → List Toml → List Toml
  | [], done => done
  | entries :: rest, done => finishTables rest (.table (finishEntries entries) :: done)

end

end Draft

end RdfMapping.Toml
