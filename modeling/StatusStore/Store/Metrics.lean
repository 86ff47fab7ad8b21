/-
  StatusStore/Store/Metrics.lean
  ==============================
  **The counts of a store**, as families of samples, and the text in which a
  collector reads them.

  A family holds one sample for each combination of label values that has
  occurred; families without samples are left out of the text.  Families are in
  the order of their names, and samples in that of their label values.
-/
import StatusStore.Store.Basic

namespace StatusStore

inductive Instrument
  /-- A number that only grows. -/
  | counter
  /-- A number as it is now. -/
  | gauge
deriving DecidableEq, Repr

def Instrument.name : Instrument → String
  | counter => "counter"
  | gauge => "gauge"

structure Sample where
  labels : List String
  value : Nat
deriving DecidableEq, Repr

structure Family where
  name : String
  help : String
  instrument : Instrument
  /-- The names of the labels, in order. -/
  labels : List String
  samples : List Sample
deriving DecidableEq, Repr

namespace Family

def fullName (f : Family) : String := "tootvault_" ++ f.name

def labelText (names values : List String) : String :=
  if names.isEmpty then ""
  else
    "\x7b" ++ ",".intercalate (names.zipWith (fun n v => n ++ "=\"" ++ v ++ "\"") values) ++ "\x7d"

def lines (f : Family) : List String :=
  if f.samples.isEmpty then []
  else
    ["# HELP " ++ f.fullName ++ " " ++ f.help,
      "# TYPE " ++ f.fullName ++ " " ++ f.instrument.name]
    ++ f.samples.map fun s =>
      f.fullName ++ labelText f.labels s.labels ++ " " ++ Nat.repr s.value

end Family

namespace Store

def sorted (samples : List Sample) : List Sample :=
  samples.mergeSort fun a b => !(List.lex b.labels a.labels (· < ·))

/-- A family with one sample per cache that has a value. -/
def perCache (s : Store) (name help : String) (instrument : Instrument)
    (value : {α : Type} → Cache.EntityCache α → Option Nat) : Family where
  name
  help
  instrument
  labels := ["cache_name"]
  samples :=
    let sample {α : Type} (c : Cache.EntityCache α) : Option Sample := do
      return ⟨[c.name], ← value c⟩
    let c := s.caches
    sorted ([sample c.statuses, sample c.replies, sample c.boosts].filterMap id)

def families (s : Store) : List Family := [
  s.perCache "cache_hits_total" "Total number of cache hits" .counter
    fun c => if c.hits = 0 then none else some c.hits,
  s.perCache "cache_misses_total" "Total number of cache misses" .counter
    fun c => if c.misses = 0 then none else some c.misses,
  s.perCache "cache_size" "Current number of items in cache" .gauge (·.recordedSize),
  { name := "db_queries_total"
    help := "Total number of database queries"
    instrument := .counter
    labels := ["operation", "table"]
    samples := sorted (s.database.queries.pairs.map fun (q, n) =>
      ⟨[q.operation.name, q.table.text], n⟩) },
  { name := "key_lock_waits_total"
    help := "Total number of times a key lock acquisition had to wait"
    instrument := .counter
    labels := []
    samples := [⟨[], s.caches.waits⟩] },
  { name := "status_events_total"
    help := "Total number of status side-effect events"
    instrument := .counter
    labels := ["action", "outcome"]
    samples := sorted (s.queue.tallies.pairs.map fun ((action, outcome), n) =>
      ⟨[action.name, outcome.name], n⟩) }]

def samples (s : Store) (name : String) : List Sample :=
  ((s.families.find? (·.name = name)).map Family.samples).getD []

def metricsText (s : Store) : String :=
  String.join ((s.families.flatMap Family.lines).map (· ++ "\n"))

end Store

end StatusStore
