/-
  StatusStore/Config/Basic.lean
  =============================
  **The configuration of a store.**  It is put together from four layers, each
  laid over the one before it: the defaults, two files that may be missing, and
  the environment.  A configuration that can be read may still be refused, for
  the first fault in the order of `validate`.
-/
import StatusStore.Config.File
import StatusStore.Error

namespace StatusStore

structure Config where
  /-- The path of the database. -/
  path : String
  /-- How often a lock of the caches is released before idle ones are given up. -/
  lockGcFrequency : UInt32
  /-- The capacity of the queue of notifications. -/
  capacity : UInt64
  /-- The least severity that is logged. -/
  level : String
  /-- The form of the log. -/
  format : String
deriving DecidableEq, Repr

namespace Config

def formats : List String := ["pretty", "json"]

def fault? (c : Config) : Option ConfigFault :=
  if c.lockGcFrequency = 0 then some .zeroGcFrequency
  else if c.capacity = 0 then some .zeroCapacity
  else if !formats.contains c.format then some (.unknownFormat c.format)
  else none

def validate (c : Config) : Except Error Unit :=
  match c.fault? with
  | some fault => .error (.config fault)
  | none => .ok ()

/-! ### Layers -/

def defaults : Setting := .table [
  ("database", .table [("path", .text "data/tootvault.db")]),
  ("cache", .table [("lock_gc_frequency", .whole 1024)]),
  ("queue", .table [("capacity", .whole 1024)]),
  ("logging", .table [("level", .text "info"), ("format", .text "pretty")])]

/-- What the names of the variables begin with that belong to the program, in lower case. -/
def variableStart : String := "tootvault__"

/-- The path that the name of a variable writes, if it belongs to the program. -/
def variablePath? (name : String) : Option (List Step) :=
  let name := (lowered name).toList
  if variableStart.toList.isPrefixOf name then
    some (pathOf ((String.ofList (name.drop variableStart.length)).replace "__" "."))
  else none

def checkEnvironment (environment : List (String × String)) : Except ConfigFault Unit :=
  environment.forM fun (name, value) =>
    if name.contains '\x00' || value.contains '\x00' then
      .error (.impossible name value .zeroInside)
    else if name.isEmpty || name.contains '=' then .error (.impossible name value .noName)
    else .ok ()

def layEnvironment (s : Setting) (environment : List (String × String)) :
    Except ConfigFault Setting :=
  environment.foldlM (fun s (name, value) =>
    match variablePath? name with
    | some path => (s.layAt path (.ofText value)).mapError .misplaced
    | none => .ok s) s

/-- Lay a file over some settings.  The names outside of all tables are paths. -/
def layFile (s : Setting) (text : String) : Except ConfigFault Setting :=
  match File.read? text with
  | some entries =>
    entries.foldlM (fun s (name, value) => (s.layAt (pathOf name) value).mapError .misplaced) s
  | none => .error .unreadable

def ofSetting? (s : Setting) : Option Config := do
  let database ← s.get? "database"
  let cache ← s.get? "cache"
  let queue ← s.get? "queue"
  let logging ← s.get? "logging"
  let frequency ← (← cache.field? "lock_gc_frequency" 0).nat?
  guard (frequency < Nat.pow 2 32)
  return {
    path := ← (← database.field? "path" 0).text?
    lockGcFrequency := frequency.toUInt32
    capacity := (← (← queue.field? "capacity" 0).nat?).toUInt64
    level := ← (← logging.field? "level" 0).text?
    format := ← (← logging.field? "format" 1).text? }

/-- The configuration from the texts of the files that are there, in order, and the environment. -/
def load (files : List String) (environment : List (String × String)) : Except Error Config := do
  let settings := do
    checkEnvironment environment
    layEnvironment (← files.foldlM layFile defaults) environment
  let config ← match settings.map ofSetting? with
    | .error fault => .error (.config fault)
    | .ok none => .error (.config .unreadable)
    | .ok (some config) => .ok config
  config.validate
  return config

end Config

end StatusStore
