/-
  StatusStore/Cache/Key.lean
  ==========================
  **Cache keys**: a named lookup and what it looks up.  Inside a cache a key is
  one string, the lookup and its parts joined by a separator.
-/

namespace StatusStore.Cache

/-- A lookup with its parts, in order. -/
structure Key where
  lookup : String
  parts : List String
deriving DecidableEq, Repr, Inhabited

namespace Key

/-- Stands before each part of an encoded key. -/
def separator : Char := '\x1f'

def encode (k : Key) : String :=
  k.parts.foldl (fun s part => (s.push separator) ++ part) k.lookup

def text (k : Key) : String := k.lookup ++ "(" ++ ", ".intercalate k.parts ++ ")"

end Key

/-- Values that live in a cache, each under all of its keys. -/
class Cacheable (α : Type) where
  /-- Keys that only this value has.  The first is its primary key. -/
  keys : α → List Key
  /-- Keys that may still lead to an older value and must not once this one is stored. -/
  staleKeys : α → List Key := fun _ => []

def aliases {α : Type} [Cacheable α] (v : α) : List String := (Cacheable.keys v).map Key.encode

def staleAliases {α : Type} [Cacheable α] (v : α) : List String :=
  (Cacheable.staleKeys v).map Key.encode

end StatusStore.Cache
