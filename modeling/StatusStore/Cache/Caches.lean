/-
  StatusStore/Cache/Caches.lean
  =============================
  **The caches of the status store**: statuses by every lookup, and the lists of
  ids of the replies to and the boosts of a status.

  A list depends on the statuses in it and on the one it belongs to.  Therefore
  every status that the status cache announces drops the lists of its parent, of
  what it boosts, and its own two.
-/
import StatusStore.Cache.Flight
import StatusStore.Model.Lookup

namespace StatusStore.Cache

/-! ### Statuses and id lists as cached values -/

def Key.ofLookup (l : Lookup) : Key := ⟨l.name, l.parts⟩

def Key.ofTarget (target : String) : Key := ⟨"Target", [target]⟩

/-- A status is cached by each lookup that leads to it alone.  An account may boost a status
again, so what is cached by the boost lookup goes when a boost is stored. -/
instance : Cacheable Status where
  keys s := ([Lookup.id s.id, .uri s.uri] ++ (s.url.map Lookup.url).toList
    ++ (s.pollId.map Lookup.pollId).toList).map Key.ofLookup
  staleKeys s := (s.boostOfId.map fun target => .ofLookup (.boost target s.accountId)).toList

structure IdList where
  target : String
  ids : List String
deriving DecidableEq, Repr

instance : Cacheable IdList where
  keys l := [.ofTarget l.target]

inductive ListKind
  | replies
  | boosts
deriving DecidableEq, Repr

structure Caches where
  statuses : EntityCache Status
  /-- The ids of the replies to a status, newest first. -/
  replies : EntityCache IdList
  /-- The ids of the boosts of a status, newest first. -/
  boosts : EntityCache IdList

inductive CallProgress
  | status (progress : Progress Status)
  | list (progress : Progress IdList)

namespace CallProgress

def isEnd : CallProgress → Bool
  | .status (.loaded _) | .status (.stored _) | .list (.loaded _) | .list (.stored _) => true
  | _ => false

end CallProgress

namespace Caches

def withGcFrequency (frequency : UInt32) : Caches where
  statuses := .withGcFrequency "status" frequency
  replies := .withGcFrequency "in_reply_to_ids" frequency
  boosts := .withGcFrequency "boost_of_ids" frequency

instance : Inhabited Caches := ⟨.withGcFrequency Lock.defaultGcFrequency⟩

/-- The caches as a new process finds them. -/
def restarted (c : Caches) : Caches :=
  ⟨c.statuses.restarted, c.replies.restarted, c.boosts.restarted⟩

/-- How often some acquire of a key lock had to wait. -/
def waits (c : Caches) : Nat :=
  c.statuses.locks.waits + c.replies.locks.waits + c.boosts.locks.waits

def started (c : Caches) : Nat := c.statuses.started + c.replies.started + c.boosts.started

/-! ### Id lists -/

def lists (c : Caches) : ListKind → EntityCache IdList
  | .replies => c.replies
  | .boosts => c.boosts

def setLists (c : Caches) (kind : ListKind) (lists : EntityCache IdList) : Caches :=
  match kind with
  | .replies => { c with replies := lists }
  | .boosts => { c with boosts := lists }

def list? (c : Caches) (kind : ListKind) (target : String) : Option (List String) :=
  ((c.lists kind).get? (.ofTarget target)).map IdList.ids

def invalidateList (c : Caches) (kind : ListKind) (target : String) : Caches :=
  c.setLists kind ((c.lists kind).invalidate (.ofTarget target)).2

def dropLists (c : Caches) (s : Status) : Caches :=
  let c := match s.inReplyToId with
    | some parent => c.invalidateList .replies parent
    | none => c
  let c := match s.boostOfId with
    | some target => c.invalidateList .boosts target
    | none => c
  (c.invalidateList .replies s.id).invalidateList .boosts s.id

def announce (c : Caches) (announced : List Status) : Caches := announced.foldl dropLists c

/-! ### One caller at a time -/

def load {σ : Type} (c : Caches) (key : Key) (compute : σ → Except Error Status × σ) (env : σ) :
    Except Error Status × Caches × σ :=
  let (answer, statuses, env) := c.statuses.load key compute env
  (answer, { c with statuses }, env)

def loadList {σ : Type} (c : Caches) (kind : ListKind) (target : String)
    (compute : σ → Except Error (List String) × σ) (env : σ) :
    Except Error (List String) × Caches × σ :=
  let compute (env : σ) : Except Error IdList × σ :=
    let (answer, env) := compute env
    (answer.map (IdList.mk target), env)
  let (answer, lists, env) := (c.lists kind).load (.ofTarget target) compute env
  (answer.map IdList.ids, c.setLists kind lists, env)

def store {σ : Type} (c : Caches) (s : Status) (persist : σ → Except Error Unit × σ) (env : σ) :
    Except Error Unit × Caches × σ :=
  let (answer, announced, statuses, env) := c.statuses.store s persist env
  (answer, { c with statuses }.announce announced, env)

def invalidate (c : Caches) (key : Key) : Caches :=
  let (announced, statuses) := c.statuses.invalidate key
  { c with statuses }.announce announced

/-! ### Calls that overlap

The handles of all three caches come from one supply, so that a handle names one call. -/

def afterStep (c : Caches) : Progress Status × List Status × EntityCache Status →
    CallProgress × Caches
  | (progress, announced, statuses) => (.status progress, { c with statuses }.announce announced)

def afterListStep (c : Caches) (kind : ListKind) :
    Progress IdList × List IdList × EntityCache IdList → CallProgress × Caches
  | (progress, _, lists) => (.list progress, c.setLists kind lists)

def start (c : Caches) (handle : Nat) (work : Work Status) : CallProgress × Caches :=
  c.afterStep (c.statuses.start handle work)

def startList (c : Caches) (kind : ListKind) (handle : Nat) (target : String)
    (answer : Option (Except Error (List String))) : CallProgress × Caches :=
  let answer := answer.map (·.map (IdList.mk target))
  c.afterListStep kind ((c.lists kind).start handle (.load (.ofTarget target) answer))

def answerLoad (c : Caches) (handle : Nat) (result : Except Error Status) : Caches :=
  { c with statuses := c.statuses.answerLoad handle result }

def answerStore (c : Caches) (handle : Nat) (result : Except Error Unit) : Caches :=
  { c with statuses := c.statuses.answerStore handle result }

def listTarget? (c : Caches) (kind : ListKind) (handle : Nat) : Option String := do
  match (← (c.lists kind).flight? handle).work with
  | .load key _ => key.parts.head?
  | .store value _ => some value.target

def answerList (c : Caches) (kind : ListKind) (handle : Nat)
    (result : Except Error (List String)) : Caches :=
  match c.listTarget? kind handle with
  | some target =>
    c.setLists kind ((c.lists kind).answerLoad handle (result.map (IdList.mk target)))
  | none => c

def poll (c : Caches) (handle : Nat) : CallProgress × Caches :=
  if (c.replies.flight? handle).isSome then c.afterListStep .replies (c.replies.poll handle)
  else if (c.boosts.flight? handle).isSome then c.afterListStep .boosts (c.boosts.poll handle)
  else c.afterStep (c.statuses.poll handle)

def cancel (c : Caches) (handle : Nat) : Bool × Caches :=
  let (a, statuses) := c.statuses.cancel handle
  let (b, replies) := c.replies.cancel handle
  let (d, boosts) := c.boosts.cancel handle
  (a || b || d, { statuses, replies, boosts })

end Caches

end StatusStore.Cache
