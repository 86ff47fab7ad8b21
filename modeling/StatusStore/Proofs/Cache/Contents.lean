/-
  StatusStore/Proofs/Cache/Contents.lean
  ======================================
  **Where cached values come from.**  A value comes into a cache as the answer of a
  load or as a value that is stored, and nothing changes it afterwards.  So what is
  true of all answers and all stored values is true of whatever is cached, and of
  whatever a load answers, however loads and stores follow each other or overlap.

  That takes no order of the index, the locks or the marks: `Only` is about every
  entry, found by an alias or not, and about every flight.

  Main statements: `Only.load` and `Only.store` for one caller at a time, `Only.start`
  and `Only.poll` for calls that overlap.
-/
import StatusStore.Proofs.Cache.Flights
import StatusStore.Proofs.Cache.Marks

namespace StatusStore.Cache

variable {α : Type} {v : α}

/-! ### Entries -/

namespace Index

variable {P : α → Prop} {x y : Index α} {k : String}

/-- `P` is true of the value of every entry. -/
def Only (P : α → Prop) (x : Index α) : Prop :=
  ∀ ⦃n : Nat⦄ ⦃e : Entry α⦄, x.entries.get? n = some e → P e.value

theorem only_empty : ({} : Index α).Only P := fun _ _ he => by cases he

namespace Only

theorem get? (h : x.Only P) (hv : x.get? k = some v) : P v := by
  obtain ⟨n, e, -, he, rfl⟩ := get?_eq_some.1 hv
  exact h he

theorem of_eq (h : x.Only P) (entries : y.entries = x.entries) : y.Only P := by
  intro n e he
  rw [entries] at he
  exact h he

theorem remove (h : x.Only P) (key : String) : (x.remove key).2.Only P := by
  unfold Index.remove
  split
  · exact h
  · split
    · exact h
    · intro n e he
      rw [KeyMap.get?_erase] at he
      split at he
      · cases he
      · exact h he

theorem removeAll (h : x.Only P) (keys : List String) : (x.removeAll keys).2.Only P := by
  induction keys generalizing x with
  | nil => exact h
  | cons key keys ih => exact ih (h.remove key)

/-- An entry that loses an alias keeps its value. -/
theorem unlink (h : x.Only P) (key : String) : (x.unlink key).Only P := by
  intro n e he
  rw [entries_unlink, Option.map_eq_some_iff] at he
  obtain ⟨old, hold, rfl⟩ := he
  split
  · exact h (e := old) hold
  · exact h hold

theorem unlinkAll (h : x.Only P) (keys : List String) : (keys.foldl Index.unlink x).Only P := by
  induction keys generalizing x with
  | nil => exact h
  | cons key keys ih => exact ih (h.unlink key)

theorem file (h : x.Only P) (hv : P v) (keys : List String) : (x.file v keys).Only P := by
  intro n e he
  rw [entries_file] at he
  split at he
  · cases he
    exact hv
  · exact h he

theorem touch (h : x.Only P) (keys : List String) : (x.touch keys).Only P := by
  refine h.of_eq ?_
  unfold Index.touch
  dsimp only
  split <;> rfl

theorem invalidate (h : x.Only P) (key : String) : (x.invalidate key).2.Only P :=
  (h.remove key).touch _

variable [Cacheable α]

theorem finishLoad (h : x.Only P) (key : String) (value : Option α) :
    (x.finishLoad key value).2.Only P :=
  h.of_eq (x.ended_finishLoad key value).entries

theorem insert (h : x.Only P) (hv : P v) (lookup : Option String) :
    (x.insert v lookup).2.Only P :=
  (h.removeAll _).file hv _

theorem commit (h : x.Only P) (hv : P v) : (x.commit v).2.Only P :=
  ((h.unlinkAll _).insert hv none).touch _

end Only

end Index

/-! ### Answers and flights

Here `P` is about the answers of loads, errors among them; a value is one that may be answered. -/

variable {P : Except Error α → Prop}

def Work.Only (P : Except Error α → Prop) : Work α → Prop
  | .load _ answer => ∀ r, answer = some r → P r
  | .store v _ => P (.ok v)

def Progress.Only (P : Except Error α → Prop) : Progress α → Prop
  | .loaded r => P r
  | _ => True

namespace EntityCache

variable {c u : EntityCache α} {f : Flight α} {w : Work α} {r : Except Error α} {key : Key}

/-- `P` is true of whatever is cached and of whatever the flights may bring. -/
structure Only (P : Except Error α → Prop) (c : EntityCache α) : Prop where
  index : c.index.Only fun v => P (.ok v)
  flights : ∀ f ∈ c.flights, f.work.Only P

theorem only_withGcFrequency (name : String) (frequency : UInt32) :
    (withGcFrequency name frequency : EntityCache α).Only P :=
  ⟨Index.only_empty, List.forall_mem_nil _⟩

theorem only_restarted (c : EntityCache α) : c.restarted.Only P :=
  ⟨Index.only_empty, List.forall_mem_nil _⟩

namespace Only

theorem get? (h : c.Only P) (hv : c.get? key = some v) : P (.ok v) := h.index.get? hv

theorem flight? (h : c.Only P) {handle : Nat} (hf : c.flight? handle = some f) : f.work.Only P :=
  h.flights f (List.mem_of_find?_eq_some hf)

theorem congr (h : c.Only P) (index : u.index = c.index) (flights : u.flights = c.flights) :
    u.Only P where
  index := index ▸ h.index
  flights := flights ▸ h.flights

/-! ### Flights one by one -/

theorem append (h : c.Only P) (hf : f.work.Only P) (locks : Lock.Session) :
    ({ c with locks, flights := c.flights ++ [f] } : EntityCache α).Only P := by
  refine ⟨h.index, fun g hg => ?_⟩
  rcases List.mem_append.1 hg with hg | hg
  · exact h.flights g hg
  · rw [List.mem_singleton.1 hg]
    exact hf

theorem modifyFlight (h : c.Only P) (handle : Nat) {g : Flight α → Flight α}
    (hg : ∀ f ∈ c.flights, (g f).work.Only P) : (c.modifyFlight handle g).Only P := by
  refine ⟨h.index, fun f hf => ?_⟩
  obtain ⟨old, hold, rfl⟩ := List.mem_map.1 hf
  split
  · exact hg old hold
  · exact h.flights old hold

theorem endFlight (h : c.Only P) (handle : Nat) : (c.endFlight handle).Only P :=
  ⟨h.index, fun f hf => h.flights f (List.mem_filter.1 hf).1⟩

theorem answerLoad (h : c.Only P) (handle : Nat) (hr : P r) : (c.answerLoad handle r).Only P := by
  refine h.modifyFlight handle fun f hf => ?_
  have hwork := h.flights f hf
  obtain ⟨i, work, phase⟩ := f
  rcases work with ⟨key, _ | answer⟩ | ⟨v, answer⟩
  · rintro _ ⟨⟩
    exact hr
  · exact hwork
  · exact hwork

theorem answerStore (h : c.Only P) (handle : Nat) (r : Except Error Unit) :
    (c.answerStore handle r).Only P := by
  refine h.modifyFlight handle fun f hf => ?_
  have hwork := h.flights f hf
  obtain ⟨i, work, phase⟩ := f
  rcases work with ⟨key, answer⟩ | ⟨v, _ | answer⟩ <;> exact hwork

/-! ### Single changes -/

theorem invalidate (h : c.Only P) (key : Key) : (c.invalidate key).2.Only P :=
  ⟨h.index.invalidate key.encode, h.flights⟩

variable [Cacheable α]

theorem settleLoad (h : c.Only P) (key : String) (hr : P r) : (c.settleLoad key r).Only P := by
  refine ⟨?_, (c.flights_settleLoad key r).2 ▸ h.flights⟩
  cases r with
  | error e => exact h.index.finishLoad key none
  | ok v =>
    have hended := h.index.finishLoad key (some v)
    rw [index_settleLoad]
    split
    · exact hended.insert hr _
    · exact hended

theorem commit (h : c.Only P) (hv : P (.ok v)) : (c.commit v).2.Only P :=
  ⟨h.index.commit hv, h.flights⟩

/-! ### One caller at a time -/

theorem load {σ : Type} (h : c.Only P) (key : Key) (compute : σ → Except Error α × σ) (env : σ)
    (hanswer : P (compute env).1) :
    (c.load key compute env).2.1.Only P ∧ P (c.load key compute env).1 := by
  unfold EntityCache.load
  cases hcached : c.get? key with
  | some w => exact ⟨h.congr rfl rfl, h.get? hcached⟩
  | none =>
    have hbegun : (c.beginLoad key.encode).Only P := ⟨h.index.of_eq rfl, h.flights⟩
    exact ⟨hbegun.settleLoad key.encode hanswer, hanswer⟩

theorem store {σ : Type} (h : c.Only P) (hv : P (.ok v)) (persist : σ → Except Error Unit × σ)
    (env : σ) : (c.store v persist env).2.2.1.Only P := by
  unfold EntityCache.store
  split
  · exact h
  · have hstarted : ({ c with started := c.started + 1 } : EntityCache α).Only P := h.congr rfl rfl
    dsimp only
    split
    · exact hstarted
    · exact hstarted.commit hv

/-! ### Calls that overlap -/

theorem advance (h : c.Only P) (hf : f.work.Only P) :
    (c.advance f).2.2.Only P ∧ (c.advance f).1.Only P := by
  obtain ⟨i, work, phase⟩ := f
  rcases work with ⟨key, _ | answer⟩ | ⟨v, _ | e | _⟩
  · exact ⟨h, trivial⟩
  · have hanswer : P answer := hf answer rfl
    exact ⟨(h.settleLoad key.encode hanswer).endFlight i, hanswer⟩
  · exact ⟨h, trivial⟩
  · exact ⟨h.endFlight i, trivial⟩
  · exact ⟨(h.commit hf).endFlight i, trivial⟩

theorem enter (h : c.Only P) (hf : f.work.Only P) :
    (c.enter f).2.2.Only P ∧ (c.enter f).1.Only P := by
  have hrunning : (c.modifyFlight f.handle ({ · with phase := .running })).Only P :=
    h.modifyFlight f.handle h.flights
  unfold EntityCache.enter
  dsimp only
  split
  · rename_i key answer _
    cases hcached : c.get? key with
    | some w =>
      have hhit : c.recordHit.Only P := h.congr rfl rfl
      exact ⟨hhit.endFlight f.handle, h.get? hcached⟩
    | none => exact advance ⟨hrunning.index.of_eq rfl, hrunning.flights⟩ hf
  · exact advance (hrunning.congr rfl rfl) hf

theorem start (h : c.Only P) (handle : Nat) (hw : w.Only P) :
    (c.start handle w).2.2.Only P ∧ (c.start handle w).1.Only P := by
  have htake : ∀ key, (c.take handle w key).2.2.Only P ∧ (c.take handle w key).1.Only P := by
    intro key
    unfold take
    split
    · exact (h.append hw _).enter hw
    · exact ⟨h.append hw _, trivial⟩
    · exact ⟨h, trivial⟩
  cases w with
  | load key answer =>
    cases hcached : c.get? key with
    | some w =>
      rw [start_hit hcached]
      exact ⟨h.congr rfl rfl, h.get? hcached⟩
    | none =>
      rw [start_miss hcached]
      exact htake key.encode
  | store v answer =>
    cases hkey : (Work.store v answer).lockKey? with
    | some key =>
      rw [start_store hkey]
      exact htake key
    | none =>
      have hkeys : Cacheable.keys v = [] := by simpa [Work.lockKey?] using hkey
      rw [start_refused hkeys]
      exact ⟨h, trivial⟩

theorem poll (h : c.Only P) (handle : Nat) :
    (c.poll handle).2.2.Only P ∧ (c.poll handle).1.Only P := by
  unfold EntityCache.poll
  cases hflight : c.flight? handle with
  | none => exact ⟨h, trivial⟩
  | some f =>
    have hf := h.flight? hflight
    dsimp only
    split
    · exact h.advance hf
    · have hlocked : ∀ locks, ({ c with locks } : EntityCache α).Only P := fun _ => h.congr rfl rfl
      split
      · exact (hlocked _).enter hf
      · exact ⟨hlocked _, trivial⟩

theorem cancel (h : c.Only P) (handle : Nat) : (c.cancel handle).2.Only P := by
  unfold EntityCache.cancel
  split
  · exact h
  · split
    · rename_i key _ _ _
      have habandoned : (c.abandonLoad key.encode).Only P :=
        ⟨h.index.finishLoad key.encode none, h.flights⟩
      exact habandoned.endFlight handle
    · exact h.endFlight handle

end Only

end EntityCache

end StatusStore.Cache
