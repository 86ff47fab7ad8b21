/-
  StatusStore/Proofs/Cache/Flights.lean
  =====================================
  **What loads and stores that overlap can do to a cache.**  A flight computes
  while it holds the lock of its key and waits while another one does, so the
  locks of a cache are told by its flights (`Gripped`).  `Moves` lists what an
  action can do, each time by what becomes of the index and of the one flight that
  it concerns.

  Main statements: `Gripped.moves` (an action does one of the things listed),
  `Gripped.act` and `Gripped.run` (the locks stay told by the flights), and
  `Gripped.alone`, by which no two flights with one lock key compute at a time.
-/
import StatusStore.Cache.Flight
import StatusStore.Proofs.Lock.Grips

namespace StatusStore.Cache

/-- What can happen to a cache from outside.  A load or store is started without its answer, and is
answered while it asks; each call of the cache has a handle of its own while it is in flight. -/
inductive Action (α : Type)
  | load (handle : Nat) (key : Key)
  | store (handle : Nat) (value : α)
  | answerLoad (handle : Nat) (result : Except Error α)
  | answerStore (handle : Nat) (result : Except Error Unit)
  | poll (handle : Nat)
  | cancel (handle : Nat)
  | invalidate (key : Key)

def Action.handle? {α : Type} : Action α → Option Nat
  | load h _ | store h _ | answerLoad h _ | answerStore h _ | poll h | cancel h => some h
  | invalidate _ => none

namespace Flight

variable {α : Type} [Cacheable α]

def lockKey (f : Flight α) : String := f.work.lockKey?.getD ""

/-- The lock of a flight: it waits for its key or holds it. -/
def grip (f : Flight α) : Lock.Grip := ⟨f.lockKey, .write, f.phase = .running⟩

end Flight

namespace EntityCache

variable {α : Type} {c u : EntityCache α} {h j : Nat}

/-! ### The flight under a handle -/

/-- `u` has the flight `f` under the handle, or none, and otherwise the flights of `c`. -/
def Sets (c u : EntityCache α) (h : Nat) (f : Option (Flight α)) : Prop :=
  ∀ j, u.flight? j = if j = h then f else c.flight? j

theorem Sets.self {f : Option (Flight α)} (hsets : Sets c u h f) : u.flight? h = f := by
  rw [hsets, if_pos rfl]

theorem Sets.other {f : Option (Flight α)} (hsets : Sets c u h f) (hj : j ≠ h) :
    u.flight? j = c.flight? j := by
  rw [hsets, if_neg hj]

theorem Sets.same {f : Flight α} (hsets : Sets c u h (some f)) (hf : c.flight? h = some f) (j : Nat) :
    u.flight? j = c.flight? j := by
  rw [hsets]
  split
  · rename_i hj
    rw [hj, hf]
  · rfl

theorem handle_of_flight? {f : Flight α} (hf : c.flight? h = some f) : f.handle = h := by
  simpa using List.find?_some hf

theorem sets_append {f : Flight α} (hfree : c.flight? f.handle = none)
    (hflights : u.flights = c.flights ++ [f]) : Sets c u f.handle (some f) := by
  intro j
  have hfind : u.flight? j = (c.flight? j).or (if f.handle = j then some f else none) := by
    simp only [flight?, hflights, List.find?_append, List.find?_singleton, decide_eq_true_eq]
  rw [hfind]
  by_cases hj : j = f.handle
  · subst hj
    simp [hfree]
  · simp [hj, Ne.symm hj]

theorem sets_modifyFlight {f : Flight α} {g : Flight α → Flight α} (hf : c.flight? h = some f)
    (hhandle : ∀ x, (g x).handle = x.handle) : Sets c (c.modifyFlight h g) h (some (g f)) := by
  intro j
  have hsame : ∀ x : Flight α, (if x.handle = h then g x else x).handle = x.handle := by
    intro x
    split
    · exact hhandle x
    · rfl
  have hfind : (c.modifyFlight h g).flight? j =
      (c.flight? j).map fun x => if x.handle = h then g x else x := by
    simp only [flight?, modifyFlight, List.find?_map, Function.comp_def, hsame]
  rw [hfind]
  split
  · rename_i hj
    rw [hj, hf, Option.map_some, if_pos (handle_of_flight? hf)]
  · rename_i hj
    cases hother : c.flight? j with
    | none => rfl
    | some x =>
      rw [Option.map_some, if_neg]
      rw [handle_of_flight? hother]
      exact hj

theorem sets_endFlight (c : EntityCache α) (h : Nat) : Sets c (c.endFlight h) h none := by
  intro j
  simp only [flight?, endFlight, List.find?_filter]
  split
  · rename_i hj
    subst hj
    simp
  · rename_i hj
    congr 1
    funext x
    by_cases hx : x.handle = j
    · simp [hx, hj]
    · simp [hx]

theorem isAsking_iff : c.isAsking h = true ↔
    ∃ f, c.flight? h = some f ∧ f.phase = .running ∧ f.work.isAnswered = false := by
  simp [isAsking, Option.any_eq_true]

variable [Cacheable α] {key : Key} {v : α} {a : Action α} {p : Progress α}

def launch (c : EntityCache α) (h : Nat) (w : Work α) : Progress α × EntityCache α :=
  if (c.flight? h).isSome then (.busy, c) else ((c.start h w).1, (c.start h w).2.2)

/-- One action; answers what it tells the caller of the flight that it concerns. -/
def act (c : EntityCache α) : Action α → Progress α × EntityCache α
  | .load h key => c.launch h (.load key none)
  | .store h v => c.launch h (.store v none)
  | .answerLoad h r => (.pending, if c.isAsking h then c.answerLoad h r else c)
  | .answerStore h r => (.pending, if c.isAsking h then c.answerStore h r else c)
  | .poll h => ((c.poll h).1, (c.poll h).2.2)
  | .cancel h => (.pending, (c.cancel h).2)
  | .invalidate key => (.pending, (c.invalidate key).2)

def run (c : EntityCache α) (actions : List (Action α)) : EntityCache α :=
  actions.foldl (fun c a => (c.act a).2) c

/-! ### What an action can do -/

def starting (h : Nat) : Work α → Action α
  | .load key _ => .load h key
  | .store v _ => .store h v

/-- Nobody computes under the lock of `key`. -/
def Free (c : EntityCache α) (key : String) : Prop :=
  ∀ j f, c.flight? j = some f → f.phase = .running → f.lockKey ≠ key

/-- The actions that change nothing, and why. -/
inductive Idle (c : EntityCache α) : Action α → Progress α → Prop
  | hit {h : Nat} {key : Key} {v : α} : c.flight? h = none → c.get? key = some v →
      Idle c (.load h key) (.loaded (.ok v))
  | busy {h : Nat} {w : Work α} {f : Flight α} : c.flight? h = some f →
      Idle c (starting h w) .busy
  | refused {h : Nat} {v : α} {e : Error} : Cacheable.keys v = [] →
      Idle c (.store h v) (.stored (.error e))
  | unused {h : Nat} : c.flight? h = none → Idle c (.poll h) .over
  | asking {h : Nat} {f : Flight α} : c.flight? h = some f → f.phase = .running →
      f.work.isAnswered = false → Idle c (.poll h) .pending
  | blocked {h : Nat} {f : Flight α} : c.flight? h = some f → f.phase = .waiting →
      ¬ c.Free f.lockKey → Idle c (.poll h) .pending
  | unheard {a : Action α} {h : Nat} : (∃ r, a = .answerLoad h r) ∨ (∃ r, a = .answerStore h r) →
      (∀ key r, a = .answerLoad h r → c.flight? h ≠ some ⟨h, .load key none, .running⟩) →
      (∀ v r, a = .answerStore h r → c.flight? h ≠ some ⟨h, .store v none, .running⟩) →
      Idle c a .pending
  | missed {h : Nat} : c.flight? h = none → Idle c (.cancel h) .pending

/-- How a flight gets the lock of its key: at its start, or when it is polled later. -/
inductive Admits (c : EntityCache α) (h : Nat) (w : Work α) : Action α → Prop
  | atOnce : c.flight? h = none → Admits c h w (starting h w)
  | later : c.flight? h = some ⟨h, w, .waiting⟩ → Admits c h w (.poll h)

/-- The things that an action can do, with what it tells and the cache after it. -/
inductive Moves (c : EntityCache α) : Action α → Progress α → EntityCache α → Prop
  | idle {a : Action α} {p : Progress α} {u : EntityCache α} : Idle c a p → u.index = c.index →
      (∀ j, u.flight? j = c.flight? j) → Moves c a p u
  /-- A flight starts and has to wait. -/
  | queued {h : Nat} {w : Work α} {u : EntityCache α} : c.flight? h = none →
      (∀ key r, w = .load key r → c.get? key = none) → w.isAnswered = false → u.index = c.index →
      Sets c u h (some ⟨h, w, .waiting⟩) → Moves c (starting h w) .pending u
  /-- A load has the lock and finds its value. -/
  | found {h : Nat} {key : Key} {v : α} {u : EntityCache α} :
      c.flight? h = some ⟨h, .load key none, .waiting⟩ → c.get? key = some v →
      u.index = c.index → Sets c u h none → Moves c (.poll h) (.loaded (.ok v)) u
  /-- A load has the lock and begins to compute. -/
  | began {a : Action α} {h : Nat} {key : Key} {u : EntityCache α} :
      Admits c h (.load key none) a → c.get? key = none → c.Free key.encode →
      u.index = c.index.beginLoad key.encode → Sets c u h (some ⟨h, .load key none, .running⟩) →
      Moves c a .pending u
  /-- A store has the lock and begins to persist. -/
  | persists {a : Action α} {h : Nat} {v : α} {u : EntityCache α} :
      Admits c h (.store v none) a → c.Free (Flight.lockKey ⟨h, .store v none, .running⟩) →
      u.index = c.index → Sets c u h (some ⟨h, .store v none, .running⟩) → Moves c a .pending u
  | answeredLoad {h : Nat} {key : Key} {r : Except Error α} {u : EntityCache α} :
      c.flight? h = some ⟨h, .load key none, .running⟩ → u.index = c.index →
      Sets c u h (some ⟨h, .load key (some r), .running⟩) → Moves c (.answerLoad h r) .pending u
  | answeredStore {h : Nat} {v : α} {r : Except Error Unit} {u : EntityCache α} :
      c.flight? h = some ⟨h, .store v none, .running⟩ → u.index = c.index →
      Sets c u h (some ⟨h, .store v (some r), .running⟩) → Moves c (.answerStore h r) .pending u
  /-- A load ends with a value, which is cached if it is fresh. -/
  | loaded {h : Nat} {key : Key} {v : α} {u : EntityCache α} :
      c.flight? h = some ⟨h, .load key (some (.ok v)), .running⟩ →
      u.index = (if (c.index.finishLoad key.encode (some v)).1
        then ((c.index.finishLoad key.encode (some v)).2.insert v (some key.encode)).2
        else (c.index.finishLoad key.encode (some v)).2) →
      Sets c u h none → Moves c (.poll h) (.loaded (.ok v)) u
  /-- A load ends with an error. -/
  | failed {h : Nat} {key : Key} {e : Error} {u : EntityCache α} :
      c.flight? h = some ⟨h, .load key (some (.error e)), .running⟩ →
      u.index = (c.index.finishLoad key.encode none).2 → Sets c u h none →
      Moves c (.poll h) (.loaded (.error e)) u
  /-- A store ends and its value is cached. -/
  | committed {h : Nat} {v : α} {u : EntityCache α} :
      c.flight? h = some ⟨h, .store v (some (.ok ())), .running⟩ →
      u.index = (c.index.commit v).2 → Sets c u h none → Moves c (.poll h) (.stored (.ok ())) u
  /-- A store ends with an error. -/
  | rejected {h : Nat} {v : α} {e : Error} {u : EntityCache α} :
      c.flight? h = some ⟨h, .store v (some (.error e)), .running⟩ → u.index = c.index →
      Sets c u h none → Moves c (.poll h) (.stored (.error e)) u
  /-- A load that computes is dropped. -/
  | abandoned {h : Nat} {key : Key} {r : Option (Except Error α)} {u : EntityCache α} :
      c.flight? h = some ⟨h, .load key r, .running⟩ →
      u.index = (c.index.finishLoad key.encode none).2 → Sets c u h none →
      Moves c (.cancel h) .pending u
  /-- A flight that waits, or a store, is dropped. -/
  | withdrawn {h : Nat} {f : Flight α} {u : EntityCache α} : c.flight? h = some f →
      (∀ key r, f ≠ ⟨h, .load key r, .running⟩) → u.index = c.index → Sets c u h none →
      Moves c (.cancel h) .pending u
  | invalidated {key : Key} {u : EntityCache α} : u.index = (c.index.invalidate key.encode).2 →
      (∀ j, u.flight? j = c.flight? j) → Moves c (.invalidate key) .pending u

omit [Cacheable α] in
theorem handle?_starting (h : Nat) (w : Work α) : (starting h w).handle? = some h := by
  cases w <;> rfl

omit [Cacheable α] in
theorem starting_inj {v w : Work α} (hsame : starting h v = starting h w)
    (hv : v.isAnswered = false) (hw : w.isAnswered = false) : v = w := by
  rcases v with ⟨key, _ | _⟩ | ⟨v, _ | _⟩ <;> rcases w with ⟨key', _ | _⟩ | ⟨v', _ | _⟩ <;>
    simp_all [starting, Work.isAnswered]

omit [Cacheable α] in
theorem Admits.handle? {w : Work α} (hadmits : Admits c h w a) : a.handle? = some h := by
  cases hadmits with
  | atOnce _ => exact handle?_starting h w
  | later _ => rfl

/-- An action leaves the flights under other handles alone. -/
theorem Moves.others (hm : Moves c a p u) (hother : a.handle? ≠ some j) :
    u.flight? j = c.flight? j := by
  have hsets : ∀ {h : Nat} {f : Option (Flight α)}, a.handle? = some h → Sets c u h f →
      u.flight? j = c.flight? j := by
    intro h f hhandle hsets
    refine hsets.other fun hj => hother ?_
    rw [hhandle, hj]
  cases hm with
  | idle _ _ hsame => exact hsame j
  | queued _ _ _ _ hs => exact hsets (handle?_starting _ _) hs
  | found _ _ _ hs => exact hsets rfl hs
  | began hadmits _ _ _ hs => exact hsets hadmits.handle? hs
  | persists hadmits _ _ hs => exact hsets hadmits.handle? hs
  | answeredLoad _ _ hs => exact hsets rfl hs
  | answeredStore _ _ hs => exact hsets rfl hs
  | loaded _ _ hs => exact hsets rfl hs
  | failed _ _ hs => exact hsets rfl hs
  | committed _ _ hs => exact hsets rfl hs
  | rejected _ _ hs => exact hsets rfl hs
  | abandoned _ _ hs => exact hsets rfl hs
  | withdrawn _ _ _ hs => exact hsets rfl hs
  | invalidated _ hsame => exact hsame j

/-! ### What becomes of a flight -/

/-- What an action makes of a flight that nobody drops. -/
inductive Fate (a : Action α) (p : Progress α) (h : Nat) : Flight α → Option (Flight α) → Prop
  | same {f : Flight α} : Fate a p h f (some f)
  | admitted {w : Work α} : a = .poll h → p = .pending →
      Fate a p h ⟨h, w, .waiting⟩ (some ⟨h, w, .running⟩)
  | answeredLoad {key : Key} {r : Except Error α} : a = .answerLoad h r →
      Fate a p h ⟨h, .load key none, .running⟩ (some ⟨h, .load key (some r), .running⟩)
  | answeredStore {v : α} {r : Except Error Unit} : a = .answerStore h r →
      Fate a p h ⟨h, .store v none, .running⟩ (some ⟨h, .store v (some r), .running⟩)
  | loaded {key : Key} {r : Option (Except Error α)} {phase : Phase} {x : Except Error α} :
      a = .poll h → p = .loaded x → Fate a p h ⟨h, .load key r, phase⟩ none
  | stored {v : α} {r : Except Error Unit} : a = .poll h → p = .stored r →
      Fate a p h ⟨h, .store v (some r), .running⟩ none

theorem Moves.fate {f : Flight α} (hm : Moves c a p u) (hf : c.flight? h = some f)
    (hstay : a ≠ .cancel h) : Fate a p h f (u.flight? h) := by
  by_cases hown : a.handle? = some h
  case neg =>
    rw [hm.others hown, hf]
    exact .same
  have heq : ∀ {g : Flight α} {j : Nat},
      a.handle? = some j → c.flight? j = some g → j = h ∧ g = f := by
    intro g j hj hg
    obtain rfl : j = h := Option.some.inj (hj.symm.trans hown)
    exact ⟨rfl, Option.some.inj (hg.symm.trans hf)⟩
  have hunused : ∀ {j : Nat}, a.handle? = some j → c.flight? j ≠ none := by
    intro j hj hnone
    obtain rfl : j = h := Option.some.inj (hj.symm.trans hown)
    rw [hf] at hnone
    cases hnone
  have hadmitted : ∀ {w : Work α} {j : Nat}, Admits c j w a → Sets c u j (some ⟨j, w, .running⟩) →
      p = .pending → Fate a p h f (u.flight? h) := by
    intro w j hadmits hsets hpending
    cases hadmits with
    | atOnce hnone => exact absurd hnone (hunused (handle?_starting j w))
    | later hg =>
      obtain ⟨rfl, rfl⟩ := heq rfl hg
      rw [hsets.self]
      exact .admitted rfl hpending
  cases hm with
  | idle _ _ hsame =>
    rw [hsame, hf]
    exact .same
  | queued hnone _ _ _ _ => exact absurd hnone (hunused (handle?_starting _ _))
  | began hadmits _ _ _ hsets => exact hadmitted hadmits hsets rfl
  | persists hadmits _ _ hsets => exact hadmitted hadmits hsets rfl
  | found hg _ _ hsets =>
    obtain ⟨rfl, rfl⟩ := heq rfl hg
    rw [hsets.self]
    exact .loaded rfl rfl
  | answeredLoad hg _ hsets =>
    obtain ⟨rfl, rfl⟩ := heq rfl hg
    rw [hsets.self]
    exact .answeredLoad rfl
  | answeredStore hg _ hsets =>
    obtain ⟨rfl, rfl⟩ := heq rfl hg
    rw [hsets.self]
    exact .answeredStore rfl
  | loaded hg _ hsets =>
    obtain ⟨rfl, rfl⟩ := heq rfl hg
    rw [hsets.self]
    exact .loaded rfl rfl
  | failed hg _ hsets =>
    obtain ⟨rfl, rfl⟩ := heq rfl hg
    rw [hsets.self]
    exact .loaded rfl rfl
  | committed hg _ hsets =>
    obtain ⟨rfl, rfl⟩ := heq rfl hg
    rw [hsets.self]
    exact .stored rfl rfl
  | rejected hg _ hsets =>
    obtain ⟨rfl, rfl⟩ := heq rfl hg
    rw [hsets.self]
    exact .stored rfl rfl
  | abandoned hg _ _ =>
    obtain ⟨rfl, -⟩ := heq rfl hg
    exact absurd rfl hstay
  | withdrawn hg _ _ _ =>
    obtain ⟨rfl, -⟩ := heq rfl hg
    exact absurd rfl hstay
  | invalidated _ _ => cases hown

/-- A handle that is not in use gets a flight only where one is started. -/
theorem Moves.fate_of_unused (hm : Moves c a p u) (hnone : c.flight? h = none) :
    u.flight? h = none ∨ ∃ w phase, a = starting h w ∧ w.isAnswered = false ∧ p = .pending ∧
      u.flight? h = some ⟨h, w, phase⟩ := by
  by_cases hown : a.handle? = some h
  case neg => exact Or.inl ((hm.others hown).trans hnone)
  have hused : ∀ {g : Flight α} {j : Nat}, a.handle? = some j → c.flight? j ≠ some g := by
    intro g j hj hg
    obtain rfl : j = h := Option.some.inj (hj.symm.trans hown)
    rw [hnone] at hg
    cases hg
  have hadmitted : ∀ {w : Work α} {j : Nat}, Admits c j w a → Sets c u j (some ⟨j, w, .running⟩) →
      a = starting h w ∧ u.flight? h = some ⟨h, w, .running⟩ := by
    intro w j hadmits hsets
    cases hadmits with
    | atOnce _ =>
      obtain rfl : j = h := Option.some.inj ((handle?_starting j w).symm.trans hown)
      exact ⟨rfl, hsets.self⟩
    | later hg => exact absurd hg (hused rfl)
  cases hm with
  | idle _ _ hsame => exact Or.inl ((hsame h).trans hnone)
  | @queued j w _ _ _ hquery _ hsets =>
    obtain rfl : j = h := Option.some.inj ((handle?_starting j w).symm.trans hown)
    exact Or.inr ⟨w, .waiting, rfl, hquery, rfl, hsets.self⟩
  | began hadmits _ _ _ hsets =>
    obtain ⟨ha, hflight⟩ := hadmitted hadmits hsets
    exact Or.inr ⟨_, .running, ha, rfl, rfl, hflight⟩
  | persists hadmits _ _ hsets =>
    obtain ⟨ha, hflight⟩ := hadmitted hadmits hsets
    exact Or.inr ⟨_, .running, ha, rfl, rfl, hflight⟩
  | found hg _ _ _ => exact absurd hg (hused rfl)
  | answeredLoad hg _ _ => exact absurd hg (hused rfl)
  | answeredStore hg _ _ => exact absurd hg (hused rfl)
  | loaded hg _ _ => exact absurd hg (hused rfl)
  | failed hg _ _ => exact absurd hg (hused rfl)
  | committed hg _ _ => exact absurd hg (hused rfl)
  | rejected hg _ _ => exact absurd hg (hused rfl)
  | abandoned hg _ _ => exact absurd hg (hused rfl)
  | withdrawn hg _ _ _ => exact absurd hg (hused rfl)
  | invalidated _ _ => cases hown

/-- A value with keys is stored under a flight. -/
theorem Moves.stores (hm : Moves c (.store h v) p u) (hnone : c.flight? h = none)
    (hkeys : Cacheable.keys v ≠ []) : u.flight? h ≠ none := by
  generalize ha : Action.store h v = a at hm
  have hhandle : ∀ {j : Nat} {w : Work α}, .store h v = starting j w → j = h := by
    intro j w hsame
    exact (Option.some.inj ((congrArg Action.handle? hsame).trans (handle?_starting j w))).symm
  cases hm with
  | idle hidle _ _ =>
    cases hidle with
    | busy hf =>
      rw [hhandle ha, hnone] at hf
      cases hf
    | refused hnokeys =>
      cases ha
      exact absurd hnokeys hkeys
    | unheard hanswer _ _ => obtain ⟨r, rfl⟩ | ⟨r, rfl⟩ := hanswer <;> cases ha
    | _ => cases ha
  | queued _ _ _ _ hsets =>
    rw [← hhandle ha, hsets.self]
    exact Option.some_ne_none _
  | began hadmits _ _ _ hsets =>
    cases hadmits with
    | atOnce _ => cases ha
    | later _ => cases ha
  | persists hadmits _ _ hsets =>
    cases hadmits with
    | atOnce _ =>
      rw [← hhandle ha, hsets.self]
      exact Option.some_ne_none _
    | later _ => cases ha
  | _ => cases ha

inductive Polled (c u : EntityCache α) (h : Nat) : Flight α → Progress α → Prop
  | asking {w : Work α} : w.isAnswered = false → Polled c u h ⟨h, w, .running⟩ .pending
  | blocked {w : Work α} : ¬ c.Free (Flight.lockKey ⟨h, w, .waiting⟩) →
      Polled c u h ⟨h, w, .waiting⟩ .pending
  | found {key : Key} {v : α} : c.get? key = some v → u.flight? h = none →
      Polled c u h ⟨h, .load key none, .waiting⟩ (.loaded (.ok v))
  | began {key : Key} : c.get? key = none → u.flight? h = some ⟨h, .load key none, .running⟩ →
      Polled c u h ⟨h, .load key none, .waiting⟩ .pending
  | persists {v : α} : Polled c u h ⟨h, .store v none, .waiting⟩ .pending
  | loaded {key : Key} {r : Except Error α} : u.flight? h = none →
      Polled c u h ⟨h, .load key (some r), .running⟩ (.loaded r)
  | stored {v : α} {r : Except Error Unit} : u.flight? h = none →
      Polled c u h ⟨h, .store v (some r), .running⟩ (.stored r)

theorem Moves.polled {f : Flight α} (hm : Moves c (.poll h) p u) (hf : c.flight? h = some f) :
    Polled c u h f p := by
  generalize ha : Action.poll h = a at hm
  have heq : ∀ {j : Nat} {g : Flight α}, .poll h = (.poll j : Action α) → c.flight? j = some g →
      h = j ∧ f = g := by
    rintro j g ⟨⟩ hg
    exact ⟨rfl, Option.some.inj (hf.symm.trans hg)⟩
  cases hm with
  | idle hidle _ _ =>
    cases hidle with
    | @busy h' w g _ => cases w <;> cases ha
    | unused hnone =>
      cases ha
      rw [hf] at hnone
      cases hnone
    | @asking h' g hg hruns hquery =>
      obtain ⟨rfl, rfl⟩ := heq ha hg
      obtain ⟨k, w, phase⟩ := f
      obtain rfl : phase = .running := hruns
      obtain rfl : k = h := handle_of_flight? hf
      exact .asking hquery
    | @blocked h' g hg hwaits hheld =>
      obtain ⟨rfl, rfl⟩ := heq ha hg
      obtain ⟨k, w, phase⟩ := f
      obtain rfl : phase = .waiting := hwaits
      obtain rfl : k = h := handle_of_flight? hf
      exact .blocked hheld
    | unheard hanswer _ _ => obtain ⟨r, rfl⟩ | ⟨r, rfl⟩ := hanswer <;> cases ha
    | _ => cases ha
  | @queued h' w _ _ _ _ _ _ => cases w <;> cases ha
  | found hg hv _ hsets =>
    obtain ⟨rfl, rfl⟩ := heq ha hg
    exact .found hv hsets.self
  | began hadmits hmiss _ _ hsets =>
    cases hadmits with
    | atOnce _ => cases ha
    | later hg =>
      obtain ⟨rfl, rfl⟩ := heq ha hg
      exact .began hmiss hsets.self
  | persists hadmits _ _ _ =>
    cases hadmits with
    | atOnce _ => cases ha
    | later hg =>
      obtain ⟨rfl, rfl⟩ := heq ha hg
      exact .persists
  | loaded hg _ hsets =>
    obtain ⟨rfl, rfl⟩ := heq ha hg
    exact .loaded hsets.self
  | failed hg _ hsets =>
    obtain ⟨rfl, rfl⟩ := heq ha hg
    exact .loaded hsets.self
  | committed hg _ hsets =>
    obtain ⟨rfl, rfl⟩ := heq ha hg
    exact .stored hsets.self
  | rejected hg _ hsets =>
    obtain ⟨rfl, rfl⟩ := heq ha hg
    exact .stored hsets.self
  | _ => cases ha

/-- A flight is gone when it has told what came of it. -/
theorem Moves.ended (hm : Moves c (.poll h) p u)
    (hp : (∃ r, p = .loaded r) ∨ ∃ r, p = .stored r) : u.flight? h = none := by
  have hends : p ≠ .pending := by
    rintro rfl
    obtain ⟨r, hr⟩ | ⟨r, hr⟩ := hp <;> cases hr
  cases hf : c.flight? h with
  | none =>
    rcases hm.fate_of_unused hf with hnone | ⟨w, phase, -, -, hpending, -⟩
    · exact hnone
    · exact absurd hpending hends
  | some f =>
    cases hm.polled hf with
    | found _ hgone => exact hgone
    | loaded hgone => exact hgone
    | stored hgone => exact hgone
    | _ => exact absurd rfl hends

theorem Moves.cancelled (hm : Moves c (.cancel h) p u) : u.flight? h = none := by
  generalize ha : Action.cancel h = a at hm
  cases hm with
  | idle hidle _ hsame =>
    cases hidle with
    | @busy h' w f _ => cases w <;> cases ha
    | unheard hanswer _ _ => obtain ⟨r, rfl⟩ | ⟨r, rfl⟩ := hanswer <;> cases ha
    | missed hnone =>
      cases ha
      rw [hsame, hnone]
    | _ => cases ha
  | @queued h' w _ _ _ _ _ _ => cases w <;> cases ha
  | began hadmits _ _ _ _ => cases hadmits <;> cases ha
  | persists hadmits _ _ _ => cases hadmits <;> cases ha
  | abandoned _ _ hsets =>
    cases ha
    exact hsets.self
  | withdrawn _ _ _ hsets =>
    cases ha
    exact hsets.self
  | _ => cases ha

/-! ### Locks told by flights -/

/-- The locks are those of the flights, and who waits has not been answered. -/
structure Gripped (c : EntityCache α) : Prop where
  locks : c.locks.Sound
  grips : ∀ h, c.locks.grip? h = (c.flight? h).map Flight.grip
  unanswered : ∀ {h : Nat} {f : Flight α}, c.flight? h = some f → f.phase = .waiting →
    f.work.isAnswered = false

namespace Gripped

theorem withGcFrequency (name : String) (frequency : UInt32) :
    (EntityCache.withGcFrequency name frequency : EntityCache α).Gripped where
  locks := Lock.Session.sound_withGcFrequency frequency
  grips _ := rfl
  unanswered hf := by cases hf

theorem grip_of_running {f : Flight α} (hc : c.Gripped) (hf : c.flight? h = some f)
    (hrunning : f.phase = .running) : c.locks.grip? h = some ⟨f.lockKey, .write, true⟩ := by
  rw [hc.grips, hf]
  simp [Flight.grip, hrunning]

/-- No two flights with one lock key compute at a time. -/
theorem alone {f g : Flight α} (hc : c.Gripped) (hf : c.flight? h = some f)
    (hg : c.flight? j = some g) (hfruns : f.phase = .running) (hgruns : g.phase = .running)
    (hkey : f.lockKey = g.lockKey) : h = j :=
  hc.locks.grip?_alone (hc.grip_of_running hf hfruns) (hc.grip_of_running hg hgruns) rfl hkey.symm

theorem congr (hc : c.Gripped) (locks : u.locks = c.locks)
    (flights : ∀ j, u.flight? j = c.flight? j) : u.Gripped where
  locks := locks ▸ hc.locks
  grips j := by rw [locks, flights, hc.grips]
  unanswered hf := hc.unanswered (flights _ ▸ hf)

/-- A flight that computes may change as long as it keeps its key. -/
theorem sets {f g : Flight α} (hc : c.Gripped) (hf : c.flight? h = some f)
    (locks : u.locks = c.locks) (hsets : Sets c u h (some g)) (hgrip : g.grip = f.grip)
    (hruns : g.phase = .running) : u.Gripped where
  locks := locks ▸ hc.locks
  grips j := by
    rw [locks, hc.grips, hsets]
    split
    · rename_i hj
      rw [hj, hf, Option.map_some, Option.map_some, hgrip]
    · rfl
  unanswered {j x} hx hwaiting := by
    rw [hsets] at hx
    split at hx
    · cases hx
      rw [hruns] at hwaiting
      cases hwaiting
    · exact hc.unanswered hx hwaiting

theorem endFlight (hc : c.Gripped) (h : Nat) : (c.endFlight h).Gripped where
  locks := hc.locks.step (.drop h)
  grips j := by
    have hdrop : (c.endFlight h).locks.grip? j = if j = h then none else c.locks.grip? j :=
      Lock.Session.drop_grip? c.locks h j
    rw [hdrop, sets_endFlight, hc.grips]
    split <;> rfl
  unanswered {j f} hf hwaiting := by
    rw [sets_endFlight] at hf
    split at hf
    · cases hf
    · exact hc.unanswered hf hwaiting

end Gripped

/-! ### Getting the lock -/

/-- `d` is `c` with one more flight, or one that has waited, which has just got its lock. -/
structure Admitted (c d : EntityCache α) (h : Nat) (w : Work α) : Prop where
  locks : d.locks.Sound
  index : d.index = c.index
  flights : Sets c d h (some ⟨h, w, .waiting⟩)
  grips : ∀ j, d.locks.grip? j =
    if j = h then some ⟨Flight.lockKey ⟨h, w, .running⟩, .write, true⟩
    else (c.flight? j).map Flight.grip

/-- Whoever gets a lock has found nobody who holds it. -/
theorem Admitted.free {d : EntityCache α} {w : Work α} (hd : Admitted c d h w)
    (hwaits : ∀ f, c.flight? h = some f → f.phase = .waiting) :
    c.Free (Flight.lockKey ⟨h, w, .running⟩) := by
  intro j f hf hruns hkey
  have hother : j ≠ h := by
    rintro rfl
    rw [hwaits f hf] at hruns
    cases hruns
  have hself : d.locks.grip? h = some ⟨Flight.lockKey ⟨h, w, .running⟩, .write, true⟩ := by
    rw [hd.grips, if_pos rfl]
  have hholder : d.locks.grip? j = some f.grip := by
    rw [hd.grips, if_neg hother, hf, Option.map_some]
  exact hother (hd.locks.grip?_alone hself hholder (by simp [Flight.grip, hruns]) hkey).symm

/-- The flight that has got its lock computes from now on. -/
theorem Admitted.gripped {d : EntityCache α} {w : Work α} (hc : c.Gripped) (hd : Admitted c d h w)
    (locks : u.locks = d.locks) (hsets : Sets c u h (some ⟨h, w, .running⟩)) : u.Gripped where
  locks := locks ▸ hd.locks
  grips j := by
    rw [locks, hd.grips, hsets]
    split <;> rfl
  unanswered {j f} hf hwaiting := by
    rw [hsets] at hf
    split at hf
    · cases hf
      cases hwaiting
    · exact hc.unanswered hf hwaiting

/-- The flight that has got its lock may also end at once. -/
theorem Admitted.ended {d : EntityCache α} {w : Work α} (hc : c.Gripped) (hd : Admitted c d h w) :
    (d.endFlight h).Gripped ∧ Sets c (d.endFlight h) h none := by
  have hsets : Sets c (d.endFlight h) h none := by
    intro j
    rw [sets_endFlight, hd.flights]
    split <;> rfl
  refine ⟨⟨hd.locks.step (.drop h), fun j => ?_, fun {j f} hf hwaiting => ?_⟩, hsets⟩
  · have hdrop : (d.endFlight h).locks.grip? j = if j = h then none else d.locks.grip? j :=
      Lock.Session.drop_grip? d.locks h j
    rw [hdrop, hd.grips, hsets]
    split <;> rfl
  · rw [hsets] at hf
    split at hf
    · cases hf
    · exact hc.unanswered hf hwaiting

theorem Admitted.running {d : EntityCache α} {w : Work α} (hd : Admitted c d h w) :
    Sets c (d.modifyFlight h ({ · with phase := .running })) h (some ⟨h, w, .running⟩) := by
  have hmodify := sets_modifyFlight (g := fun f => { f with phase := .running })
    hd.flights.self fun _ => rfl
  intro j
  rw [hmodify, hd.flights]
  split <;> rfl

/-- What a flight does that has got its lock. -/
theorem Admitted.enter {d : EntityCache α} {w : Work α} (hc : c.Gripped) (hd : Admitted c d h w)
    (hadmits : Admits c h w a) (hquery : w.isAnswered = false)
    (hmiss : ∀ key r, w = .load key r → (∃ h, a = .load h key) → c.get? key = none) :
    Moves c a (d.enter ⟨h, w, .waiting⟩).1 (d.enter ⟨h, w, .waiting⟩).2.2 ∧
      (d.enter ⟨h, w, .waiting⟩).2.2.Gripped := by
  have hfree := hd.free fun f hf => by
    cases hadmits with
    | atOnce hnone =>
      rw [hnone] at hf
      cases hf
    | later hwaits =>
      rw [hwaits] at hf
      cases hf
      rfl
  obtain ⟨hended, hnone⟩ := hd.ended hc
  have hget : ∀ key, d.get? key = c.get? key := by
    intro key
    rw [get?, hd.index, get?]
  cases w with
  | load key answer =>
    obtain rfl : answer = none := by simpa [Work.isAnswered] using hquery
    unfold EntityCache.enter
    simp only [hget]
    cases hfound : c.get? key with
    | some v =>
      refine ⟨?_, hended.congr rfl fun _ => rfl⟩
      cases hadmits with
      | atOnce _ =>
        rw [hmiss key none rfl ⟨h, rfl⟩] at hfound
        cases hfound
      | later hwaits => exact .found hwaits hfound hd.index hnone
    | none =>
      refine ⟨.began hadmits hfound hfree ?_ hd.running, hd.gripped hc rfl hd.running⟩
      exact congrArg (·.beginLoad key.encode) hd.index
  | store v answer =>
    obtain rfl : answer = none := by simpa [Work.isAnswered] using hquery
    exact ⟨.persists hadmits hfree hd.index hd.running, hd.gripped hc rfl hd.running⟩

/-! ### The actions -/

/-- Take the lock of `key` for a new flight, or let it wait. -/
def take (c : EntityCache α) (h : Nat) (w : Work α) (key : String) :
    Progress α × List α × EntityCache α :=
  let f : Flight α := ⟨h, w, .waiting⟩
  match c.locks.acquire h key .write with
  | (.acquired, locks) => { c with locks, flights := c.flights ++ [f] }.enter f
  | (.pending, locks) => (.pending, [], { c with locks, flights := c.flights ++ [f] })
  | _ => (.busy, [], c)

theorem start_hit {r : Option (Except Error α)} (hv : c.get? key = some v) :
    c.start h (.load key r) = (.loaded (.ok v), [], c.recordHit) := by
  simp only [start, hv]

theorem start_miss {r : Option (Except Error α)} (hnone : c.get? key = none) :
    c.start h (.load key r) = c.take h (.load key r) key.encode := by
  simp only [start, hnone]
  rfl

theorem start_store {r : Option (Except Error Unit)} {key : String}
    (hkey : (Work.store v r).lockKey? = some key) :
    c.start h (.store v r) = c.take h (.store v r) key := by
  simp only [start, hkey]
  rfl

theorem start_refused {r : Option (Except Error Unit)} (hkeys : Cacheable.keys v = []) :
    c.start h (.store v r) = (.stored (.error (.internal (.noCacheKey c.name))), [], c) := by
  simp [start, Work.lockKey?, hkeys]

theorem index_settleLoad (c : EntityCache α) (key : String) (v : α) :
    (c.settleLoad key (.ok v)).index =
      if (c.index.finishLoad key (some v)).1
      then ((c.index.finishLoad key (some v)).2.insert v (some key)).2
      else (c.index.finishLoad key (some v)).2 := by
  simp only [settleLoad]
  generalize c.index.finishLoad key (some v) = finished
  obtain ⟨fresh, index⟩ := finished
  cases fresh <;> rfl

theorem flights_settleLoad (c : EntityCache α) (key : String) (r : Except Error α) :
    (c.settleLoad key r).locks = c.locks ∧ (c.settleLoad key r).flights = c.flights := by
  unfold settleLoad
  split
  · exact ⟨rfl, rfl⟩
  · split <;> exact ⟨rfl, rfl⟩

namespace Gripped

/-- A flight that is started takes the lock of its key or waits for it. -/
theorem take_moves {w : Work α} (hc : c.Gripped) (hflight : c.flight? h = none)
    (hquery : w.isAnswered = false)
    (hmiss : ∀ key r, w = .load key r → c.get? key = none) {key : String}
    (hkey : w.lockKey? = some key) :
    Moves c (starting h w) (c.take h w key).1 (c.take h w key).2.2 ∧
      (c.take h w key).2.2.Gripped := by
  unfold take
  have hfree : c.locks.grip? h = none := by rw [hc.grips, hflight, Option.map_none]
  obtain ⟨got, hanswer, hgrips⟩ := Lock.Session.acquire_grip? hfree key .write
  have hlocks : (c.locks.acquire h key .write).2.Sound := hc.locks.step (.acquire h key .write)
  have hown : ∀ phase, Flight.lockKey ⟨h, w, phase⟩ = key := by
    intro phase
    simp [Flight.lockKey, hkey]
  generalize c.locks.acquire h key .write = acquired at hanswer hgrips hlocks ⊢
  obtain ⟨answer, locks⟩ := acquired
  obtain rfl : answer = if got then .acquired else .pending := hanswer
  have hsets : Sets c { c with locks, flights := c.flights ++ [⟨h, w, .waiting⟩] } h
      (some ⟨h, w, .waiting⟩) := sets_append (f := ⟨h, w, .waiting⟩) hflight rfl
  cases got with
  | true =>
    have hadmitted : Admitted c { c with locks, flights := c.flights ++ [⟨h, w, .waiting⟩] } h w := by
      refine ⟨hlocks, rfl, hsets, fun j => ?_⟩
      rw [hown, ← hc.grips]
      exact hgrips j
    exact hadmitted.enter hc (.atOnce hflight) hquery fun key r hw _ => hmiss key r hw
  | false =>
    have hgripped : Gripped { c with locks, flights := c.flights ++ [⟨h, w, .waiting⟩] } := by
      refine ⟨hlocks, fun j => ?_, fun {j f} hf hwaiting => ?_⟩
      · rw [hsets]
        refine (hgrips j).trans ?_
        split
        · simp [Flight.grip, hown]
        · exact hc.grips j
      · rw [hsets] at hf
        split at hf
        · cases hf
          exact hquery
        · exact hc.unanswered hf hwaiting
    exact ⟨.queued hflight hmiss hquery rfl hsets, hgripped⟩

theorem start_moves {w : Work α} (hc : c.Gripped) (hflight : c.flight? h = none)
    (hquery : w.isAnswered = false) :
    Moves c (starting h w) (c.start h w).1 (c.start h w).2.2 ∧ (c.start h w).2.2.Gripped := by
  cases w with
  | load key r =>
    cases hget : c.get? key with
    | some v =>
      rw [start_hit hget]
      exact ⟨.idle (.hit hflight hget) rfl fun _ => rfl, hc.congr rfl fun _ => rfl⟩
    | none =>
      rw [start_miss hget]
      refine hc.take_moves hflight hquery ?_ rfl
      intro key' r' hsame
      cases hsame
      exact hget
  | store v r =>
    cases hkey : (Work.store v r).lockKey? with
    | none =>
      have hkeys : Cacheable.keys v = [] := by simpa [Work.lockKey?] using hkey
      rw [start_refused hkeys]
      exact ⟨.idle (.refused hkeys) rfl fun _ => rfl, hc⟩
    | some key =>
      rw [start_store hkey]
      exact hc.take_moves hflight hquery (fun _ _ hload => by cases hload) hkey

theorem launch_moves {w : Work α} (hc : c.Gripped) (h : Nat) (hquery : w.isAnswered = false) :
    Moves c (starting h w) (c.launch h w).1 (c.launch h w).2 ∧ (c.launch h w).2.Gripped := by
  unfold launch
  cases hflight : c.flight? h with
  | some f => exact ⟨.idle (.busy hflight) rfl fun _ => rfl, hc⟩
  | none => exact hc.start_moves hflight hquery

theorem advance_moves {f : Flight α} (hc : c.Gripped) (hf : c.flight? h = some f)
    (hruns : f.phase = .running) :
    Moves c (.poll h) (c.advance f).1 (c.advance f).2.2 ∧ (c.advance f).2.2.Gripped := by
  obtain ⟨handle, w, phase⟩ := f
  obtain rfl : phase = .running := hruns
  obtain rfl : handle = h := handle_of_flight? hf
  have hend := hc.endFlight handle
  have hsets := sets_endFlight c handle
  -- Only the index and the counters change before the flight goes.
  have hsame : ∀ u : EntityCache α, u.locks = c.locks → u.flights = c.flights →
      Sets c (u.endFlight handle) handle none ∧ (u.endFlight handle).Gripped := by
    intro u hlocks hflights
    have hflight : ∀ j, u.flight? j = c.flight? j := fun j => by rw [flight?, hflights, flight?]
    refine ⟨fun j => ?_, (hc.congr hlocks hflight).endFlight handle⟩
    rw [sets_endFlight, hflight]
  unfold advance
  cases w with
  | load key answer =>
    rcases answer with _ | r
    · exact ⟨.idle (.asking hf rfl rfl) rfl fun _ => rfl, hc⟩
    · obtain ⟨hlocks, hflights⟩ := c.flights_settleLoad key.encode r
      obtain ⟨hended, hgripped⟩ := hsame _ hlocks hflights
      refine ⟨?_, hgripped⟩
      cases r with
      | error e => exact .failed hf rfl hended
      | ok v => exact .loaded hf (c.index_settleLoad key.encode v) hended
  | store v answer =>
    rcases answer with _ | e | ⟨⟩
    · exact ⟨.idle (.asking hf rfl rfl) rfl fun _ => rfl, hc⟩
    · exact ⟨.rejected hf rfl hsets, hend⟩
    · obtain ⟨hended, hgripped⟩ := hsame (c.commit v).2 rfl rfl
      exact ⟨.committed hf rfl hended, hgripped⟩

theorem poll_moves (hc : c.Gripped) (h : Nat) :
    Moves c (.poll h) (c.poll h).1 (c.poll h).2.2 ∧ (c.poll h).2.2.Gripped := by
  unfold poll
  cases hflight : c.flight? h with
  | none => exact ⟨.idle (.unused hflight) rfl fun _ => rfl, hc⟩
  | some f =>
    obtain ⟨handle, w, phase⟩ := f
    obtain rfl : handle = h := handle_of_flight? hflight
    cases phase with
    | running => exact hc.advance_moves hflight rfl
    | waiting =>
      have hquery := hc.unanswered hflight rfl
      have hgrip : c.locks.grip? handle =
          some ⟨Flight.lockKey ⟨handle, w, .waiting⟩, .write, false⟩ := by
        rw [hc.grips, hflight]
        rfl
      have hlocks : (c.locks.poll handle).2.Sound := hc.locks.step (.poll handle)
      by_cases hgot : (c.locks.poll handle).1 = .acquired
      · obtain ⟨key, kind, hbefore, hafter⟩ := Lock.Session.poll_grip? hgot
        rw [hgrip] at hbefore
        obtain ⟨rfl, rfl⟩ : Flight.lockKey ⟨handle, w, .waiting⟩ = key ∧ Lock.Kind.write = kind := by
          simpa using hbefore
        have hadmitted : Admitted c { c with locks := (c.locks.poll handle).2 } handle w := by
          refine ⟨hlocks, rfl, fun j => ?_, fun j => ?_⟩
          · split
            · rename_i hj
              rw [hj]
              exact hflight
            · rfl
          · rw [← hc.grips]
            exact hafter j
        have henter := hadmitted.enter hc (.later hflight) hquery (fun _ _ _ hload => by
          obtain ⟨_, hload⟩ := hload
          cases hload)
        generalize c.locks.poll handle = polled at hgot henter ⊢
        obtain ⟨answer, locks⟩ := polled
        obtain rfl : answer = .acquired := hgot
        exact henter
      · have hsame := Lock.Session.poll_grip?_of_ne hgot
        have hheld : ¬ c.Free (Flight.lockKey ⟨handle, w, .waiting⟩) := by
          intro hfree
          refine hgot (hc.locks.poll_gets hgrip fun j g hg hholds hkey => ?_)
          rw [hc.grips, Option.map_eq_some_iff] at hg
          obtain ⟨f, hf, rfl⟩ := hg
          exact hfree j f hf (by simpa [Flight.grip] using hholds) hkey
        have hgripped : Gripped { c with locks := (c.locks.poll handle).2 } :=
          ⟨hlocks, fun j => (hsame j).trans (hc.grips j), hc.unanswered⟩
        have hidle : Moves c (.poll handle) .pending { c with locks := (c.locks.poll handle).2 } :=
          .idle (.blocked hflight rfl hheld) rfl fun _ => rfl
        generalize c.locks.poll handle = polled at hgot hgripped hidle ⊢
        obtain ⟨answer, locks⟩ := polled
        cases answer with
        | acquired => exact absurd rfl hgot
        | _ => exact ⟨hidle, hgripped⟩

/-- An answer reaches a flight that asks, and nobody else. -/
theorem answer {g : Work α → Work α} (hc : c.Gripped) (h : Nat)
    (hkey : ∀ w, (g w).lockKey? = w.lockKey?)
    (hu : u = if c.isAsking h then c.modifyFlight h fun f => { f with work := g f.work } else c) :
    u.index = c.index ∧ u.Gripped ∧
      ((∃ w, c.flight? h = some ⟨h, w, .running⟩ ∧ w.isAnswered = false ∧
        Sets c u h (some ⟨h, g w, .running⟩)) ∨
      ((∀ w, c.flight? h = some ⟨h, w, .running⟩ → w.isAnswered = true) ∧
        ∀ j, u.flight? j = c.flight? j)) := by
  by_cases hasking : c.isAsking h = true
  · obtain ⟨f, hf, hruns, hquery⟩ := isAsking_iff.1 hasking
    obtain ⟨handle, w, phase⟩ := f
    obtain rfl : phase = .running := hruns
    obtain rfl : handle = h := handle_of_flight? hf
    rw [if_pos hasking] at hu
    subst hu
    have hsets : Sets c (c.modifyFlight handle fun f => { f with work := g f.work }) handle
        (some ⟨handle, g w, .running⟩) := sets_modifyFlight hf fun _ => rfl
    have hgrip : Flight.grip ⟨handle, g w, .running⟩ = Flight.grip ⟨handle, w, .running⟩ := by
      simp [Flight.grip, Flight.lockKey, hkey]
    exact ⟨rfl, hc.sets hf rfl hsets hgrip rfl, Or.inl ⟨w, hf, hquery, hsets⟩⟩
  · rw [if_neg hasking] at hu
    subst hu
    refine ⟨rfl, hc, Or.inr ⟨fun w hf => ?_, fun _ => rfl⟩⟩
    cases hanswered : w.isAnswered with
    | true => rfl
    | false => exact absurd (isAsking_iff.2 ⟨_, hf, rfl, hanswered⟩) hasking

theorem answerLoad_moves (hc : c.Gripped) (h : Nat) (r : Except Error α) :
    Moves c (.answerLoad h r) .pending (if c.isAsking h then c.answerLoad h r else c) ∧
      (if c.isAsking h then c.answerLoad h r else c).Gripped := by
  have hanswer := hc.answer (g := Work.answerLoad r) h
    (fun w => by rcases w with ⟨key, _ | _⟩ | ⟨v, _⟩ <;> rfl) rfl
  obtain ⟨hindex, hgripped, ⟨w, hf, hquery, hsets⟩ | ⟨hdeaf, hsame⟩⟩ := hanswer
  · refine ⟨?_, hgripped⟩
    rcases w with ⟨key, _ | _⟩ | ⟨v, r'⟩
    · exact .answeredLoad hf hindex hsets
    · cases hquery
    · refine .idle (.unheard (Or.inl ⟨r, rfl⟩) ?_ (fun _ _ hstore => by cases hstore)) hindex
        (hsets.same hf)
      intro key r'' _ hload
      rw [hf] at hload
      cases hload
  · refine ⟨.idle (.unheard (Or.inl ⟨r, rfl⟩) ?_ (fun _ _ hstore => by cases hstore)) hindex hsame,
      hgripped⟩
    intro key r' _ hload
    cases hdeaf _ hload

theorem answerStore_moves (hc : c.Gripped) (h : Nat) (r : Except Error Unit) :
    Moves c (.answerStore h r) .pending (if c.isAsking h then c.answerStore h r else c) ∧
      (if c.isAsking h then c.answerStore h r else c).Gripped := by
  have hanswer := hc.answer (g := Work.answerStore r) h
    (fun w => by rcases w with ⟨key, _⟩ | ⟨v, _ | _⟩ <;> rfl) rfl
  obtain ⟨hindex, hgripped, ⟨w, hf, hquery, hsets⟩ | ⟨hdeaf, hsame⟩⟩ := hanswer
  · refine ⟨?_, hgripped⟩
    rcases w with ⟨key, r'⟩ | ⟨v, _ | _⟩
    · refine .idle (.unheard (Or.inr ⟨r, rfl⟩) (fun _ _ hload => by cases hload) ?_) hindex
        (hsets.same hf)
      intro v r'' _ hstore
      rw [hf] at hstore
      cases hstore
    · exact .answeredStore hf hindex hsets
    · cases hquery
  · refine ⟨.idle (.unheard (Or.inr ⟨r, rfl⟩) (fun _ _ hload => by cases hload) ?_) hindex hsame,
      hgripped⟩
    intro v r' _ hstore
    cases hdeaf _ hstore

theorem cancel_moves (hc : c.Gripped) (h : Nat) :
    Moves c (.cancel h) .pending (c.cancel h).2 ∧ (c.cancel h).2.Gripped := by
  unfold cancel
  cases hflight : c.flight? h with
  | none => exact ⟨.idle (.missed hflight) rfl fun _ => rfl, hc⟩
  | some f =>
    obtain ⟨handle, w, phase⟩ := f
    obtain rfl : handle = h := handle_of_flight? hflight
    have hend := hc.endFlight handle
    have hsets := sets_endFlight c handle
    cases phase with
    | waiting => exact ⟨.withdrawn hflight (fun _ _ hrunning => by cases hrunning) rfl hsets, hend⟩
    | running =>
      cases w with
      | load key r =>
        have habandon : (c.abandonLoad key.encode).Gripped := hc.congr rfl fun _ => rfl
        exact ⟨.abandoned hflight rfl (sets_endFlight (c.abandonLoad key.encode) handle),
          habandon.endFlight handle⟩
      | store v r => exact ⟨.withdrawn hflight (fun _ _ hload => by cases hload) rfl hsets, hend⟩

/-- An action does one of the things listed, and leaves the locks told by the flights. -/
theorem moves (hc : c.Gripped) (a : Action α) :
    Moves c a (c.act a).1 (c.act a).2 ∧ (c.act a).2.Gripped := by
  cases a with
  | load h key => exact hc.launch_moves (w := .load key none) h rfl
  | store h v => exact hc.launch_moves (w := .store v none) h rfl
  | answerLoad h r => exact hc.answerLoad_moves h r
  | answerStore h r => exact hc.answerStore_moves h r
  | poll h => exact hc.poll_moves h
  | cancel h => exact hc.cancel_moves h
  | invalidate key =>
    exact ⟨.invalidated rfl fun _ => rfl, hc.congr rfl fun _ => rfl⟩

theorem act (hc : c.Gripped) (a : Action α) : (c.act a).2.Gripped := (hc.moves a).2

theorem run (hc : c.Gripped) (actions : List (Action α)) : (c.run actions).Gripped := by
  induction actions generalizing c with
  | nil => exact hc
  | cons a actions ih => exact ih (hc.act a)

end Gripped

end EntityCache

end StatusStore.Cache
