/-
  StatusStore/Proofs/Store/Walks.lean
  ===================================
  **Walks along replies.**  A `Walk` goes from status to status as the tables have
  them, without a bound on its steps, and has one answer at most (`Walk.unique`).
  The way up from a status is one walk, and that through all below it another.

  The store's own walks have a bound.  One that comes to its end before has the answer
  of the rows (`climb_answers` and `descend_answers`), and where no cycle is met, it
  comes to its end.

  Main statements: `climb_eq_ancestors` and `descend_eq_descendants`, and of what is
  read barebones `Coherent.ancestors` and `Coherent.descendants`.
-/
import StatusStore.Proofs.Database.Descent
import StatusStore.Proofs.Store.Agreement
import StatusStore.Proofs.Store.Reads

namespace StatusStore

open Cache

namespace Database

variable {t : Tables}

/-- The walk through the ids `pending`, in which those that `next` gives for a status come right
after it, and its answer: the statuses that it comes by, all of which must be there. -/
inductive Walk (t : Tables) (next : Status → List String) :
    List String → Except Error (List Status) → Prop
  | done : Walk t next [] (.ok [])
  | missing {id : String} {pending : List String} {e : Error} :
    t.status (.id id) = .error e → Walk t next (id :: pending) (.error e)
  | visit {id : String} {pending : List String} {s : Status} {rest : Except Error (List Status)} :
    t.status (.id id) = .ok s → Walk t next (next s ++ pending) rest →
      Walk t next (id :: pending) (rest.map (s :: ·))

theorem Walk.unique {next : Status → List String} {pending : List String}
    {a b : Except Error (List Status)} (ha : Walk t next pending a) (hb : Walk t next pending b) :
    a = b := by
  induction ha generalizing b with
  | done =>
    cases hb
    rfl
  | missing hnone =>
    cases hb with
    | missing hnone' =>
      rw [hnone] at hnone'
      cases hnone'
      rfl
    | visit hfound =>
      rw [hnone] at hfound
      cases hfound
  | visit hfound _ ih =>
    cases hb with
    | missing hnone =>
      rw [hfound] at hnone
      cases hnone
    | visit hfound' hrest =>
      rw [hfound] at hfound'
      cases hfound'
      rw [ih hrest]

/-- A walk that fails does so at an id that it comes by. -/
theorem Walk.failed {next : Status → List String} {pending : List String} {e : Error}
    {p : String → Prop} (h : Walk t next pending (.error e))
    (hnext : ∀ {id w}, p id → t.status (.id id) = .ok w → ∀ x ∈ next w, p x)
    (hpending : ∀ x ∈ pending, p x) : ∃ x, p x ∧ t.status (.id x) = .error e := by
  generalize hanswer : Except.error e = answer at h
  induction h with
  | done => cases hanswer
  | @missing id pending e' hnone =>
    obtain rfl := Except.error.inj hanswer
    exact ⟨id, hpending id List.mem_cons_self, hnone⟩
  | @visit id pending w rest hfound _ ih =>
    obtain ⟨hid, hrest⟩ := List.forall_mem_cons.1 hpending
    cases rest with
    | ok found => cases hanswer
    | error e' =>
      cases hanswer
      refine ih (fun x hx => ?_) rfl
      rcases List.mem_append.1 hx with hx | hx
      · exact hnext hid hfound x hx
      · exact hrest x hx

def Tables.WayUp (t : Tables) (parent : Option String) : Except Error (List Status) → Prop :=
  Walk t (·.inReplyToId.toList) parent.toList

def Tables.WayDown (t : Tables) (id : String) : Except Error (List Status) → Prop :=
  Walk t (t.listed .replies ·.id) (t.listed .replies id)

/-- A way up that is gone to its end is the chain of parents. -/
theorem Tables.WayUp.chain {parent : Option String} {found : List Status}
    (h : t.WayUp parent (.ok found)) : t.Chain parent (found.map (·.toRow)) := by
  unfold WayUp at h
  generalize hpending : parent.toList = pending at h
  generalize hanswer : Except.ok found = answer at h
  induction h generalizing parent found with
  | done =>
    obtain rfl : parent = none := by simpa using hpending
    obtain rfl := Except.ok.inj hanswer
    exact .top
  | missing _ => cases hanswer
  | @visit id pending w rest hfound _ ih =>
    obtain ⟨rfl, rfl⟩ : parent = some id ∧ pending = [] := by
      cases parent <;> simp_all
    obtain ⟨r, hrow, -, rfl⟩ := row_of_status hfound
    obtain rfl : r.value.id = id := id_of_status hfound
    cases rest with
    | error e => cases hanswer
    | ok rest =>
      obtain rfl := Except.ok.inj hanswer
      rw [List.map_cons, Status.toRow_ofRow]
      exact .parent (mem_of_statusRow? hrow) (ih (List.append_nil _).symm rfl)

/-- A walk down that is gone to its end comes by what is pending, each with the tree below it. -/
theorem Walk.ids (h : t.Apart) {pending : List String} {found : List Status}
    (hwalk : Walk t (t.listed .replies ·.id) pending (.ok found))
    (hcycle : ∀ a ∈ pending, ¬ t.OnCycle a) :
    found.map (·.id) = pending.flatMap fun a => a :: t.subtree a := by
  generalize hanswer : Except.ok found = answer at hwalk
  induction hwalk generalizing found with
  | done =>
    obtain rfl := Except.ok.inj hanswer
    rfl
  | missing _ => cases hanswer
  | @visit id pending w rest hfound _ ih =>
    obtain rfl : w.id = id := Tables.id_of_status hfound
    obtain ⟨hid, hpending⟩ := List.forall_mem_cons.1 hcycle
    cases rest with
    | error e => cases hanswer
    | ok rest =>
      obtain rfl := Except.ok.inj hanswer
      have hrest := ih (fun a ha => (List.mem_append.1 ha).elim (h.not_onCycle_of_reply hid)
        (hpending a)) rfl
      rw [List.map_cons, hrest, List.flatMap_append, ← Tables.subtree_eq h hid]
      rfl

end Database

namespace Store

open Database

variable {s u : Store} {t : Tables} {mode : Retrieval} {fuel : Nat} {id : String}
  {parent : Option String} {pending : List String}

def endless : Except Error (List Status) := .error (.internal .cyclicReplies)

theorem map_ne_endless {answer : Except Error (List Status)} {x : Status} :
    answer.map (x :: ·) ≠ endless ↔ answer ≠ endless := by
  cases answer with
  | ok found => exact iff_of_true nofun nofun
  | error e => exact Iff.rfl

/-- The answer is what `expected` says of the rows, and its statuses are what reads in `s` yield. -/
inductive Answers (s : Store) (mode : Retrieval) :
    Except Error (List Status) → Except Error (List Status) → Prop
  | found {xs : List Status} (all : ∀ x ∈ xs, s.Yields mode x) :
    Answers s mode (.ok xs) (.ok (xs.map Status.barebones))
  | failed {e : Error} : Answers s mode (.error e) (.error e)

namespace Answers

variable {answer expected : Except Error (List Status)}

theorem cons {x : Status} (hx : s.Yields mode x) (h : s.Answers mode answer expected) :
    s.Answers mode (answer.map (x :: ·)) (expected.map (x.barebones :: ·)) := by
  cases h with
  | found hall => exact .found (List.forall_mem_cons.2 ⟨hx, hall⟩)
  | failed => exact .failed

theorem of_fetches (hfetches : Fetches Lookup.IsId s u) (h : u.Answers mode answer expected) :
    s.Answers mode answer expected := by
  cases h with
  | found hall => exact .found fun x hx => (hall x hx).of_fetches hfetches
  | failed => exact .failed

/-- What is read barebones is what the tables answer. -/
theorem eq (h : s.Answers .barebones answer expected) : answer = expected := by
  cases h with
  | failed => rfl
  | @found xs hall =>
    rw [List.map_congr_left fun x hx => ((hall x hx).bare rfl).symm, List.map_id']

end Answers

/-! ### Up -/

theorem climb_of_error {e : Error} (h : acceptIncomplete (s.get (.id id) mode).1 = .error e) :
    climb mode (fuel + 1) s (some id) = (.error e, (s.get (.id id) mode).2) := by
  simp only [climb, h]

theorem climb_of_ok {x : Status} (h : acceptIncomplete (s.get (.id id) mode).1 = .ok x) :
    climb mode (fuel + 1) s (some id) =
      ((climb mode fuel (s.get (.id id) mode).2 x.inReplyToId).1.map (x :: ·),
        (climb mode fuel (s.get (.id id) mode).2 x.inReplyToId).2) := by
  simp only [climb, h]

/-- A longer bound changes nothing for a walk that has come to its end. -/
theorem climb_mono {bound : Nat} (hends : (climb mode fuel s parent).1 ≠ endless)
    (hle : fuel ≤ bound) : climb mode bound s parent = climb mode fuel s parent := by
  induction fuel generalizing bound s parent with
  | zero =>
    cases parent with
    | none => cases bound <;> rfl
    | some id => exact absurd rfl hends
  | succ fuel ih =>
    obtain ⟨bound, rfl⟩ : ∃ k, bound = k + 1 := ⟨bound - 1, by omega⟩
    cases parent with
    | none => rfl
    | some id =>
      cases hget : acceptIncomplete (s.get (.id id) mode).1 with
      | error e => rw [climb_of_error hget, climb_of_error hget]
      | ok x =>
        rw [climb_of_ok hget] at hends
        rw [climb_of_ok hget, climb_of_ok hget,
          ih (map_ne_endless.1 hends) (Nat.le_of_succ_le_succ hle)]

theorem AgreesWith.climb_answers (h : s.AgreesWith t)
    (hends : (climb mode fuel s parent).1 ≠ endless) :
    ∃ answer, t.WayUp parent answer ∧ s.Answers mode (climb mode fuel s parent).1 answer := by
  induction fuel generalizing s parent with
  | zero =>
    cases parent with
    | none => exact ⟨_, .done, .found nofun⟩
    | some id => exact absurd rfl hends
  | succ fuel ih =>
    cases parent with
    | none => exact ⟨_, .done, .found nofun⟩
    | some id =>
      rcases h.get_cases id mode with ⟨e, hstatus, hget⟩ | ⟨x, -, hstatus, hget, hx⟩
      · rw [climb_of_error hget]
        exact ⟨_, .missing hstatus, .failed⟩
      · have hfetches := s.fetches_getId id mode
        rw [climb_of_ok hget] at hends ⊢
        obtain ⟨answer, hway, hanswers⟩ := ih (h.fetched hfetches) (map_ne_endless.1 hends)
        refine ⟨_, .visit hstatus ?_, (hanswers.of_fetches hfetches).cons hx⟩
        rwa [List.append_nil]

/-- A walk up that meets no cycle comes to its end if its bound exceeds the number of statuses
above. -/
theorem AgreesWith.climb_ends (h : s.AgreesWith t)
    (hcycle : ∀ x, t.OnWayUp parent x → ¬ t.OnCycle x) (hfuel : ∀ id ∈ parent, t.above id < fuel) :
    (climb mode fuel s parent).1 ≠ endless := by
  induction fuel generalizing s parent with
  | zero =>
    cases parent with
    | none => exact nofun
    | some id => exact absurd (hfuel id rfl) (Nat.not_lt_zero _)
  | succ fuel ih =>
    cases parent with
    | none => exact nofun
    | some id =>
      rcases h.get_cases id mode with ⟨e, hstatus, hget⟩ | ⟨x, rfl, -, hget, hx⟩
      · rw [climb_of_error hget]
        exact Tables.status_ne_internal hstatus
      · obtain ⟨r, hr, hrow⟩ := hx.stored
        rw [h.tables] at hr
        have hreply : ∀ parent ∈ x.inReplyToId, t.ReplyTo x.id parent := fun parent hp =>
          ⟨r, hr, by rw [hrow]; rfl, by rw [hrow]; exact hp⟩
        rw [climb_of_ok hget]
        refine map_ne_endless.2 (ih (h.fetched (s.fetches_getId x.id mode)) ?_ ?_)
        · rintro y ⟨parent, hp, hy⟩
          exact hcycle y ⟨x.id, rfl, Tables.LeadsTo.head (hreply parent hp) hy⟩
        · -- A status that is on no cycle is not above its parent, which so has fewer above it.
          intro parent hp
          have hself := hcycle x.id ⟨x.id, rfl, Tables.LeadsTo.refl t _⟩
          have hless := Tables.above_parent (hreply parent hp) hself
          have hbound := hfuel _ rfl
          omega

/-- So it finds the same with every such bound. -/
theorem AgreesWith.climb_eq_ancestors {status : Status} (h : s.AgreesWith t) (mode : Retrieval)
    (hcycle : ∀ x, t.OnWayUp status.inReplyToId x → ¬ t.OnCycle x)
    (hfuel : t.statuses.length < fuel) :
    (s.ancestors status mode).1 ≠ endless ∧
      climb mode fuel s status.inReplyToId = s.ancestors status mode := by
  have hends : ∀ fuel, t.statuses.length < fuel →
      (climb mode fuel s status.inReplyToId).1 ≠ endless := by
    intro fuel hfuel
    refine h.climb_ends hcycle fun id _ => ?_
    have habove := t.rowsWith_le_length (t.LeadsTo id)
    simp only [Tables.above]
    omega
  have hreach : t.statuses.length < s.reach + 1 := by
    rw [reach, h.tables]
    omega
  refine ⟨hends _ hreach, ?_⟩
  rcases Nat.le_total fuel (s.reach + 1) with hle | hle
  · exact (climb_mono (hends fuel hfuel) hle).symm
  · exact climb_mono (hends _ hreach) hle

/-! ### Down -/

theorem descend_of_error {e : Error} (h : acceptIncomplete (s.get (.id id) mode).1 = .error e) :
    descend mode (fuel + 1) s (id :: pending) = (.error e, (s.get (.id id) mode).2) := by
  simp only [descend, h]

theorem descend_of_unlisted {x : Status} {e : Error}
    (h : acceptIncomplete (s.get (.id id) mode).1 = .ok x)
    (hlist : ((s.get (.id id) mode).2.loadList .replies x.id).1 = .error e) :
    descend mode (fuel + 1) s (id :: pending) =
      (.error e, ((s.get (.id id) mode).2.loadList .replies x.id).2) := by
  simp only [descend, h]
  generalize (s.get (.id id) mode).2.loadList .replies x.id = loaded at hlist ⊢
  obtain ⟨_, u⟩ := loaded
  cases hlist
  rfl

theorem descend_of_ok {x : Status} {ids : List String}
    (h : acceptIncomplete (s.get (.id id) mode).1 = .ok x)
    (hlist : ((s.get (.id id) mode).2.loadList .replies x.id).1 = .ok ids) :
    descend mode (fuel + 1) s (id :: pending) =
      ((descend mode fuel ((s.get (.id id) mode).2.loadList .replies x.id).2 (ids ++ pending)).1.map
          (x :: ·),
        (descend mode fuel ((s.get (.id id) mode).2.loadList .replies x.id).2
          (ids ++ pending)).2) := by
  simp only [descend, h]
  generalize (s.get (.id id) mode).2.loadList .replies x.id = loaded at hlist ⊢
  obtain ⟨_, u⟩ := loaded
  cases hlist
  rfl

theorem descend_mono {bound : Nat} (hends : (descend mode fuel s pending).1 ≠ endless)
    (hle : fuel ≤ bound) : descend mode bound s pending = descend mode fuel s pending := by
  induction fuel generalizing bound s pending with
  | zero =>
    cases pending with
    | nil => cases bound <;> rfl
    | cons id pending => exact absurd rfl hends
  | succ fuel ih =>
    obtain ⟨bound, rfl⟩ : ∃ k, bound = k + 1 := ⟨bound - 1, by omega⟩
    cases pending with
    | nil => rfl
    | cons id pending =>
      cases hget : acceptIncomplete (s.get (.id id) mode).1 with
      | error e => rw [descend_of_error hget, descend_of_error hget]
      | ok x =>
        cases hlist : ((s.get (.id id) mode).2.loadList .replies x.id).1 with
        | error e => rw [descend_of_unlisted hget hlist, descend_of_unlisted hget hlist]
        | ok ids =>
          rw [descend_of_ok hget hlist] at hends
          rw [descend_of_ok hget hlist, descend_of_ok hget hlist,
            ih (map_ne_endless.1 hends) (Nat.le_of_succ_le_succ hle)]

/-- The status that comes next is read and its replies come before what is pending, or it has no
answer. -/
theorem AgreesWith.descend_cases (h : s.AgreesWith t) (mode : Retrieval) (fuel : Nat) (id : String)
    (pending : List String) :
    (∃ e, t.status (.id id) = .error e ∧ (descend mode (fuel + 1) s (id :: pending)).1 = .error e) ∨
    (∃ x u, x.id = id ∧ t.status (.id id) = .ok x.barebones ∧ s.Yields mode x ∧
      Fetches Lookup.IsId s u ∧ (descend mode (fuel + 1) s (id :: pending)).1 =
        (descend mode fuel u (t.listed .replies id ++ pending)).1.map (x :: ·)) := by
  rcases h.get_cases id mode with ⟨e, hstatus, hget⟩ | ⟨x, rfl, hstatus, hget, hx⟩
  · exact Or.inl ⟨e, hstatus, by rw [descend_of_error hget]⟩
  · have hfetches := s.fetches_getId x.id mode
    have hlist := (h.fetched hfetches).loadList_eq x.id
    refine Or.inr ⟨x, _, rfl, hstatus, hx, hfetches.loadList .replies x.id, ?_⟩
    rw [descend_of_ok hget hlist]

theorem AgreesWith.descend_answers (h : s.AgreesWith t)
    (hends : (descend mode fuel s pending).1 ≠ endless) :
    ∃ answer, Walk t (t.listed .replies ·.id) pending answer ∧
      s.Answers mode (descend mode fuel s pending).1 answer := by
  induction fuel generalizing s pending with
  | zero =>
    cases pending with
    | nil => exact ⟨_, .done, .found nofun⟩
    | cons id pending => exact absurd rfl hends
  | succ fuel ih =>
    cases pending with
    | nil => exact ⟨_, .done, .found nofun⟩
    | cons id pending =>
      rcases h.descend_cases mode fuel id pending with
        ⟨e, hstatus, hstep⟩ | ⟨x, u, rfl, hstatus, hx, hfetches, hstep⟩
      · rw [hstep]
        exact ⟨_, .missing hstatus, .failed⟩
      · rw [hstep] at hends ⊢
        obtain ⟨answer, hway, hanswers⟩ := ih (h.fetched hfetches) (map_ne_endless.1 hends)
        exact ⟨_, .visit hstatus hway, (hanswers.of_fetches hfetches).cons hx⟩

/-- A walk down from where no cycle is met comes to its end if its bound exceeds the number of
statuses below. -/
theorem AgreesWith.descend_ends (h : s.AgreesWith t) (hfront : t.Front pending)
    (hfuel : t.below pending < fuel) : (descend mode fuel s pending).1 ≠ endless := by
  induction fuel generalizing s pending with
  | zero => exact absurd hfuel (Nat.not_lt_zero _)
  | succ fuel ih =>
    cases pending with
    | nil => exact nofun
    | cons id pending =>
      rcases h.descend_cases mode fuel id pending with
        ⟨e, hstatus, hstep⟩ | ⟨x, u, rfl, -, hx, hfetches, hstep⟩
      · rw [hstep]
        exact Tables.status_ne_internal hstatus
      · obtain ⟨r, hr, hrow⟩ := hx.stored
        have hid : r.value.id = x.id := congrArg (·.id) hrow
        -- The status is not below its replies nor below what else is pending.
        have hless := Tables.below_step (h.tables ▸ hr) (hid ▸ hfront)
        rw [hid] at hless
        rw [hstep]
        exact map_ne_endless.2 (ih (h.fetched hfetches) (h.apart.front_step hfront) (by omega))

theorem AgreesWith.descend_eq_descendants (h : s.AgreesWith t) (mode : Retrieval)
    (hcycle : ¬ t.OnCycle id) (hfuel : t.statuses.length < fuel) :
    (s.descendants id mode).1 ≠ endless ∧
      descend mode fuel (s.loadList .replies id).2 (t.listed .replies id) =
        s.descendants id mode := by
  have hu := h.loadList .replies id
  have hends : ∀ fuel, t.statuses.length < fuel →
      (descend mode fuel (s.loadList .replies id).2 (t.listed .replies id)).1 ≠ endless := by
    intro fuel hfuel
    exact hu.descend_ends (h.apart.front_replies hcycle)
      (Nat.lt_of_le_of_lt (t.rowsWith_le_length _) hfuel)
  have hreach : t.statuses.length < 2 ^ (s.loadList .replies id).2.reach :=
    calc t.statuses.length
        ≤ (s.loadList .replies id).2.reach := by rw [reach, hu.tables]; omega
      _ < 2 ^ (s.loadList .replies id).2.reach := Nat.lt_two_pow_self
  have hdescendants : s.descendants id mode =
      descend mode (2 ^ (s.loadList .replies id).2.reach) (s.loadList .replies id).2
        (t.listed .replies id) := by
    have hlist := h.loadList_eq id
    unfold descendants
    generalize s.loadList .replies id = loaded at hlist ⊢
    obtain ⟨_, u⟩ := loaded
    cases hlist
    rfl
  rw [hdescendants]
  refine ⟨hends _ hreach, ?_⟩
  rcases Nat.le_total fuel (2 ^ (s.loadList .replies id).2.reach) with hle | hle
  · exact (descend_mono (hends fuel hfuel) hle).symm
  · exact descend_mono (hends _ hreach) hle

/-! ### Coherent stores -/

theorem Coherent.agreesWith (h : s.Coherent) : s.AgreesWith s.database.tables where
  tables := rfl
  readable := ⟨h.healthy.isOpen, h.healthy.require _⟩
  apart := h.healthy.apart
  ordered := h.tidy.ordered
  faithful := h.faithful trivial
  listed {target l} hl := by
    obtain ⟨hkey, hids⟩ := h.listed hl
    rw [hids, Key.encode_ofTarget_inj hkey]

/-- A status whose way up meets no cycle has the ancestors that the rows say. -/
theorem Coherent.ancestors {status : Status} (h : s.Coherent)
    (hcycle : ∀ id ∈ status.inReplyToId, ∀ a, s.database.tables.LeadsTo id a →
      ¬ s.database.tables.OnCycle a) :
    s.database.tables.WayUp status.inReplyToId (s.ancestors status .barebones).1 := by
  have hends := h.agreesWith.climb_eq_ancestors .barebones
    (fun x ⟨id, hid, hx⟩ => hcycle id hid x hx) (Nat.lt_succ_self _)
  obtain ⟨answer, hway, hanswers⟩ := h.agreesWith.climb_answers hends.1
  exact hanswers.eq ▸ hway

/-- A status that is on no cycle has the descendants that the rows say. -/
theorem Coherent.descendants {id : String} (h : s.Coherent)
    (hcycle : ¬ s.database.tables.OnCycle id) :
    s.database.tables.WayDown id (s.descendants id .barebones).1 := by
  obtain ⟨hends, heq⟩ := h.agreesWith.descend_eq_descendants .barebones hcycle
    (Nat.lt_succ_self _)
  rw [← heq] at hends ⊢
  obtain ⟨answer, hway, hanswers⟩ := (h.agreesWith.loadList .replies id).descend_answers hends
  exact hanswers.eq ▸ hway

end Store

end StatusStore
