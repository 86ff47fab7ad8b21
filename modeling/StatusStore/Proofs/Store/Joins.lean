/-
  StatusStore/Proofs/Store/Joins.lean
  ===================================
  **Joins in the runs of a store.**  Whatever is done with a store, its tables change
  by the one call that a write or a deletion makes of the database, and by nothing
  else.  So joins stay exact in a run just when no update leaves a join that its row
  does not name.  For threads, exact joins say that a status is in one thread at the
  most, the one that its row names.

  Main statements: `frame_perform`, `exact_afterAll_iff` and `afterAll_threaded`,
  which says after which updates a status is still in one thread.
-/
import StatusStore.Proofs.Database.ExactJoins
import StatusStore.Proofs.Store.Listings

namespace StatusStore

open Cache Database

namespace Store

variable {s : Store} {kind : JoinKind}

/-! ### Calls of the database -/

def Operation.call? : Operation → Option Call
  | .put status fresh => some (.put (status.startThread fresh).2 (status.startThread fresh).1)
  | .update status columns now => some (.update { status with updatedAt := now } columns)
  | .delete id => some (.delete id)
  | _ => none

theorem database_put (s : Store) (status : Status) (fresh : Thread) :
    (s.put status fresh).2.2.database =
      (s.database.putStatus (status.startThread fresh).2 (status.startThread fresh).1).2 :=
  (frame_announced _ .create _).2.trans (s.database_save _ _)

theorem database_update (s : Store) (status : Status) (columns : List StatusColumn)
    (now : Timestamp) : (s.update status columns now).2.2.database =
      (s.database.updateStatus { status with updatedAt := now } columns).2 :=
  (frame_announced _ .update _).2.trans (s.database_save _ _)

theorem database_delete (s : Store) (id : String) :
    (s.delete id).2.database = ((s.load (.id id)).2.database.deleteStatus id).2 := by
  unfold delete
  rw [get_barebones]
  dsimp only
  split <;> rfl

/-- The tables after an operation are those after its call. -/
theorem frame_perform (s : Store) (operation : Operation) :
    (s.perform operation).database.isClosed = s.database.isClosed ∧
      (s.perform operation).database.tables =
        (operation.call?.map fun c => (s.database.call c).2.tables).getD s.database.tables := by
  cases operation with
  | put status fresh =>
    rw [show s.perform (.put status fresh) = (s.put status fresh).2.2 from rfl, database_put]
    exact ⟨isClosed_transact _ _, rfl⟩
  | update status columns now =>
    rw [show s.perform (.update status columns now) = (s.update status columns now).2.2 from rfl,
      database_update]
    exact ⟨isClosed_transact _ _, rfl⟩
  | delete id =>
    -- The load before the deletion counts a query and leaves the tables as they are.
    obtain ⟨htables, hclosed, -⟩ := s.frame_load (.id id)
    rw [show s.perform (.delete id) = (s.delete id).2 from rfl, database_delete]
    exact ⟨(isClosed_transact _ _).trans hclosed, (transact_congr htables hclosed _).2⟩
  | read r mode =>
    obtain ⟨htables, hclosed⟩ :=
      (fetches_read (p := fun _ => True) (fun _ => trivial) (fun _ _ => trivial) s mode).frame
    exact ⟨hclosed, htables⟩
  | populate status =>
    obtain ⟨htables, hclosed⟩ :=
      (s.fetches_populate (p := fun _ => True) (fun _ => trivial) status).frame
    exact ⟨hclosed, htables⟩
  | restart => exact ⟨rfl, rfl⟩

/-- What all calls keep of the tables is kept by every operation. -/
theorem tables_perform {P : Tables → Prop}
    (hcalls : ∀ c, P s.database.tables → P (s.database.call c).2.tables) (h : P s.database.tables)
    (operation : Operation) : P (s.perform operation).database.tables := by
  rw [(s.frame_perform operation).2]
  cases operation.call? with
  | none => exact h
  | some c => exact hcalls c h

/-! ### Joins after events -/

/-- Whether an operation, if it is an update that succeeds, leaves no join that its row does not
name. -/
def Covers (kind : JoinKind) (s : Store) : Operation → Prop
  | .update status columns now =>
    (s.database.updateStatus { status with updatedAt := now } columns).1 = .ok () →
      ∀ r ∈ s.database.tables.statuses, r.value.id = status.id →
        kind.Covers { status with updatedAt := now } columns r.value
  | _ => True

theorem exact_perform_iff (intact : s.database.tables.Intact) (joined : s.database.tables.Joined)
    (h : s.database.tables.Exact kind) (operation : Operation) :
    (s.perform operation).database.tables.Exact kind ↔ s.Covers kind operation := by
  rw [(s.frame_perform operation).2]
  have hcall := exact_call_iff intact joined h
  cases operation with
  | put status fresh => exact (hcall (.put _ _)).trans ⟨fun _ => trivial, fun _ _ => trivial⟩
  | update status columns now => exact hcall (.update { status with updatedAt := now } columns)
  | delete id => exact (hcall (.delete id)).trans ⟨fun _ => trivial, fun _ _ => trivial⟩
  | _ => exact ⟨fun _ => trivial, fun _ => h⟩

theorem joined_after (intact : s.database.tables.Intact) (joined : s.database.tables.Joined)
    (event : Event) :
    (s.after event).database.tables.Intact ∧ (s.after event).database.tables.Joined := by
  cases event with
  | use operation =>
    exact ⟨tables_perform (fun c h => h.call c) intact operation,
      tables_perform (fun c h => h.call c) joined operation⟩
  | outage isClosed dropped => exact ⟨intact.of_eq rfl, joined.known, joined.nodup, joined.named⟩

theorem joined_afterAll (intact : s.database.tables.Intact) (joined : s.database.tables.Joined)
    (events : List Event) :
    (s.afterAll events).database.tables.Intact ∧ (s.afterAll events).database.tables.Joined := by
  induction events generalizing s with
  | nil => exact ⟨intact, joined⟩
  | cons event events ih =>
    obtain ⟨hintact, hjoined⟩ := joined_after intact joined event
    exact ih hintact hjoined

theorem exact_after_iff (intact : s.database.tables.Intact) (joined : s.database.tables.Joined)
    (h : s.database.tables.Exact kind) (event : Event) :
    (s.after event).database.tables.Exact kind ↔
      ∀ operation, event = .use operation → s.Covers kind operation := by
  cases event with
  | use operation =>
    rw [show s.after (.use operation) = s.perform operation from rfl,
      exact_perform_iff intact joined h operation]
    exact ⟨fun hcovers _ hsame => Event.use.inj hsame ▸ hcovers, fun hall => hall operation rfl⟩
  | outage isClosed dropped => exact ⟨fun _ _ => nofun, fun _ => h⟩

/-- Exact joins stay so all along a run just when no update in it leaves a join that its row does
not name. -/
theorem exact_afterAll_iff {events : List Event} (intact : s.database.tables.Intact)
    (joined : s.database.tables.Joined) (h : s.database.tables.Exact kind) :
    (∀ before, before <+: events → (s.afterAll before).database.tables.Exact kind) ↔
      s.Along (Covers kind) events := by
  induction events generalizing s with
  | nil =>
    refine ⟨fun _ => trivial, fun _ before hbefore => ?_⟩
    rw [List.prefix_nil.1 hbefore]
    exact h
  | cons event events ih =>
    have hone := exact_after_iff intact joined h event
    obtain ⟨hintact, hjoined⟩ := joined_after intact joined event
    constructor
    · intro hall
      have hfirst : (s.after event).database.tables.Exact kind :=
        hall [event] (List.prefix_append [event] events)
      refine ⟨hone.1 hfirst, (ih hintact hjoined hfirst).1 fun before hbefore => ?_⟩
      exact hall (event :: before) (List.cons_prefix_cons.2 ⟨rfl, hbefore⟩)
    · rintro ⟨hfirst, hrest⟩ before hbefore
      rcases List.prefix_cons_iff.1 hbefore with rfl | ⟨rest, rfl, hprefix⟩
      · exact h
      · exact (ih hintact hjoined (hone.2 hfirst)).2 hrest rest hprefix

end Store

/-! ### Threads -/

/-- Every status is in one thread at the most, which is the one that its row names. -/
structure Database.Tables.Threaded (t : Tables) : Prop where
  once : (t.threadStatuses.map (·.2)).Nodup
  stored : ∀ p ∈ t.threadStatuses, ∃ r ∈ t.statuses, r.value.id = p.2 ∧ r.value.threadId = some p.1

theorem Database.mem_joins_thread {t : Tables} {p : String × String} :
    p ∈ t.threadStatuses ↔ p.swap ∈ t.joins .thread :=
  (List.mem_map_of_injective Prod.swap_injective).symm

theorem Database.Tables.Joined.threaded_iff {t : Tables} (h : t.Joined) (intact : t.Intact) :
    t.Threaded ↔ t.Exact .thread := by
  constructor
  · intro hthreaded p hp r hr hid
    obtain ⟨q, hq, hqid, hthread⟩ := hthreaded.stored p.swap (mem_joins_thread.2 hp)
    rw [intact.eq_of_id hr hq (hid.trans hqid.symm)]
    exact Option.mem_toList.2 hthread
  · intro hexact
    have hstored : ∀ p ∈ t.threadStatuses,
        ∃ r ∈ t.statuses, r.value.id = p.2 ∧ r.value.threadId = some p.1 := by
      intro p hp
      obtain ⟨r, hr, hid, hthread⟩ := (h.mem_joins_iff hexact).1 (mem_joins_thread.1 hp)
      exact ⟨r, hr, hid, Option.mem_toList.1 hthread⟩
    have hnodup : t.threadStatuses.Nodup := List.Nodup.of_map _ (h.nodup .thread)
    refine ⟨hnodup.map_on fun p hp q hq hsame => ?_, hstored⟩
    obtain ⟨r, hr, hid, hthread⟩ := hstored p hp
    obtain ⟨r', hr', hid', hthread'⟩ := hstored q hq
    obtain rfl := intact.eq_of_id hr hr' (hid.trans (hsame.trans hid'.symm))
    exact Prod.ext (Option.some.inj (hthread.symm.trans hthread')) hsame

namespace Store

/-- All along a run every status is in one thread at the most, which is the one that its row names,
just when no update takes a row out of its thread or names another thread that it does not write. -/
theorem afterAll_threaded {start : Store} {events : List Event}
    (intact : start.database.tables.Intact) (joined : start.database.tables.Joined)
    (threaded : start.database.tables.Threaded) :
    (∀ before, before <+: events → (start.afterAll before).database.tables.Threaded) ↔
      start.Along (Covers .thread) events := by
  have hexact := (joined.threaded_iff intact).1 threaded
  rw [← exact_afterAll_iff intact joined hexact]
  refine forall_congr' fun before => forall_congr' fun _ => ?_
  obtain ⟨hintact, hjoined⟩ := joined_afterAll intact joined before
  exact hjoined.threaded_iff hintact

/-! ### A status that moves to another thread -/

def post (id : String) (parent threadId : Option String) : Status :=
  { (default : Status) with id, uri := id, inReplyToId := parent, threadId }

/-- A status starts a thread, which a reply to it joins later.  While the database is closed the
status cannot move, and then it is deleted. -/
def threading : List Event := [
  .use (.put (post "A" none none) ⟨"T", default⟩),
  .use (.put (post "B" (some "A") none) ⟨"U", default⟩),
  .use (.update (post "B" (some "A") (some "T")) [.threadId] default),
  .use (.update (post "A" none (some "T")) [.content] default),
  .outage true [],
  .use (.update (post "A" none (some "U")) [.threadId] default),
  .outage false [],
  .use (.delete "A")]

theorem afterAll_threaded_reply :
    beginning.database.tables.Intact ∧ beginning.database.tables.Joined ∧
      beginning.database.tables.Threaded ∧
      (∀ before, before <+: threading → (beginning.afterAll before).database.tables.Threaded) ∧
      (beginning.afterAll (threading.take 7)).database.tables.threadStatuses =
        [("T", "A"), ("T", "B")] := by
  have intact : beginning.database.tables.Intact := ⟨by simp [beginning], by simp [beginning]⟩
  have joined : beginning.database.tables.Joined := Tables.joined_empty
  have threaded : beginning.database.tables.Threaded := by
    refine ⟨List.nodup_nil, fun p hp => ?_⟩
    cases hp
  have hcovers : beginning.Along (Covers .thread) threading := by
    refine ⟨?_, ?_, ?_, ?_, ?_, ?_, ?_, ?_, trivial⟩ <;> rintro _ ⟨⟩
    · trivial
    · trivial
    · intro _
      decide +kernel
    · intro _
      decide +kernel
    · rintro ⟨⟩
    · trivial
  exact ⟨intact, joined, threaded, (afterAll_threaded intact joined threaded).2 hcovers,
    by decide +kernel⟩

/-- A status that moves to another thread is left in the one where it was. -/
theorem update_joins_second_thread :
    let begun := beginning.afterAll [.use (.put (post "A" none none) ⟨"T", default⟩)]
    let moved := begun.update (post "A" none (some "U")) [.threadId] default
    begun.database.tables.threadStatuses = [("T", "A")] ∧ moved.1.toOption = some () ∧
      moved.2.2.database.tables.threadStatuses = [("T", "A"), ("U", "A")] ∧
      moved.2.2.database.tables.statuses.map (·.value.threadId) = [some "U"] ∧
      ¬ moved.2.2.database.tables.Threaded := by
  intro begun moved
  have hjoins : moved.2.2.database.tables.threadStatuses = [("T", "A"), ("U", "A")] := by
    decide +kernel
  refine ⟨by decide +kernel, by decide +kernel, hjoins, by decide +kernel, fun hthreaded => ?_⟩
  have honce := hthreaded.once
  rw [hjoins] at honce
  exact absurd honce (by decide)

end Store

end StatusStore
