/-
  StatusStore/Proofs/Store/Mirror.lean
  ====================================
  **What is received mirrors what is committed.**  A store is used, and its database
  fails and recovers, while a receiver takes the events from its queue and may at
  some time close it or go.  What a turn of the store adds to the queue is what it
  commits, if there is room.  So the events come out in the order of the commits,
  each once, and those that are missing were committed while the queue was full or
  closed, or were left behind by a receiver that went.

  Main statement: `course_mirrors`.
-/
import StatusStore.Proofs.Cache.Entries
import StatusStore.Proofs.Store.Told
import StatusStore.Store.Metrics

namespace StatusStore

namespace Store

open Cache Database

variable {s : Store}

theorem ofDatabase_queue {config : Config} {db : Database} (h : ofDatabase config db = .ok s) :
    ∃ hn, s.queue = { capacity := config.capacity.toNat, capacity_pos := hn } := by
  apply Queue.ofCapacity_ok
  unfold ofDatabase at h
  cases hqueue : Queue.ofCapacity config.capacity.toNat with
  | error fault =>
    rw [hqueue] at h
    cases h
  | ok queue =>
    rw [hqueue] at h
    cases h
    rfl

/-! ### The counter of events -/

/-- How often an attempt with this action ended like this, as a collector reads it; without a sample
it never did. -/
def eventsTotal (s : Store) (a : StatusAction) (o : Outcome) : Nat :=
  (((s.samples "status_events_total").find? (·.labels = [a.name, o.name])).map Sample.value).getD 0

theorem eventsTotal_eq (s : Store) (a : StatusAction) (o : Outcome) :
    s.eventsTotal a o = s.queue.timesOf a o := by
  have hsamples : ∀ x, x ∈ s.samples "status_events_total" ↔
      ∃ b ∈ s.queue.tallies.pairs, ⟨[b.1.1.name, b.1.2.name], b.2⟩ = x := by
    intro x
    have hfamily : s.samples "status_events_total" =
        sorted (s.queue.tallies.pairs.map fun b => ⟨[b.1.1.name, b.1.2.name], b.2⟩) := rfl
    rw [hfamily, sorted, List.mem_mergeSort, List.mem_map]
  unfold eventsTotal Queue.timesOf
  cases hfound : (s.samples "status_events_total").find? (·.labels = [a.name, o.name]) with
  | some x =>
    obtain ⟨⟨⟨b, p⟩, n⟩, hmem, rfl⟩ := (hsamples x).1 (List.mem_of_find?_eq_some hfound)
    have hlabels := List.find?_some hfound
    simp only [decide_eq_true_eq, List.cons.injEq, and_true] at hlabels
    obtain rfl := StatusAction.eq_of_name hlabels.1
    obtain rfl := Outcome.eq_of_name hlabels.2
    rw [KeyMap.get?_of_mem_pairs hmem]
    rfl
  | none =>
    cases htallies : s.queue.tallies.get? (a, o) with
    | none => rfl
    | some n =>
      have hmem : ((a, o), n) ∈ s.queue.tallies.pairs := KeyMap.mem_pairs_of_get? htallies
      have hsample := List.find?_eq_none.1 hfound _ ((hsamples _).2 ⟨_, hmem, rfl⟩)
      exact absurd (decide_eq_true rfl) hsample

/-! ### Turns -/

/-- What the store and the receiver of its events do in turn. -/
inductive Turn
  /-- The store is used, or its database fails or recovers, but it is not restarted. -/
  | happens (event : Event) (stays : event ≠ .use .restart)
  /-- The receiver takes the oldest event, if there is one. -/
  | receive
  /-- The receiver lets no more events in, but goes on to take those that are queued. -/
  | close
  /-- The receiver goes, and what it has not taken is lost. -/
  | leave

def Turn.ends : Turn → Bool
  | happens _ _ | receive => false
  | close | leave => true

def turn (s : Store) : Turn → Store
  | .happens event _ => s.after event
  | .receive => { s with queue := s.queue.receive.2 }
  | .close => { s with queue := { s.queue with isClosed := true } }
  | .leave => { s with queue := s.queue.close }

def course (s : Store) (turns : List Turn) : Store := turns.foldl turn s

def tells? (s : Store) : Turn → Option StatusEvent
  | .happens event _ => s.told? event
  | _ => none

def takes? (s : Store) : Turn → Option StatusEvent
  | .receive => s.queue.receive.1
  | _ => none

/-- The events of all that is committed in turns, in order, each with what becomes of it: it is
queued if the queue has room just then. -/
def commits (s : Store) : List Turn → List (StatusEvent × Outcome)
  | [] => []
  | t :: rest => ((s.tells? t).map (·, s.queue.fate)).toList ++ (s.turn t).commits rest

/-- The events among them of which this becomes. -/
def committed (s : Store) (turns : List Turn) (o : Outcome) : List StatusEvent :=
  ((s.commits turns).filter (·.2 = o)).map (·.1)

def received (s : Store) : List Turn → List StatusEvent
  | [] => []
  | t :: rest => (s.takes? t).toList ++ (s.turn t).received rest

/-- What is in the queue when the receiver goes, or at the end if it stays. -/
def untaken (s : Store) : List Turn → List StatusEvent
  | [] => s.queue.pending
  | .leave :: _ => s.queue.pending
  | t :: rest => (s.turn t).untaken rest

/-! ### What a turn does to the queue -/

variable {t : Turn} {turns : List Turn}

theorem kept_turn (h : s.Tidy ∧ s.Rooted) (t : Turn) : (s.turn t).Tidy ∧ (s.turn t).Rooted := by
  cases t with
  | happens event _ =>
    have hchanges : Changes anyTerms s (s.after event) :=
      h.1.changes_afterAll (s.along_anyTerms [event])
    exact ⟨hchanges.tidy h.1, hchanges.keeps (fun hs _ change h => h.of_change hs change) h.2⟩
  | _ => exact ⟨h.1.congr rfl rfl fun _ => rfl, h.2.there, h.2.named⟩

theorem kept_course (h : s.Tidy ∧ s.Rooted) (turns : List Turn) :
    (s.course turns).Tidy ∧ (s.course turns).Rooted := by
  induction turns generalizing s with
  | nil => exact h
  | cons t turns ih => exact ih (kept_turn h t)

theorem frame_turn (h : s.Tidy ∧ s.Rooted) (t : Turn) :
    (s.turn t).queue.capacity = s.queue.capacity ∧
      (s.turn t).queue.isClosed = (s.queue.isClosed || t.ends) := by
  cases t with
  | happens event hstays =>
    obtain ⟨hcapacity, hclosed⟩ := s.queue.frame_tell (s.told? event)
    rw [turn, h.2.queue_after h.1 hstays, Turn.ends, Bool.or_false]
    exact ⟨hcapacity, hclosed⟩
  | receive =>
    obtain ⟨hcapacity, hclosed, -⟩ := s.queue.frame_receive
    rw [turn, Turn.ends, Bool.or_false]
    exact ⟨hcapacity, hclosed⟩
  | close => exact ⟨rfl, (Bool.or_true _).symm⟩
  | leave => exact ⟨rfl, (Bool.or_true _).symm⟩

theorem frame_course (h : s.Tidy ∧ s.Rooted) (turns : List Turn) :
    (s.course turns).queue.capacity = s.queue.capacity ∧
      (s.course turns).queue.isClosed = (s.queue.isClosed || turns.any Turn.ends) := by
  induction turns generalizing s with
  | nil => exact ⟨rfl, (Bool.or_false _).symm⟩
  | cons t turns ih =>
    obtain ⟨hcapacity, hclosed⟩ := frame_turn h t
    obtain ⟨hcapacities, hcloseds⟩ := ih (kept_turn h t)
    rw [List.any_cons, ← Bool.or_assoc, ← hclosed]
    exact ⟨hcapacities.trans hcapacity, hcloseds⟩

/-- What is taken, and then what is in the queue, is what was in it, and then what came in. -/
theorem pending_turn (h : s.Tidy ∧ s.Rooted) (hstays : t ≠ .leave) :
    (s.takes? t).toList ++ (s.turn t).queue.pending =
      s.queue.pending ++ if s.queue.fate = .queued then (s.tells? t).toList else [] := by
  cases t with
  | happens event hevent =>
    rw [turn, h.2.queue_after h.1 hevent, tells?]
    cases s.told? event with
    | none => simp [takes?, Queue.tell]
    | some e => simp [takes?, Queue.pending_tell]
  | receive => simp [takes?, tells?, turn, Queue.receive_pending]
  | close => simp [takes?, tells?, turn]
  | leave => exact absurd rfl hstays

theorem timesOf_turn (h : s.Tidy ∧ s.Rooted) (t : Turn) (a : StatusAction) (o : Outcome) :
    (s.turn t).queue.timesOf a o = s.queue.timesOf a o +
      (if s.queue.fate = o then (s.tells? t).toList else []).countP (·.action = a) := by
  cases t with
  | happens event hevent =>
    rw [turn, h.2.queue_after h.1 hevent, tells?]
    cases s.told? event with
    | none => simp [Queue.tell]
    | some e =>
      rw [Queue.timesOf_tell]
      by_cases hfate : s.queue.fate = o <;> simp [hfate, List.countP_singleton]
  | receive =>
    have htallies := s.queue.frame_receive.2.2
    simp [turn, tells?, Queue.timesOf, htallies]
  | _ => simp [turn, tells?, Queue.close, Queue.timesOf]

/-! ### What turns do -/

theorem committed_cons (s : Store) (t : Turn) (turns : List Turn) (o : Outcome) :
    s.committed (t :: turns) o =
      (if s.queue.fate = o then (s.tells? t).toList else []) ++ (s.turn t).committed turns o := by
  unfold committed
  rw [commits]
  cases s.tells? t with
  | none => simp
  | some e => by_cases hfate : s.queue.fate = o <;> simp [hfate]

/-- Nothing comes into a closed queue. -/
theorem committed_of_isClosed (h : s.Tidy ∧ s.Rooted) (hclosed : s.queue.isClosed = true)
    (turns : List Turn) : s.committed turns .queued = [] := by
  induction turns generalizing s with
  | nil => rfl
  | cons t turns ih =>
    have hstill : (s.turn t).queue.isClosed = true := by
      rw [(frame_turn h t).2, hclosed, Bool.true_or]
    rw [committed_cons, Queue.fate_of_isClosed hclosed, ih (kept_turn h t) hstill]
    rfl

theorem untaken_cons (hstays : t ≠ .leave) : s.untaken (t :: turns) = (s.turn t).untaken turns := by
  cases t with
  | leave => exact absurd rfl hstays
  | _ => rfl

/-- What is taken, and then what is left, is what was in the queue, and then what came in. -/
theorem received_untaken (h : s.Tidy ∧ s.Rooted) (turns : List Turn) :
    s.received turns ++ s.untaken turns = s.queue.pending ++ s.committed turns .queued := by
  induction turns generalizing s with
  | nil => exact (List.append_nil _).symm
  | cons t turns ih =>
    have hrest := ih (kept_turn h t)
    rw [received, List.append_assoc]
    rcases Classical.em (t = .leave) with rfl | hstays
    · -- The queue is empty from here on, so that nothing more is taken.
      have hnone := committed_of_isClosed (kept_turn h .leave) rfl turns
      have hempty : (s.turn .leave).received turns ++ (s.turn .leave).untaken turns = [] := by
        rw [hrest, hnone]
        rfl
      rw [committed_cons, hnone, (List.append_eq_nil_iff.1 hempty).1]
      simp [takes?, tells?, untaken]
    · calc (s.takes? t).toList ++ ((s.turn t).received turns ++ s.untaken (t :: turns))
          = (s.takes? t).toList ++
              ((s.turn t).queue.pending ++ (s.turn t).committed turns .queued) := by
            rw [untaken_cons hstays, hrest]
        _ = s.queue.pending ++ s.committed (t :: turns) .queued := by
            rw [← List.append_assoc, pending_turn h hstays, List.append_assoc, committed_cons]

theorem untaken_of_stays (hstays : ∀ t ∈ turns, t.ends = false) :
    s.untaken turns = (s.course turns).queue.pending := by
  induction turns generalizing s with
  | nil => rfl
  | cons t turns ih =>
    obtain ⟨hfirst, hrest⟩ := List.forall_mem_cons.1 hstays
    rw [untaken_cons, ih hrest]
    · rfl
    · rintro rfl
      cases hfirst

theorem timesOf_course (h : s.Tidy ∧ s.Rooted) (turns : List Turn) (a : StatusAction)
    (o : Outcome) : (s.course turns).queue.timesOf a o =
      s.queue.timesOf a o + (s.committed turns o).countP (·.action = a) := by
  induction turns generalizing s with
  | nil => rfl
  | cons t turns ih =>
    have hrest := ih (kept_turn h t)
    rw [committed_cons, List.countP_append, ← Nat.add_assoc, ← timesOf_turn h t]
    exact hrest

/-- There is room just while nobody has closed the queue and fewer events than it holds have come in
and have not been taken. -/
theorem fate_course (h : s.Tidy ∧ s.Rooted) (hopen : s.queue.isClosed = false)
    (hempty : s.queue.pending = []) (turns : List Turn) :
    (s.course turns).queue.fate = .queued ↔ (∀ t ∈ turns, t.ends = false) ∧
      (s.committed turns .queued).length < (s.received turns).length + s.queue.capacity := by
  obtain ⟨hcapacity, hclosed⟩ := frame_course h turns
  rw [Queue.fate_eq_queued, hclosed, hcapacity, hopen, Bool.false_or, List.any_eq_false]
  simp only [Bool.not_eq_true]
  refine and_congr_right fun hstays => ?_
  have horder := congrArg List.length (received_untaken h turns)
  rw [untaken_of_stays hstays, hempty, List.nil_append, List.length_append] at horder
  omega

/-- What is received, and then what is left in the queue, is what was committed while there was
room, in order.  There is room just while the receiver has neither closed the queue nor gone and
fewer events wait for it than the queue holds.  Each commit is counted once by what became of its
event, which is about the status that was written or deleted, and no operation answers anything else
than its transaction does. -/
theorem course_mirrors {config : Config} {db : Database} (hstart : ofDatabase config db = .ok s)
    (intact : db.tables.Intact) (turns : List Turn) :
    s.received turns ++ s.untaken turns = s.committed turns .queued ∧
    ((s.course turns).queue.fate = .queued ↔ (∀ t ∈ turns, t.ends = false) ∧
      (s.committed turns .queued).length < (s.received turns).length + config.capacity.toNat) ∧
    (∀ a o, (s.course turns).eventsTotal a o = (s.committed turns o).countP (·.action = a)) ∧
    (∀ c e, (s.course turns).event? c = some e → e.status.id = c.id) ∧
    ∀ operation, (s.course turns).answer? operation =
      operation.call?.map fun c => ((s.course turns).database.call c).1 := by
  have h : s.Tidy ∧ s.Rooted := rooted_afterAll hstart intact []
  obtain ⟨_, hqueue⟩ := ofDatabase_queue hstart
  have hcourse := kept_course h turns
  refine ⟨?_, ?_, fun a o => ?_, fun c e => hcourse.2.id_of_event?, (s.course turns).answer?_eq⟩
  · have horder := received_untaken h turns
    rw [hqueue] at horder
    exact horder
  · have hfate := fate_course h (by rw [hqueue]) (by rw [hqueue]) turns
    rw [hqueue] at hfate
    exact hfate
  · rw [eventsTotal_eq, timesOf_course h turns, hqueue]
    exact Nat.zero_add _

/-! ### A queue for one event -/

def called (id : String) : Status :=
  { (default : Status) with id, uri := "https://ex.test/" ++ id }

/-- Two statuses are put, of which the second finds the queue full.  The receiver takes an event;
then a put and a deletion have nothing to tell, and one deletion has.  The receiver goes before it
takes that, and an update finds the queue closed. -/
def exchange : List Turn := [
  .happens (.use (.put (called "01A") ⟨"T", default⟩)) nofun,
  .happens (.use (.put (called "01B") ⟨"U", default⟩)) nofun,
  .receive,
  .happens (.use (.put (called "01A") ⟨"V", default⟩)) nofun,
  .happens (.use (.delete "01C")) nofun,
  .happens (.use (.delete "01A")) nofun,
  .leave,
  .happens (.use (.update (called "01B") [] default)) nofun]

theorem course_mirrors_exchange :
    (beginning.received exchange ++ beginning.untaken exchange).map
        (fun e => (e.action, e.status.id)) = [(.create, "01A"), (.delete, "01A")] ∧
      (beginning.course exchange).queue.fate ≠ .queued ∧
      (beginning.course exchange).eventsTotal .create .dropped = 1 ∧
      (beginning.course exchange).eventsTotal .update .dropped = 1 ∧
      (beginning.course exchange).answer? (.delete "01C") = some (.ok ()) := by
  have hempty : Tables.Intact {} := ⟨by simp, by simp⟩
  obtain ⟨horder, hfate, htimes, -, hanswers⟩ := course_mirrors ofDatabase_beginning hempty exchange
  refine ⟨?_, fun hqueued => ?_, ?_, ?_, ?_⟩
  · rw [horder]
    decide +kernel
  · have hends := (hfate.1 hqueued).1 .leave (by simp [exchange])
    cases hends
  · rw [htimes]
    decide +kernel
  · rw [htimes]
    decide +kernel
  · rw [hanswers]
    rfl

end Store

end StatusStore
