/-
  StatusStore/Proofs/Store/Depth.lean
  ===================================
  **Records never enter the cache, whatever overlaps.**  Calls that read, write, delete
  and populate take their steps in any order, some are dropped, and meanwhile others
  use the store one at a time, it is restarted, or its database becomes another one.
  Every cached status is barebones all the same, and a status that was populated from a
  barebones one has a parent and a boosted status for which nothing is fetched.

  Main statements: `Shallow.step`, which is about single steps, and `turnAll_bare`.
-/
import StatusStore.Proofs.Store.Barebones
import StatusStore.Store.Overlap

namespace StatusStore

open Cache Database

/-! ### The status cache among the others -/

namespace Cache.Caches

variable {P : Except Error Status → Prop} {c : Caches}

theorem only_start {w : Work Status} (h : c.statuses.Only P) (handle : Nat) (hw : w.Only P) :
    (c.start handle w).2.statuses.Only P ∧ ∀ p, (c.start handle w).1 = .status p → p.Only P := by
  obtain ⟨hstatuses, hprogress⟩ := EntityCache.Only.start h handle hw
  refine ⟨?_, ?_⟩
  · rw [start, afterStep, statuses_announce]
    exact hstatuses
  · rintro _ ⟨⟩
    exact hprogress

theorem only_poll (h : c.statuses.Only P) (handle : Nat) :
    (c.poll handle).2.statuses.Only P ∧ ∀ p, (c.poll handle).1 = .status p → p.Only P := by
  obtain ⟨hstatuses, hprogress⟩ := EntityCache.Only.poll h handle
  unfold poll
  split
  · refine ⟨h, ?_⟩
    rintro _ ⟨⟩
  · split
    · refine ⟨h, ?_⟩
      rintro _ ⟨⟩
    · refine ⟨?_, ?_⟩
      · rw [afterStep, statuses_announce]
        exact hstatuses
      · rintro _ ⟨⟩
        exact hprogress

theorem only_invalidate (h : c.statuses.Only P) (key : Key) :
    (c.invalidate key).statuses.Only P := by
  rw [invalidate, statuses_announce]
  exact EntityCache.Only.invalidate h key

end Cache.Caches

/-! ### Calls in progress -/

def Task.IsShallow : Task → Prop
  | .fill status _ _ | .filled status _ _ => status.IsShallow
  | _ => True

def Returned.IsShallow : Returned → Prop
  | .status result => ∀ x, acceptIncomplete result = .ok x → x.IsShallow
  | .unit _ => True

theorem AnswersBare.isShallow {result : Except Error Status} (h : AnswersBare result) :
    (Returned.status result).IsShallow := fun x hx => (h x hx).isShallow

namespace Overlap

variable {o : Overlap} {i : Nat} {task : Task} {status : Status} {w : Work Status}

/-- Whatever is cached is barebones, and what calls have fetched or returned is one level deep. -/
structure Shallow (o : Overlap) : Prop where
  bare : o.store.Bare
  calls : ∀ c ∈ o.calls, c.task.IsShallow
  returned : ∀ r ∈ o.returned, r.2.IsShallow

namespace Shallow

theorem withStore {s : Store} (h : o.Shallow) (hs : s.Bare) :
    ({ o with store := s } : Overlap).Shallow :=
  ⟨hs, h.calls, h.returned⟩

theorem setCaches {c : Caches} (h : o.Shallow) (hc : c.statuses.Only AnswersBare) :
    (o.setCaches c).Shallow :=
  h.withStore hc

theorem of_task (h : o.Shallow) (htask : o.task? i = some task) : task.IsShallow := by
  obtain ⟨c, hc, rfl⟩ := Option.map_eq_some_iff.1 htask
  exact h.calls c (List.mem_of_find?_eq_some hc)

theorem setTask (h : o.Shallow) (i : Nat) (htask : task.IsShallow) :
    (o.setTask i task).Shallow := by
  refine ⟨h.bare, fun c hc => ?_, h.returned⟩
  obtain ⟨old, hold, rfl⟩ := List.mem_map.1 hc
  split
  · exact htask
  · exact h.calls old hold

theorem forget (h : o.Shallow) (i : Nat) : (o.forget i).Shallow :=
  ⟨h.bare, fun c hc => h.calls c (List.mem_filter.1 hc).1, h.returned⟩

theorem finish (h : o.Shallow) (i : Nat) {result : Returned} (hresult : result.IsShallow) :
    (o.finish i result).Shallow := by
  refine ⟨h.bare, (h.forget i).calls, fun r hr => ?_⟩
  rcases List.mem_cons.1 hr with rfl | hr
  · exact hresult
  · exact h.returned r hr

theorem evict (h : o.Shallow) (id : String) : (o.evict id).Shallow :=
  h.setCaches (Caches.only_invalidate h.bare _)

/-! ### Populations -/

/-- A status is populated by loads, one after the other, and stays one level deep. -/
theorem populate (h : o.Shallow) (i : Nat) (hstatus : status.IsShallow) (failures : PopulateError)
    (parts : List Part) : (o.populate i status failures parts).Shallow := by
  induction parts generalizing o status failures with
  | nil =>
    refine h.finish i fun x hx => ?_
    have hpopulated : x = status := by
      unfold Population.result at hx
      split at hx <;> exact (Except.ok.inj hx).symm
    exact hpopulated ▸ hstatus
  | cons part parts ih =>
    unfold Overlap.populate
    split
    · rename_i id _
      have hunanswered : (Work.load (.ofLookup (.id id)) none).Only AnswersBare := by
        rintro _ ⟨⟩
      obtain ⟨hbare, hprogress⟩ := Caches.only_start h.bare i hunanswered
      generalize o.store.caches.start i (.load (.ofLookup (.id id)) none) = started
        at hbare hprogress
      obtain ⟨progress, caches⟩ := started
      have hstarted : (o.setCaches caches).Shallow := h.setCaches hbare
      dsimp only
      split
      · rename_i answer
        have hanswer : AnswersBare answer := hprogress _ rfl
        exact ih hstarted (Population.isShallow_receive hanswer hstatus part) _
      · exact hstarted.setTask i hstatus
    · split
      · exact h.setTask i hstatus
      · exact ih h (Population.isShallow_fill h.bare hstatus part) _

/-- A call goes on with what its load answered. -/
theorem afterFlight (h : o.Shallow) (i : Nat) (htask : task.IsShallow) {progress : CallProgress}
    (hprogress : ∀ p, progress = .status p → p.Only AnswersBare) :
    (o.afterFlight i task progress).Shallow := by
  unfold Overlap.afterFlight
  split
  · rename_i result
    have hanswer : AnswersBare result := hprogress _ rfl
    split
    · exact h.setTask i trivial
    · exact h.populate i (answersBare_ok.1 hanswer).isShallow _ _
    · rename_i status failures part rest
      exact h.populate i
        (Population.isShallow_receive (p := ⟨_, status, failures⟩) hanswer htask part) _ _
    · exact h.finish i hanswer.isShallow
  · refine finish ?_ i trivial
    split
    · exact h.withStore h.bare
    · exact h
  · exact h

/-! ### Steps -/

theorem launch (h : o.Shallow) (i : Nat) (htask : task.IsShallow) (hw : w.Only AnswersBare) :
    (o.launch i task w).Shallow := by
  unfold Overlap.launch
  split
  · exact h
  · obtain ⟨hbare, hprogress⟩ := Caches.only_start h.bare i hw
    have hbegun : ({ o with calls := o.calls ++ [⟨i, task⟩] } : Overlap).Shallow := by
      refine ⟨h.bare, fun c hc => ?_, h.returned⟩
      rcases List.mem_append.1 hc with hc | hc
      · exact h.calls c hc
      · rw [List.mem_singleton.1 hc]
        exact htask
    exact (hbegun.setCaches hbare).afterFlight i htask hprogress

theorem begin (h : o.Shallow) (i : Nat) (request : Request) : (o.begin i request).Shallow := by
  have hstripped := fun s : Status => answersBare_ok.2 s.isBare_barebones
  unfold Overlap.begin
  cases request with
  | get l mode | delete id =>
    refine h.launch i ?_ ?_
    · trivial
    · rintro _ ⟨⟩
  | put status fresh | update status columns now =>
    refine h.launch i ?_ ?_
    · trivial
    · exact hstripped _

theorem performLoad (h : o.Shallow) (i : Nat) (l : Lookup) : (o.performLoad i l).Shallow := by
  unfold Overlap.performLoad
  split
  · have hanswer := o.store.database.answersBare_status l
    exact h.withStore (EntityCache.Only.answerLoad h.bare i hanswer)
  · exact h

theorem perform (h : o.Shallow) (i : Nat) : (o.perform i).Shallow := by
  unfold Overlap.perform
  split
  · exact h
  · exact h.performLoad i _
  · rename_i status failures part rest htask
    split
    · exact h.performLoad i _
    · have hfetched : (Population.fill ⟨o.store, status, failures⟩ part).store.Bare :=
        h.bare.fetches (Store.fetches_fill (p := fun _ => True) (fun _ => trivial) _ part)
      have hfilled := Population.isShallow_fill (p := ⟨o.store, status, failures⟩) h.bare
        (h.of_task htask) part
      exact (h.withStore hfetched).setTask i hfilled
  · exact h.performLoad i _
  · split
    · exact h.withStore (EntityCache.Only.answerStore h.bare i _)
    · exact h
  · rename_i id existing _
    have hdeleted : (o.setDatabase (o.store.database.deleteStatus id).2).Shallow :=
      h.withStore h.bare
    refine hdeleted.setTask i ?_
    trivial
  all_goals exact h

theorem resume (h : o.Shallow) (i : Nat) : (o.resume i).Shallow := by
  unfold Overlap.resume
  split
  · exact h
  · exact h
  · refine finish (evict ?_ _) i trivial
    split
    · exact h.withStore h.bare
    · exact h
  · rename_i htask
    exact h.populate i (h.of_task htask) _ _
  · rename_i htask
    obtain ⟨hbare, hprogress⟩ := Caches.only_poll h.bare i
    exact (h.setCaches hbare).afterFlight i (h.of_task htask) hprogress

theorem cancel (h : o.Shallow) (i : Nat) : (o.cancel i).Shallow := by
  unfold Overlap.cancel
  split
  · exact h
  · exact (h.evict _).forget i
  · exact (h.setCaches (EntityCache.Only.cancel h.bare i)).forget i

theorem step (h : o.Shallow) (s : OverlapStep) : (o.step s).Shallow := by
  cases s with
  | begin i request => exact h.begin i request
  | perform i => exact h.perform i
  | resume i => exact h.resume i
  | cancel i => exact h.cancel i

end Shallow

/-! ### Runs -/

/-- What happens to a store with calls in progress: one of them takes a step, or something befalls
the store in between. -/
inductive Turn
  | step (step : OverlapStep)
  | befalls (incident : Store.Incident)

def turn (o : Overlap) : Turn → Overlap
  | .step s => o.step s
  | .befalls incident => { o with store := o.store.befall incident }

def turnAll (o : Overlap) (turns : List Turn) : Overlap := turns.foldl turn o

theorem Shallow.turnAll (h : o.Shallow) (turns : List Turn) : (o.turnAll turns).Shallow := by
  induction turns generalizing o with
  | nil => exact h
  | cons turn turns ih =>
    refine ih (o := o.turn turn) ?_
    cases turn with
    | step s => exact h.step s
    | befalls incident => exact h.withStore (h.bare.befall incident)

/-- Whatever is done with a store, one at a time or overlapping, and becomes of its database: every
cached status is its own barebones copy, so that none of its parts has a record attached
(`Status.barebones_eq_self_iff`).  A population of any status leaves the parent and the
boosted status that it has, or attaches such for which nothing is fetched; so of a barebones status
it makes one that is one level deep, as are all statuses that reads show and that calls have
returned. -/
theorem turnAll_bare {config : Config} {db : Database} {start : Store}
    (hstart : Store.ofDatabase config db = .ok start) (turns : List Turn) :
    let o := ({ store := start } : Overlap).turnAll turns
    (∀ n e, o.store.caches.statuses.index.entries.get? n = some e →
      e.value.barebones = e.value) ∧
    (∀ status : Status, status.Deepens (o.store.populate status).status) ∧
    (∀ status, status.barebones = status → (o.store.populate status).status.IsShallow) ∧
    (∀ r mode x, (o.store.read r mode).1.Shows x →
      x.IsShallow ∧ (mode = .barebones → x.barebones = x)) ∧
    ∀ i result x, (i, .status result) ∈ o.returned → acceptIncomplete result = .ok x →
      x.IsShallow := by
  intro o
  have hbegun : ({ store := start } : Overlap).Shallow :=
    ⟨Store.bare_ofDatabase hstart, List.forall_mem_nil _, List.forall_mem_nil _⟩
  have h : o.Shallow := hbegun.turnAll turns
  clear_value o
  have hpopulated := Store.deepens_populate h.bare
  refine ⟨fun n e he => ?_, hpopulated, fun status hbare => ?_, fun r mode x hx => ?_,
    fun i result x hreturned hx => ?_⟩
  · exact answersBare_ok.1 (h.bare.index he)
  · exact (Status.IsBare.isShallow hbare).deepen (hpopulated status)
  · exact h.bare.read hx
  · exact h.returned _ hreturned x hx

def nestedReply : Status := { (default : Status) with
  id := "01R"
  uri := "r"
  inReplyToId := some "01A"
  inReplyTo := some { (default : Status) with id := "01A", uri := "a", account := some default } }

def nestedTurns : List Turn := [
  .befalls (.use (.put { (default : Status) with id := "01A", uri := "a" } ⟨"T", default⟩)),
  .step (.begin 1 (.put nestedReply ⟨"U", default⟩)),
  .step (.perform 1),
  .step (.resume 1)]

/-- The reply is cached without its parent, which is fetched again without its author. -/
theorem turnAll_bare_nested :
    let o := ({ store := Store.beginning } : Overlap).turnAll nestedTurns
    (∃ w, o.store.cached? (.id "01R") = some w ∧ w.barebones = w) ∧
      ∃ parent, (o.store.populate nestedReply.barebones).status.inReplyTo = some parent ∧
        parent.id = "01A" ∧ parent.barebones = parent := by
  have hbare := turnAll_bare Store.ofDatabase_beginning nestedTurns
  generalize hrun : ({ store := Store.beginning } : Overlap).turnAll nestedTurns = o at hbare
  obtain ⟨hcached, -, hshallow, -⟩ := hbare
  have hfound : (o.store.cached? (.id "01R")).isSome = true := by
    rw [← hrun]
    decide +kernel
  have hparent : (o.store.populate nestedReply.barebones).status.inReplyTo.map (·.id) =
      some "01A" := by
    rw [← hrun]
    decide +kernel
  constructor
  · obtain ⟨w, hw⟩ := Option.isSome_iff_exists.1 hfound
    obtain ⟨n, e, -, he, rfl⟩ := Index.get?_eq_some.1 hw
    exact ⟨e.value, hw, hcached n e he⟩
  · obtain ⟨parent, hp, hid⟩ := Option.map_eq_some_iff.1 hparent
    exact ⟨parent, hp, hid, (hshallow _ nestedReply.barebones_barebones).parent parent hp⟩

end Overlap

end StatusStore
