/-
  StatusStore/Proofs/Database/Joins.lean
  ======================================
  **What a status is joined with.**  A row names its tags, its emojis and its thread,
  and for each of these kinds there is a table of joins beside the rows.  A write
  adds the joins that the written status names before it comes to the row itself,
  whichever columns it writes; only a deletion takes joins away.

  Main statements: `joins_runAll` (the joins after statements are those before, with
  the new ones), `transactUnder_ok` (a transaction that succeeds among faults has
  done all that it is made of) and `attemptAll_joined` (no join is without its row,
  none is there twice, and whatever a row names is joined).
-/
import Mathlib.Data.List.Nodup
import Mathlib.Data.Prod.Basic
import StatusStore.Proofs.Database.Faults
import StatusStore.Proofs.Database.Notions

namespace StatusStore.Database

inductive JoinKind
  | tags
  | emojis
  | thread
deriving DecidableEq, Repr

namespace JoinKind

def named : JoinKind → StatusRow → List String
  | tags, row => row.tagIds
  | emojis, row => row.emojiIds
  | thread, row => row.threadId.toList

def column : JoinKind → StatusColumn
  | tags => .tagIds
  | emojis => .emojiIds
  | thread => .threadId

theorem named_of_agrees {kind : JoinKind} {a b : StatusRow} (h : kind.column.Agrees a b) :
    kind.named a = kind.named b := by
  cases kind with
  | tags => exact h
  | emojis => exact h
  | thread => exact congrArg Option.toList h

theorem named_updateRow (kind : JoinKind) (source : StatusRow) (columns : List StatusColumn)
    (row : Stored StatusRow) :
    kind.named (updateRow source columns row).value =
      if kind.column ∈ columns then kind.named source else kind.named row.value := by
  rw [← named_of_agrees (agrees_updateRow source columns row kind.column)]
  exact apply_ite kind.named _ _ _

end JoinKind

/-- The joins of a kind: the ids of statuses with what they are joined with. -/
def Tables.joins (t : Tables) : JoinKind → List (String × String)
  | .tags => t.statusTags
  | .emojis => t.statusEmojis
  | .thread => t.threadStatuses.map Prod.swap

variable {t u : Tables} {kind : JoinKind} {s : Status}

/-! ### Sets of joins -/

theorem mem_join {joins : List (String × String)} {p q : String × String} :
    p ∈ join joins q ↔ p ∈ joins ∨ p = q := by
  unfold join
  split
  · rename_i hthere
    have hq : q ∈ joins := List.contains_iff_mem.1 hthere
    exact ⟨Or.inl, fun h => h.elim id fun hsame => hsame ▸ hq⟩
  · simp

theorem nodup_join {joins : List (String × String)} {q : String × String} (h : joins.Nodup) :
    (join joins q).Nodup := by
  unfold join
  split
  · exact h
  · rename_i hnew
    refine List.nodup_append.2 ⟨h, List.nodup_singleton q, ?_⟩
    rintro p hp _ hq rfl
    rw [List.mem_singleton.1 hq] at hp
    exact hnew (List.contains_iff_mem.2 hp)

theorem mem_foldl_join {joins new : List (String × String)} {p : String × String} :
    p ∈ new.foldl join joins ↔ p ∈ joins ∨ p ∈ new := by
  induction new generalizing joins with
  | nil => simp
  | cons q new ih => rw [List.foldl_cons, ih, mem_join, List.mem_cons, or_assoc]

theorem nodup_foldl_join {joins new : List (String × String)} (h : joins.Nodup) :
    (new.foldl join joins).Nodup := by
  induction new generalizing joins with
  | nil => exact h
  | cons q new ih => exact ih (nodup_join h)

theorem map_swap_join (joins : List (String × String)) (q : String × String) :
    (join joins q).map Prod.swap = join (joins.map Prod.swap) q.swap := by
  have hmem : q.swap ∈ joins.map Prod.swap ↔ q ∈ joins :=
    List.mem_map_of_injective Prod.swap_injective
  unfold join
  by_cases hthere : q ∈ joins
  · rw [if_pos (List.contains_iff_mem.2 hthere), if_pos (List.contains_iff_mem.2 (hmem.2 hthere))]
  · rw [if_neg (by simpa using hthere), if_neg (by simpa using fun h => hthere (hmem.1 h))]
    simp

/-! ### Joins after statements -/

namespace Statement

def joined? (kind : JoinKind) : Statement → Option (String × String)
  | joinTag statusId tagId => if kind = .tags then some (statusId, tagId) else none
  | joinEmoji statusId emojiId => if kind = .emojis then some (statusId, emojiId) else none
  | joinThread threadId statusId => if kind = .thread then some (statusId, threadId) else none
  | _ => none

/-- Whether a statement takes joins away. -/
def parts : Statement → Bool
  | leaveTags _ | leaveEmojis _ | leaveThreads _ => true
  | _ => false

theorem joins_apply {x : Statement} (hparts : x.parts = false) (h : x.apply t = .ok u)
    (kind : JoinKind) : u.joins kind = (x.joined? kind).toList.foldl join (t.joins kind) := by
  cases x with
  | insertThread thread =>
    obtain ⟨-, rfl⟩ := insert_ok h
    cases kind <;> rfl
  | joinEmoji statusId emojiId | joinTag statusId tagId =>
    cases h
    cases kind <;> rfl
  | joinThread threadId statusId =>
    cases h
    cases kind with
    | thread => exact map_swap_join t.threadStatuses (threadId, statusId)
    | _ => rfl
  | claimAttachment id statusId updatedAt =>
    cases h
    cases kind <;> rfl
  | insertStatus row =>
    obtain ⟨-, rfl⟩ := insert_ok h
    cases kind <;> rfl
  | updateStatus source columns =>
    simp only [apply] at h
    split at h
    · cases h
    · split at h <;> cases h
      cases kind <;> rfl
  | deleteStatus id =>
    cases h
    cases kind <;> rfl
  | leaveTags | leaveEmojis | leaveThreads => cases hparts

theorem runAll_cons_ok {x : Statement} {xs : List Statement} (h : runAll t (x :: xs) = .ok u) :
    ∃ v, x.apply t = .ok v ∧ runAll v xs = .ok u := by
  simp only [runAll] at h
  split at h
  · rename_i v hrun
    exact ⟨v, (run_eq_ok hrun).2, h⟩
  · cases h

/-- Statements that take no joins away add the pairs that they join. -/
theorem joins_runAll {xs : List Statement} (hparts : ∀ x ∈ xs, x.parts = false)
    (h : runAll t xs = .ok u) (kind : JoinKind) :
    u.joins kind = (xs.filterMap (joined? kind)).foldl join (t.joins kind) := by
  induction xs generalizing t with
  | nil =>
    cases h
    rfl
  | cons x xs ih =>
    obtain ⟨hfirst, hrest⟩ := List.forall_mem_cons.1 hparts
    obtain ⟨v, happly, hall⟩ := runAll_cons_ok h
    rw [ih hrest hall, joins_apply hfirst happly kind]
    cases hjoined : x.joined? kind <;> simp [hjoined]

/-- A status is joined with what its row would name. -/
theorem filterMap_joins (s : Status) (kind : JoinKind) :
    (joins s).filterMap (joined? kind) = (kind.named s.toRow).map (s.id, ·) := by
  have hnone : ∀ ids : List String, ids.filterMap (fun _ => (none : Option (String × String))) = [] :=
    fun ids => List.filterMap_eq_nil_iff.2 fun _ _ => rfl
  cases hthread : s.threadId <;> cases kind <;>
    simp [joins, joined?, JoinKind.named, Status.toRow, Function.comp_def, hthread, hnone]

theorem parts_of_mem_joins {x : Statement} (h : x ∈ joins s) : x.parts = false := by
  simp only [joins, List.mem_append, List.mem_map, Option.mem_toList, Option.map_eq_some_iff] at h
  rcases h with ((⟨_, -, rfl⟩ | ⟨_, -, rfl⟩) | ⟨_, -, rfl⟩) | ⟨_, -, rfl⟩ <;> rfl

/-! ### Joins after transactions -/

theorem parts_of_writes {xs : List Statement} (hwrites : Writes s xs) :
    ∀ x ∈ xs, x.parts = false := by
  intro x hx
  cases hwrites with
  | put newThread =>
    simp only [put, List.mem_append, Option.mem_toList, Option.map_eq_some_iff,
      List.mem_singleton] at hx
    rcases hx with (⟨_, -, rfl⟩ | hjoin) | rfl
    · rfl
    · exact parts_of_mem_joins hjoin
    · rfl
  | update columns =>
    rcases List.mem_append.1 hx with hjoin | hlast
    · exact parts_of_mem_joins hjoin
    · rw [List.mem_singleton.1 hlast]
      rfl

theorem filterMap_writes {xs : List Statement} (hwrites : Writes s xs) (kind : JoinKind) :
    xs.filterMap (joined? kind) = (kind.named s.toRow).map (s.id, ·) := by
  cases hwrites with
  | put newThread =>
    have hfirst : (newThread.map insertThread).toList.filterMap (joined? kind) = [] := by
      cases newThread <;> rfl
    have hlast : [insertStatus s.toRow].filterMap (joined? kind) = [] := rfl
    rw [put, List.filterMap_append, List.filterMap_append, hfirst, hlast, filterMap_joins,
      List.nil_append, List.append_nil]
  | update columns =>
    have hlast : [updateStatus s.toRow (written columns)].filterMap (joined? kind) = [] := rfl
    rw [show update s columns = joins s ++ [updateStatus s.toRow (written columns)] from rfl,
      List.filterMap_append, hlast, filterMap_joins, List.append_nil]

/-- A write joins the status with all that it names, whatever else it writes. -/
theorem joins_written {xs : List Statement} (hwrites : Writes s xs) (h : runAll t xs = .ok u)
    (kind : JoinKind) :
    u.joins kind = ((kind.named s.toRow).map (s.id, ·)).foldl join (t.joins kind) := by
  rw [joins_runAll (parts_of_writes hwrites) h kind, filterMap_writes hwrites]

theorem mem_joins_written {xs : List Statement} (hwrites : Writes s xs) (h : runAll t xs = .ok u)
    {x y : String} : (x, y) ∈ u.joins kind ↔
      (x, y) ∈ t.joins kind ∨ x = s.id ∧ y ∈ kind.named s.toRow := by
  rw [joins_written hwrites h, mem_foldl_join]
  simp [eq_comm, and_comm]

/-- A deletion takes all joins of its status away. -/
theorem joins_delete {id : String} (h : runAll t (delete id) = .ok u) (kind : JoinKind) :
    u.joins kind = (t.joins kind).filter (·.1 ≠ id) := by
  obtain ⟨_, ⟨⟩, h⟩ := runAll_cons_ok h
  obtain ⟨_, ⟨⟩, h⟩ := runAll_cons_ok h
  obtain ⟨_, ⟨⟩, h⟩ := runAll_cons_ok h
  obtain ⟨_, ⟨⟩, ⟨⟩⟩ := runAll_cons_ok h
  cases kind with
  | thread => simp only [Tables.joins, List.filter_map, Function.comp_def, Prod.fst_swap]
  | _ => rfl

end Statement

/-! ### Rows and joins -/

/-- Every join has a row, no join is there twice, and whatever a row names is joined. -/
structure Tables.Joined (t : Tables) : Prop where
  known : ∀ kind, ∀ p ∈ t.joins kind, ∃ r ∈ t.statuses, r.value.id = p.1
  nodup : ∀ kind, (t.joins kind).Nodup
  named : ∀ kind : JoinKind, ∀ r ∈ t.statuses, ∀ x ∈ kind.named r.value,
    (r.value.id, x) ∈ t.joins kind

theorem Tables.joined_empty : Tables.Joined {} := by
  constructor
  case known =>
    intro kind p hp
    cases kind <;> cases hp
  case nodup =>
    intro kind
    cases kind <;> exact List.nodup_nil
  case named =>
    intro kind r hr
    cases hr

namespace Tables.Joined

theorem written {xs : List Statement} (h : t.Joined) (hwrites : Writes s xs)
    (hrun : Statement.runAll t xs = .ok u)
    (hids : ∀ r ∈ t.statuses, ∃ q ∈ u.statuses, q.value.id = r.value.id)
    (hown : ∃ q ∈ u.statuses, q.value.id = s.id)
    (hnamed : ∀ kind : JoinKind, ∀ r ∈ u.statuses, ∀ x ∈ kind.named r.value,
      (r.value.id, x) ∈ t.joins kind ∨ r.value.id = s.id ∧ x ∈ kind.named s.toRow) :
    u.Joined where
  known := by
    rintro kind ⟨id, x⟩ hp
    rcases (Statement.mem_joins_written hwrites hrun).1 hp with hold | ⟨rfl, -⟩
    · obtain ⟨r, hr, hid⟩ := h.known kind _ hold
      obtain ⟨q, hq, hqid⟩ := hids r hr
      exact ⟨q, hq, hqid.trans hid⟩
    · exact hown
  nodup kind := by
    rw [Statement.joins_written hwrites hrun]
    exact nodup_foldl_join (h.nodup kind)
  named kind r hr x hx := (Statement.mem_joins_written hwrites hrun).2 (hnamed kind r hr x hx)

theorem put {newThread : Option Thread} (h : t.Joined)
    (hput : Statement.runAll t (Statement.put s newThread) = .ok u) : u.Joined := by
  obtain ⟨-, hstatuses, -⟩ := Statement.put_ok hput
  have hlast : ({ value := s.toRow } : Stored StatusRow) ∈ u.statuses := by
    rw [hstatuses]
    exact List.mem_append_right _ (List.mem_singleton_self _)
  refine h.written (.put newThread) hput (fun r hr => ?_) ⟨_, hlast, rfl⟩ fun kind r hr x hx => ?_
  · rw [hstatuses]
    exact ⟨r, List.mem_append_left _ hr, rfl⟩
  · rcases List.mem_append.1 (hstatuses ▸ hr) with hr | hr
    · exact Or.inl (h.named kind r hr x hx)
    · rw [List.mem_singleton.1 hr] at hx ⊢
      exact Or.inr ⟨rfl, hx⟩

/-- What a row keeps of its columns was joined before, and what is written into it is joined by the
same transaction. -/
theorem update {columns : List StatusColumn} (h : t.Joined)
    (hupdate : Statement.runAll t (Statement.update s columns) = .ok u) : u.Joined := by
  obtain ⟨row, -, hfind, -, hstatuses, -⟩ := Statement.update_ok hupdate
  have hrow := List.mem_of_find?_eq_some hfind
  have hid : row.value.id = s.id := by simpa using List.find?_some hfind
  have hnewId : (updateRow s.toRow (Statement.written columns) row).value.id = s.id :=
    (sameOrigin_updateRow _ _ row).id.symm.trans hid
  have hids : ∀ r ∈ t.statuses, ∃ q ∈ u.statuses, q.value.id = r.value.id := by
    intro r hr
    rw [hstatuses]
    refine ⟨_, List.mem_map_of_mem hr, ?_⟩
    split
    · rename_i hrid
      exact hnewId.trans hrid.symm
    · rfl
  obtain ⟨q, hq, hqid⟩ := hids row hrow
  refine h.written (.update columns) hupdate hids ⟨q, hq, hqid.trans hid⟩ fun kind r hr x hx => ?_
  obtain ⟨q, hq, rfl⟩ := List.mem_map.1 (hstatuses ▸ hr)
  split at hx
  · rename_i hqid
    rw [if_pos hqid, hnewId]
    rw [kind.named_updateRow] at hx
    split at hx
    · exact Or.inr ⟨rfl, hx⟩
    · exact Or.inl (hid ▸ h.named kind row hrow x hx)
  · rename_i hqid
    rw [if_neg hqid]
    exact Or.inl (h.named kind q hq x hx)

theorem delete {id : String} (h : t.Joined)
    (hdelete : Statement.runAll t (Statement.delete id) = .ok u) : u.Joined := by
  obtain ⟨-, hstatuses, -⟩ := Statement.delete_ok hdelete
  have hjoins := Statement.joins_delete hdelete
  constructor
  case known =>
    intro kind p hp
    rw [hjoins, List.mem_filter] at hp
    obtain ⟨r, hr, hid⟩ := h.known kind p hp.1
    rw [hstatuses]
    exact ⟨r, List.mem_filter.2 ⟨hr, hid ▸ hp.2⟩, hid⟩
  case nodup =>
    intro kind
    rw [hjoins]
    exact (h.nodup kind).filter _
  case named =>
    intro kind r hr x hx
    rw [hstatuses, List.mem_filter] at hr
    rw [hjoins]
    exact List.mem_filter.2 ⟨h.named kind r hr.1 x hx, hr.2⟩

end Tables.Joined

/-! ### Calls -/

inductive Call
  | put (status : Status) (newThread : Option Thread)
  | update (status : Status) (columns : List StatusColumn)
  | delete (id : String)

def Call.statements : Call → List Statement
  | put status newThread => Statement.put status newThread
  | update status columns => Statement.update status columns
  | delete id => Statement.delete id

def call (db : Database) : Call → Except Error Unit × Database
  | .put status newThread => db.putStatus status newThread
  | .update status columns => db.updateStatus status columns
  | .delete id => db.deleteStatus id

theorem call_eq (db : Database) (c : Call) : db.call c = db.transact c.statements := by
  cases c <;> rfl

theorem Tables.Joined.runAll {c : Call} (h : t.Joined)
    (hrun : Statement.runAll t c.statements = .ok u) : u.Joined := by
  cases c with
  | put status newThread => exact h.put hrun
  | update status columns => exact h.update hrun
  | delete id => exact h.delete hrun

theorem Tables.Intact.runAll {c : Call} (h : t.Intact)
    (hrun : Statement.runAll t c.statements = .ok u) : u.Intact := by
  cases c with
  | put status newThread => exact (h.put hrun).1
  | update status columns => exact (h.update hrun).1
  | delete id => exact (h.delete hrun).1

theorem Statement.dropped_runAll {c : Call} (hrun : runAll t c.statements = .ok u) :
    u.dropped = t.dropped := by
  cases c with
  | put status newThread => exact (put_ok hrun).2.2
  | update status columns =>
    obtain ⟨-, -, -, -, -, hdropped⟩ := update_ok hrun
    exact hdropped
  | delete id => exact (delete_ok hrun).2.2

/-- A call with what strikes its transaction.  None of that can be that a row is there already, which
only the tables tell. -/
structure Attempt where
  call : Call
  faults : Faults := {}
  honest : ∀ n, faults.statement n ≠ some .alreadyExists := by nofun

def attempt (db : Database) (a : Attempt) : Except Error Unit × Database :=
  db.transactUnder a.faults a.call.statements

def attemptAll (db : Database) (attempts : List Attempt) : Database :=
  attempts.foldl (fun db a => (db.attempt a).2) db

variable {faults : Faults} {db : Database}

theorem Statement.eq_alreadyExists_of_forgives {x : Statement} {e : Error}
    (h : x.forgives e = true) : e = .alreadyExists := by
  cases x <;> cases e <;> first | rfl | cases h

/-- A statement that succeeds has run, unless it was struck by what it takes for success. -/
theorem Transaction.execute_ok {x y : Transaction} {fault : Option Error} {s : Statement}
    (honest : fault ≠ some .alreadyExists) (h : x.execute fault s = (.ok (), y)) :
    s.run x.database.tables = .ok y.database.tables := by
  unfold execute at h
  cases fault with
  | some e =>
    have hforgives : s.forgives e = false := by
      by_contra hforgiven
      exact honest (congrArg some (Statement.eq_alreadyExists_of_forgives (by simpa using hforgiven)))
    simp [Statement.forgive, hforgives] at h
  | none =>
    cases hrun : s.run x.database.tables with
    | error e => simp [hrun, Statement.forgive, Statement.forgive_run hrun] at h
    | ok tables =>
      simp only [hrun] at h
      cases h
      rfl

theorem Transaction.executeAll_ok {x y : Transaction} {statements : List Statement} {n : Nat}
    (honest : ∀ n, faults.statement n ≠ some .alreadyExists)
    (h : x.executeAll faults n statements = (.ok (), y)) :
    Statement.runAll x.database.tables statements = .ok y.database.tables := by
  induction statements generalizing x n with
  | nil =>
    cases h
    rfl
  | cons s rest ih =>
    simp only [executeAll] at h
    cases htried : x.execute (faults.statement n) s with
    | mk answer z =>
      rw [htried] at h
      cases answer with
      | error e => cases h
      | ok _ =>
        simp only [Statement.runAll, Transaction.execute_ok (honest n) htried]
        exact ih h

/-- A transaction that succeeds among faults has run all its statements. -/
theorem transactUnder_ok {statements : List Statement}
    (honest : ∀ n, faults.statement n ≠ some .alreadyExists)
    (h : (db.transactUnder faults statements).1 = .ok ()) :
    Statement.runAll db.tables statements =
      .ok (db.transactUnder faults statements).2.tables := by
  unfold transactUnder at h ⊢
  split at h
  · cases h
  · cases h
  · cases hall : Transaction.executeAll faults ⟨db, db.tables⟩ 0 statements with
    | mk answer x =>
      rw [hall] at h
      cases answer with
      | error e => cases h
      | ok _ =>
        have hrun := Transaction.executeAll_ok honest hall
        cases hcommit : faults.commit with
        | some e =>
          simp only [Transaction.commit, hcommit] at h
          cases h
        | none => exact hrun

/-- Joins and rows stay in step through all calls in any order, whichever of them fail and of
whatever. -/
theorem attemptAll_joined (attempts : List Attempt) (h : db.tables.Joined) :
    (∀ c, db.attempt { call := c } = db.call c) ∧ (db.attemptAll attempts).tables.Joined := by
  refine ⟨fun c => (transactUnder_none db c.statements).trans (db.call_eq c).symm, ?_⟩
  induction attempts generalizing db with
  | nil => exact h
  | cons a attempts ih =>
    refine @ih (db.attempt a).2 ?_
    cases hanswer : (db.attempt a).1 with
    | ok _ => exact h.runAll (transactUnder_ok a.honest hanswer)
    | error e =>
      obtain ⟨queries, hsame⟩ := transactUnder_error (u := (db.attempt a).2) (Prod.ext hanswer rfl)
      rw [hsame]
      exact h

def joining (id : String) (tagIds emojiIds : List String) : Status :=
  { (default : Status) with
    id, uri := id, threadId := some id, tags := .known tagIds, emojis := .known emojiIds }

/-- A status is written, with a tag named twice, and then its tags are, with an emoji that is not
written.  The same status put again, an update of a status that is not there and one whose commit
fails come in between, and another status comes and goes. -/
def joinAttempts : List Attempt := [
  { call := .put (joining "A" ["G", "G"] ["E"]) none },
  { call := .put (joining "A" ["H"] ["F"]) none },
  { call := .put (joining "B" ["G"] ["E"]) none },
  { call := .update (joining "C" ["G"] []) [] },
  { call := .update (joining "A" ["I"] []) [.tagIds]
    faults := { commit := some (.database .closedPool) } },
  { call := .update (joining "A" ["H", "G"] ["F"]) [.tagIds] },
  { call := .delete "B" },
  { call := .delete "B" }]

theorem attemptAll_joined_duplicates :
    ({} : Database).tables.Joined ∧
      (∀ c, ({} : Database).attempt { call := c } = ({} : Database).call c) ∧
      (({} : Database).attemptAll joinAttempts).tables.Joined ∧
      (({} : Database).attemptAll joinAttempts).tables.joins .tags = [("A", "G"), ("A", "H")] ∧
      (({} : Database).attemptAll joinAttempts).tables.joins .emojis = [("A", "E"), ("A", "F")] ∧
      (({} : Database).attemptAll joinAttempts).tables.joins .thread = [("A", "A")] := by
  have hempty : ({} : Database).tables.Joined := Tables.joined_empty
  obtain ⟨hsame, hjoined⟩ := attemptAll_joined joinAttempts hempty
  refine ⟨hempty, hsame, hjoined, ?_, ?_, ?_⟩ <;> decide +kernel

end StatusStore.Database
