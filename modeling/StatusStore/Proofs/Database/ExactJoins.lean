/-
  StatusStore/Proofs/Database/ExactJoins.lean
  ===========================================
  **Joins that no row names.**  A row is joined with all that it names, but not with
  that alone: an update that takes something out of a row leaves the join, and one
  that does not write the column joins what the row does not come to name.  The joins
  of a kind are exact when neither has happened.

  Main statements: `Tables.Exact.put`, `Tables.exact_update_iff` and
  `Tables.Exact.delete`, which say what each transaction does to exact joins, and
  `exact_call_iff`, which says so of every call that may fail.
-/
import StatusStore.Proofs.Database.Joins

namespace StatusStore.Database

variable {t u : Tables} {kind : JoinKind} {s : Status} {db : Database} {c : Call}

/-- Whether an update of a row leaves no join that the row does not name: what the row named the
status names too if the column is written, and what the status names the row named if it is not. -/
def JoinKind.Covers (kind : JoinKind) (s : Status) (columns : List StatusColumn)
    (row : StatusRow) : Prop :=
  if kind.column ∈ Statement.written columns then kind.named row ⊆ kind.named s.toRow
  else kind.named s.toRow ⊆ kind.named row

instance (kind : JoinKind) (s : Status) (columns : List StatusColumn) (row : StatusRow) :
    Decidable (kind.Covers s columns row) :=
  inferInstanceAs (Decidable (if kind.column ∈ Statement.written columns then
    kind.named row ⊆ kind.named s.toRow else kind.named s.toRow ⊆ kind.named row))

namespace Tables

/-- Whether a row names all that it is joined with. -/
def Exact (t : Tables) (kind : JoinKind) : Prop :=
  ∀ p ∈ t.joins kind, ∀ r ∈ t.statuses, r.value.id = p.1 → p.2 ∈ kind.named r.value

/-- Exact joins say of each row what it names. -/
theorem Joined.mem_joins_iff (h : t.Joined) (hexact : t.Exact kind) {id x : String} :
    (id, x) ∈ t.joins kind ↔ ∃ r ∈ t.statuses, r.value.id = id ∧ x ∈ kind.named r.value := by
  constructor
  · intro hp
    obtain ⟨r, hr, hid⟩ := h.known kind _ hp
    exact ⟨r, hr, hid, hexact _ hp r hr hid⟩
  · rintro ⟨r, hr, rfl, hx⟩
    exact h.named kind r hr x hx

theorem Exact.put {newThread : Option Thread} (h : t.Exact kind) (joined : t.Joined)
    (hput : Statement.runAll t (Statement.put s newThread) = .ok u) : u.Exact kind := by
  obtain ⟨hnone, hstatuses, -⟩ := Statement.put_ok hput
  have hfresh : ∀ r ∈ t.statuses, r.value.id ≠ s.id := fun r hr hid =>
    (conflict_eq_false.1 (hnone r hr)).1 hid.symm
  rintro ⟨id, x⟩ hp r hr hid
  rw [hstatuses] at hr
  rcases (Statement.mem_joins_written (.put newThread) hput).1 hp with hold | ⟨rfl, hx⟩
  · rcases List.mem_append.1 hr with hr | hr
    · exact h _ hold r hr hid
    · rw [List.mem_singleton.1 hr] at hid
      obtain ⟨q, hq, hqid⟩ := joined.known kind _ hold
      exact absurd (hqid.trans hid.symm) (hfresh q hq)
  · rcases List.mem_append.1 hr with hr | hr
    · exact absurd hid (hfresh r hr)
    · rw [List.mem_singleton.1 hr]
      exact hx

/-- What an updated row is joined with is what it named before, and what the status names. -/
theorem exact_update_iff {columns : List StatusColumn} (intact : t.Intact) (joined : t.Joined)
    (h : t.Exact kind) (hupdate : Statement.runAll t (Statement.update s columns) = .ok u) :
    u.Exact kind ↔ ∀ r ∈ t.statuses, r.value.id = s.id → kind.Covers s columns r.value := by
  obtain ⟨-, row, hrow, hid, hstatuses⟩ := intact.update hupdate
  have hmem : ∀ {id x : String}, (id, x) ∈ u.joins kind ↔
      (id, x) ∈ t.joins kind ∨ id = s.id ∧ x ∈ kind.named s.toRow :=
    Statement.mem_joins_written (.update columns) hupdate
  let new := updateRow s.toRow (Statement.written columns) row
  have hnamed : kind.named new.value =
      if kind.column ∈ Statement.written columns then kind.named s.toRow else kind.named row.value :=
    kind.named_updateRow s.toRow _ row
  have hcovers : kind.Covers s columns row.value ↔
      kind.named row.value ⊆ kind.named new.value ∧ kind.named s.toRow ⊆ kind.named new.value := by
    rw [hnamed, JoinKind.Covers]
    split <;> simp
  have hnew : new ∈ u.statuses := by
    rw [hstatuses]
    exact List.mem_map.2 ⟨row, hrow, if_pos hid⟩
  have hnewId : new.value.id = s.id := (sameOrigin_updateRow _ _ row).id.symm.trans hid
  constructor
  · intro hexact r hr hrid
    obtain rfl := intact.eq_of_id hr hrow (hrid.trans hid.symm)
    refine hcovers.2 ⟨fun x hx => ?_, fun x hx => ?_⟩
    · exact hexact (s.id, x) (hmem.2 (Or.inl (hid ▸ joined.named kind r hr x hx))) new hnew hnewId
    · exact hexact (s.id, x) (hmem.2 (Or.inr ⟨rfl, hx⟩)) new hnew hnewId
  · intro hall
    obtain ⟨hbefore, hstatus⟩ := hcovers.1 (hall row hrow hid)
    rintro ⟨id, x⟩ hp r hr hrid
    obtain ⟨q, hq, rfl⟩ := List.mem_map.1 (hstatuses ▸ hr)
    split at hrid
    · rename_i hqid
      rw [if_pos hqid]
      obtain rfl := hnewId.symm.trans hrid
      rcases hmem.1 hp with hold | ⟨-, hx⟩
      · exact hbefore (h _ hold row hrow hid)
      · exact hstatus hx
    · rename_i hqid
      rw [if_neg hqid]
      rcases hmem.1 hp with hold | ⟨hown, -⟩
      · exact h _ hold q hq hrid
      · exact absurd (hrid.trans hown) hqid

theorem Exact.delete {id : String} (h : t.Exact kind)
    (hdelete : Statement.runAll t (Statement.delete id) = .ok u) : u.Exact kind := by
  obtain ⟨-, hstatuses, -⟩ := Statement.delete_ok hdelete
  intro p hp r hr hid
  rw [Statement.joins_delete hdelete] at hp
  rw [hstatuses] at hr
  exact h p (List.mem_filter.1 hp).1 r (List.mem_filter.1 hr).1 hid

end Tables

/-! ### Calls -/

/-- A call changes nothing if it fails, and else does all its statements. -/
theorem call_cases (db : Database) (c : Call) :
    (∃ e, (db.call c).1 = .error e ∧ (db.call c).2.tables = db.tables) ∨
    ((db.call c).1 = .ok () ∧ Statement.runAll db.tables c.statements = .ok (db.call c).2.tables) := by
  rw [call_eq]
  cases hanswer : (db.transact c.statements).1 with
  | error e => exact Or.inl ⟨e, rfl, tables_of_transact_error hanswer⟩
  | ok _ => exact Or.inr ⟨rfl, (transact_ok hanswer).2⟩

theorem Tables.Intact.call (h : db.tables.Intact) (c : Call) : (db.call c).2.tables.Intact := by
  rcases db.call_cases c with ⟨-, -, hsame⟩ | ⟨-, hrun⟩
  · rw [hsame]
    exact h
  · exact h.runAll hrun

theorem Tables.Joined.call (h : db.tables.Joined) (c : Call) : (db.call c).2.tables.Joined := by
  rcases db.call_cases c with ⟨-, -, hsame⟩ | ⟨-, hrun⟩
  · rw [hsame]
    exact h
  · exact h.runAll hrun

theorem dropped_call (db : Database) (c : Call) :
    (db.call c).2.tables.dropped = db.tables.dropped := by
  rcases db.call_cases c with ⟨-, -, hsame⟩ | ⟨-, hrun⟩
  · rw [hsame]
  · exact Statement.dropped_runAll hrun

def Call.Covers (kind : JoinKind) (t : Tables) : Call → Prop
  | update status columns =>
    ∀ r ∈ t.statuses, r.value.id = status.id → kind.Covers status columns r.value
  | _ => True

/-- Exact joins stay so unless an update succeeds that leaves others. -/
theorem exact_call_iff (intact : db.tables.Intact) (joined : db.tables.Joined)
    (h : db.tables.Exact kind) (c : Call) :
    (db.call c).2.tables.Exact kind ↔ ((db.call c).1 = .ok () → c.Covers kind db.tables) := by
  rcases db.call_cases c with ⟨e, hfailed, hsame⟩ | ⟨hok, hrun⟩
  · rw [hsame, hfailed]
    exact ⟨nofun, fun _ => h⟩
  · rw [hok]
    refine Iff.trans ?_ (forall_prop_of_true rfl).symm
    cases c with
    | put status newThread => exact ⟨fun _ => trivial, fun _ => h.put joined hrun⟩
    | update status columns => exact Tables.exact_update_iff intact joined h hrun
    | delete id => exact ⟨fun _ => trivial, fun _ => h.delete hrun⟩

end StatusStore.Database
