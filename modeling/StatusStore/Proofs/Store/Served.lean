/-
  StatusStore/Proofs/Store/Served.lean
  ====================================
  **What reads show.**  A read may show one status, or those of a list or a walk.  Each
  of them is the answer of a single get, in full or not, and the store that was asked
  for it has come from the first by loads and queries.  So what is true of all gets in
  the stores that reads lead to, is true of whatever reads show.

  Main statement: `served_read`.
-/
import StatusStore.Proofs.Store.Runs
import StatusStore.Proofs.Store.Walks

namespace StatusStore.Store

open Cache

variable {s u : Store} {mode : Retrieval} {x : Status} {found : List Status}

inductive Answer.Shows : Answer → Status → Prop
  | status {answer : Except Error Status} {x : Status}
      (accepted : acceptIncomplete answer = .ok x) : Shows (.status answer) x
  | statuses {found : List Status} {x : Status} (listed : x ∈ found) :
      Shows (.statuses (.ok found)) x

/-- A get answers the status, in full or not, in `s` or after loads and queries. -/
def Served (s : Store) (mode : Retrieval) (x : Status) : Prop :=
  ∃ u l, Fetches (fun _ => True) s u ∧ acceptIncomplete (u.get l mode).1 = .ok x

theorem served_get {l : Lookup} (h : acceptIncomplete (s.get l mode).1 = .ok x) : s.Served mode x :=
  ⟨s, l, .refl, h⟩

theorem Served.of_fetches (hfetches : Fetches (fun _ => True) s u) (h : u.Served mode x) :
    s.Served mode x := by
  obtain ⟨v, l, hv, hget⟩ := h
  exact ⟨v, l, hfetches.trans hv, hget⟩

theorem served_after_get {l : Lookup} (h : (s.get l mode).2.Served mode x) : s.Served mode x :=
  h.of_fetches (fetches_get (fun _ => trivial) trivial s mode)

theorem served_getMany {ids : List String} (h : x ∈ (s.getMany mode ids).1) : s.Served mode x := by
  induction ids generalizing s with
  | nil => cases h
  | cons id ids ih =>
    cases hget : acceptIncomplete (s.get (.id id) mode).1 with
    | error e =>
      simp only [getMany, hget] at h
      exact served_after_get (ih h)
    | ok y =>
      simp only [getMany, hget] at h
      rcases List.mem_cons.1 h with rfl | h
      · exact served_get hget
      · exact served_after_get (ih h)

theorem served_listed {kind : ListKind} {id : String} (hok : (s.listed kind id mode).1 = .ok found)
    (hx : x ∈ found) : s.Served mode x := by
  have hloaded : Fetches (fun _ => True) s (s.loadList kind id).2 := s.fetches_loadList kind id
  unfold listed at hok
  generalize s.loadList kind id = loaded at hloaded hok
  obtain ⟨_ | ids, u⟩ := loaded
  · cases hok
  · obtain rfl := Except.ok.inj hok
    exact (served_getMany hx).of_fetches hloaded

theorem served_usingEmoji {emojiId : String} (hok : (s.usingEmoji emojiId mode).1 = .ok found)
    (hx : x ∈ found) : s.Served mode x := by
  have hqueried : Fetches (fun _ => True) s
      { s with database := (s.database.emojiStatusIds emojiId).2 } := Fetches.refl.queried rfl rfl
  unfold usingEmoji at hok
  generalize s.database.emojiStatusIds emojiId = answered at hqueried hok
  obtain ⟨_ | ids, database⟩ := answered
  · cases hok
  · obtain rfl := Except.ok.inj hok
    exact (served_getMany hx).of_fetches hqueried

/-! ### Walks -/

/-- The statuses of a walk that goes on are the one it came by first and the others. -/
theorem mem_of_map_cons {rest : Except Error (List Status)} {y : Status}
    (hok : rest.map (y :: ·) = .ok found) (hx : x ∈ found) :
    x = y ∨ ∃ others, rest = .ok others ∧ x ∈ others := by
  cases rest with
  | error e => cases hok
  | ok others =>
    obtain rfl := Except.ok.inj hok
    exact (List.mem_cons.1 hx).imp_right fun hothers => ⟨others, rfl, hothers⟩

theorem served_climb {fuel : Nat} {next : Option String}
    (hok : (climb mode fuel s next).1 = .ok found) (hx : x ∈ found) : s.Served mode x := by
  induction fuel generalizing s next found with
  | zero =>
    cases next with
    | none =>
      cases hok
      cases hx
    | some id => cases hok
  | succ fuel ih =>
    cases next with
    | none =>
      cases hok
      cases hx
    | some id =>
      cases hget : acceptIncomplete (s.get (.id id) mode).1 with
      | error e =>
        rw [climb_of_error hget] at hok
        cases hok
      | ok y =>
        rw [climb_of_ok hget] at hok
        rcases mem_of_map_cons hok hx with rfl | ⟨others, hrest, hx⟩
        · exact served_get hget
        · exact served_after_get (ih hrest hx)

theorem served_descend {fuel : Nat} {pending : List String}
    (hok : (descend mode fuel s pending).1 = .ok found) (hx : x ∈ found) : s.Served mode x := by
  induction fuel generalizing s pending found with
  | zero =>
    cases pending with
    | nil =>
      cases hok
      cases hx
    | cons id pending => cases hok
  | succ fuel ih =>
    cases pending with
    | nil =>
      cases hok
      cases hx
    | cons id pending =>
      cases hget : acceptIncomplete (s.get (.id id) mode).1 with
      | error e =>
        rw [descend_of_error hget] at hok
        cases hok
      | ok y =>
        cases hlist : ((s.get (.id id) mode).2.loadList .replies y.id).1 with
        | error e =>
          rw [descend_of_unlisted hget hlist] at hok
          cases hok
        | ok ids =>
          rw [descend_of_ok hget hlist] at hok
          rcases mem_of_map_cons hok hx with rfl | ⟨others, hrest, hx⟩
          · exact served_get hget
          · exact served_after_get ((ih hrest hx).of_fetches (fetches_loadList _ _ _))

theorem served_descendants {id : String} (hok : (s.descendants id mode).1 = .ok found)
    (hx : x ∈ found) : s.Served mode x := by
  have hloaded : Fetches (fun _ => True) s (s.loadList .replies id).2 :=
    s.fetches_loadList .replies id
  unfold descendants at hok
  generalize s.loadList .replies id = loaded at hloaded hok
  obtain ⟨_ | ids, u⟩ := loaded
  · cases hok
  · exact (served_descend hok hx).of_fetches hloaded

/-! ### All reads -/

/-- Whatever a read shows is the answer of one get. -/
theorem served_read {r : Read} (h : (s.read r mode).1.Shows x) : s.Served mode x := by
  generalize hanswer : (s.read r mode).1 = answer at h
  cases r with
  | get l =>
    cases hanswer
    cases h with
    | status haccepted => exact served_get haccepted
  | getMany ids =>
    cases hanswer
    cases h with
    | statuses hlisted => exact served_getMany hlisted
  | replies id | boosts id =>
    cases h with
    | status => cases hanswer
    | statuses hlisted => exact served_listed (Answer.statuses.inj hanswer) hlisted
  | ancestors status =>
    cases h with
    | status => cases hanswer
    | statuses hlisted => exact served_climb (Answer.statuses.inj hanswer) hlisted
  | descendants id =>
    cases h with
    | status => cases hanswer
    | statuses hlisted => exact served_descendants (Answer.statuses.inj hanswer) hlisted
  | usingEmoji emojiId =>
    cases h with
    | status => cases hanswer
    | statuses hlisted => exact served_usingEmoji (Answer.statuses.inj hanswer) hlisted
  | countReplies id | countBoosts id | isBoostedBy id accountId => cases h <;> cases hanswer

end StatusStore.Store
