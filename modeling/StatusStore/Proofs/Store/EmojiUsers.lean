/-
  StatusStore/Proofs/Store/EmojiUsers.lean
  ========================================
  **The statuses that use an emoji.**  They are found by their joins, while a row has
  its emojis in a column of its own.  Every status that is joined is served, since it
  has a row; so what is served is what the rows say as long as the joins are exact,
  and that is so as long as no update takes an emoji out of a row or brings one that
  it does not write.

  Main statements: `servesUsers_iff` and `run_servesUsers`.
-/
import StatusStore.Proofs.Store.Joins
import StatusStore.Proofs.Store.Reads

namespace StatusStore

open Cache Database

namespace Database

variable {t : Tables} {emojiId id : String}

theorem Tables.mem_emojiUsers : id ∈ t.emojiUsers emojiId ↔ (id, emojiId) ∈ t.joins .emojis := by
  have hsame : t.joins .emojis = t.statusEmojis := rfl
  simp [emojiUsers, mem_descending, hsame]

theorem Tables.Joined.emojiUsers_strict (h : t.Joined) (emojiId : String) :
    (t.emojiUsers emojiId).Pairwise (fun a b => b < a) := by
  refine descending_strict (((h.nodup .emojis).filter _).map_on fun p hp q hq hid => ?_)
  have hpe : p.2 = emojiId := by simpa using (List.mem_filter.1 hp).2
  have hqe : q.2 = emojiId := by simpa using (List.mem_filter.1 hq).2
  exact Prod.ext hid (hpe.trans hqe.symm)

end Database

namespace Store

variable {s : Store} {emojiId : String} {mode : Retrieval}

/-- The statuses whose rows name the emoji are served and no others, each once and from the greatest
id to the least. -/
def ServesUsers (s : Store) (emojiId : String) (mode : Retrieval) : Prop :=
  ∃ served, (s.usingEmoji emojiId mode).1 = .ok served ∧
    (served.map (·.id)).Pairwise (fun a b => b < a) ∧
    ∀ id, id ∈ served.map (·.id) ↔
      ∃ r ∈ s.database.tables.statuses, r.value.id = id ∧ emojiId ∈ r.value.emojiIds

/-- Every status that is joined with the emoji is served, populated or not. -/
theorem Rooted.usingEmoji_ids (h : s.Rooted) (hs : s.Tidy) (healthy : s.database.Healthy)
    (joined : s.database.tables.Joined) (emojiId : String) (mode : Retrieval) :
    ∃ served, (s.usingEmoji emojiId mode).1 = .ok served ∧
      served.map (·.id) = s.database.tables.emojiUsers emojiId := by
  have hids : (s.database.emojiStatusIds emojiId).1 = .ok (s.database.tables.emojiUsers emojiId) :=
    select_of_ready healthy.isOpen (healthy.require _) _
  have hquery : s.database.emojiStatusIds emojiId =
      (.ok (s.database.tables.emojiUsers emojiId), (s.database.emojiStatusIds emojiId).2) :=
    Prod.ext hids rfl
  have hread : s.Readable := ⟨healthy.isOpen, healthy.require _⟩
  have hqueried : Fetches readTerms.loads s
      { s with database := (s.database.emojiStatusIds emojiId).2 } := Fetches.refl.queried rfl rfl
  obtain ⟨hu, hrooted, hureadable, htables⟩ := hqueried.rooted hs h hread
  unfold usingEmoji
  rw [hquery]
  refine ⟨_, rfl, hrooted.getMany_ids hu hureadable mode fun id hid => ?_⟩
  exact joined.known .emojis _ (Tables.mem_emojiUsers.1 hid)

/-- The users of all emojis are served as the rows have them just when the joins with emojis are
exact. -/
theorem Rooted.servesUsers_iff (h : s.Rooted) (hs : s.Tidy) (healthy : s.database.Healthy)
    (joined : s.database.tables.Joined) (mode : Retrieval) :
    (∀ emojiId, s.ServesUsers emojiId mode) ↔ s.database.tables.Exact .emojis := by
  constructor
  · rintro hserves ⟨id, emojiId⟩ hp r hr hid
    obtain ⟨served, hanswer, -, hmem⟩ := hserves emojiId
    obtain ⟨served', hanswer', hids⟩ := h.usingEmoji_ids hs healthy joined emojiId mode
    obtain rfl := Except.ok.inj (hanswer.symm.trans hanswer')
    rw [hids] at hmem
    obtain ⟨q, hq, hqid, hemoji⟩ := (hmem id).1 (Tables.mem_emojiUsers.2 hp)
    rw [healthy.intact.eq_of_id hr hq (hid.trans hqid.symm)]
    exact hemoji
  · intro hexact emojiId
    obtain ⟨served, hanswer, hids⟩ := h.usingEmoji_ids hs healthy joined emojiId mode
    refine ⟨served, hanswer, ?_, fun id => ?_⟩
    · rw [hids]
      exact joined.emojiUsers_strict emojiId
    · rw [hids, Tables.mem_emojiUsers]
      exact joined.mem_joins_iff hexact

/-! ### Runs -/

theorem healthy_perform (h : s.database.Healthy) (operation : Operation) :
    (s.perform operation).database.Healthy := by
  have hintact := tables_perform (fun c h => h.call c) h.intact operation
  have hdropped : (s.perform operation).database.tables.dropped = [] :=
    tables_perform (P := (·.dropped = []))
      (fun c h => (s.database.dropped_call c).trans h) h.dropped operation
  exact ⟨(s.frame_perform operation).1.trans h.isOpen, hdropped, hintact.readable, hintact.apart⟩

theorem healthy_run (h : s.database.Healthy) (operations : List Operation) :
    (s.run operations).database.Healthy := by
  induction operations generalizing s with
  | nil => exact h
  | cons operation operations ih => exact ih (healthy_perform h operation)

theorem run_eq_afterAll (s : Store) (operations : List Operation) :
    s.run operations = s.afterAll (operations.map .use) := by
  rw [run, afterAll, List.foldl_map]
  rfl

theorem forall_prefix_run {P : Store → Prop} {operations : List Operation} :
    (∀ before, before <+: operations.map .use → P (s.afterAll before)) ↔
      ∀ before, before <+: operations → P (s.run before) := by
  constructor
  · intro hall before hbefore
    rw [run_eq_afterAll]
    exact hall _ (hbefore.map Event.use)
  · intro hall before hbefore
    rw [List.prefix_iff_eq_take.1 hbefore, ← List.map_take, ← run_eq_afterAll]
    exact hall _ (List.take_prefix _ _)

/-- All along a run the users of every emoji are served as the rows have them, just when no update
takes an emoji out of a row or brings one that it does not write. -/
theorem run_servesUsers {config : Config} {db : Database} {start : Store}
    {operations : List Operation} (hstart : ofDatabase config db = .ok start)
    (healthy : db.Healthy) (joined : db.tables.Joined) (exact : db.tables.Exact .emojis)
    (mode : Retrieval) :
    (∀ before, before <+: operations → ∀ emojiId, (start.run before).ServesUsers emojiId mode) ↔
      start.Along (Covers .emojis) (operations.map .use) := by
  have hbegun : start.database = db := by
    obtain ⟨queue, rfl⟩ := ofDatabase_ok hstart
    rfl
  subst hbegun
  rw [← exact_afterAll_iff healthy.intact joined exact,
    forall_prefix_run (P := (·.database.tables.Exact .emojis))]
  refine forall_congr' fun before => forall_congr' fun _ => ?_
  obtain ⟨htidy, hrooted⟩ := rooted_afterAll hstart healthy.intact (before.map .use)
  obtain ⟨-, hjoined⟩ := joined_afterAll healthy.intact joined (before.map .use)
  rw [← run_eq_afterAll] at htidy hrooted hjoined
  exact hrooted.servesUsers_iff htidy (healthy_run healthy before) hjoined mode

/-! ### An emoji that is taken away -/

/-- Two statuses come to use an emoji, and one of them goes. -/
def decorating : List Operation := [
  .put (joining "A" [] ["E", "E"]) ⟨"T", default⟩,
  .put (joining "B" [] ["F"]) ⟨"U", default⟩,
  .update (joining "B" [] ["F", "E"]) [.emojiIds] default,
  .update (joining "A" [] ["E"]) [.content] default,
  .read (.usingEmoji "E") .full,
  .restart,
  .delete "A"]

theorem run_servesUsers_decorating :
    Healthy {} ∧ Tables.Joined {} ∧ Tables.Exact {} .emojis ∧
      (∀ before, before <+: decorating → ∀ emojiId,
        (beginning.run before).ServesUsers emojiId .barebones) ∧
      (beginning.run (decorating.take 4)).database.tables.joins .emojis =
        [("A", "E"), ("B", "F"), ("B", "E")] := by
  have healthy : Healthy {} := ⟨rfl, rfl, by simp, by simp⟩
  have joined : Tables.Joined {} := Tables.joined_empty
  have exact : Tables.Exact {} .emojis := by
    intro p hp
    cases hp
  have hcovers : beginning.Along (Covers .emojis) (decorating.map .use) := by
    refine ⟨?_, ?_, ?_, ?_, ?_, ?_, ?_, trivial⟩ <;> rintro _ ⟨⟩
    · trivial
    · trivial
    · intro _
      decide +kernel
    · intro _
      decide +kernel
    · trivial
    · trivial
    · trivial
  exact ⟨healthy, joined, exact,
    (run_servesUsers ofDatabase_beginning healthy joined exact .barebones).2 hcovers,
    by decide +kernel⟩

/-- A status whose emoji was taken out of its row is served among the users of the emoji. -/
theorem update_keeps_emoji_user :
    let begun := beginning.run [.put (joining "A" [] ["E"]) ⟨"T", default⟩]
    let bared := begun.update (joining "A" [] []) [.emojiIds] default
    bared.1.toOption = some () ∧ (∀ r ∈ bared.2.2.database.tables.statuses, r.value.emojiIds = []) ∧
      (bared.2.2.usingEmoji "E" .barebones).1.toOption.map (·.map (·.id)) = some ["A"] ∧
      ¬ bared.2.2.ServesUsers "E" .barebones := by
  intro begun bared
  have hrows : ∀ r ∈ bared.2.2.database.tables.statuses, r.value.emojiIds = [] := by decide +kernel
  have hids : (bared.2.2.usingEmoji "E" .barebones).1.toOption.map (·.map (·.id)) = some ["A"] := by
    decide +kernel
  refine ⟨by decide +kernel, hrows, hids, ?_⟩
  rintro ⟨served, hanswer, -, hmem⟩
  rw [hanswer] at hids
  obtain ⟨r, hr, -, hemoji⟩ := (hmem "A").1 (by simp [Option.some.inj hids])
  rw [hrows r hr] at hemoji
  cases hemoji

end Store

end StatusStore
