/-
  StatusStore/Proofs/Store/Transparency.lean
  ==========================================
  **Caches cannot be seen.**  A store is started before a healthy database and used
  by one caller at a time, in any order of writes, reads and restarts.  Then every
  barebones read answers what it would answer if all caches were emptied just before
  it.

  The store stays coherent throughout (`run_coherent`), and two coherent stores
  before the same tables answer alike (`Coherent.read_congr`); main statement:
  `run_read_emptied`.
-/
import StatusStore.Proofs.Store.Runs
import StatusStore.Proofs.Store.Walks
import StatusStore.Proofs.Store.Writes

namespace StatusStore.Store

open Cache Database

def emptied (s : Store) : Store := { s with caches := s.caches.restarted }

/-! ### What is asked of a run -/

/-- Whether an operation may be used: a read must be plain, and an update must be given a revision of
the row that it is to change. -/
def Admits (s : Store) : Operation → Prop
  | .read r _ => r.IsPlain
  | .update status columns _ => ∀ r ∈ s.database.tables.statuses, r.value.id = status.id →
      status.Revises columns r.value
  | _ => True

/-- No two statuses share a url or a poll, and no status is above itself. -/
structure Orderly (s : Store) : Prop where
  distinct : s.database.tables.Distinct
  acyclic : s.database.tables.Acyclic

/-- Every state of a run is orderly, and every operation may be used where it is. -/
def Admissible : Store → List Operation → Prop
  | s, [] => s.Orderly
  | s, operation :: rest =>
    s.Orderly ∧ s.Admits operation ∧ Admissible (s.perform operation) rest

theorem Admissible.orderly {s : Store} {operations : List Operation}
    (h : s.Admissible operations) : s.Orderly := by
  cases operations with
  | nil => exact h
  | cons operation rest => exact h.1

/-! ### Every state is coherent -/

variable {s u : Store}

theorem Coherent.perform {operation : Operation} (h : s.Coherent) (hadmits : s.Admits operation)
    (hdistinct : (s.perform operation).database.tables.Distinct) :
    (s.perform operation).Coherent := by
  cases operation with
  | put status fresh => exact h.put hdistinct
  | update status columns now => exact h.update hadmits hdistinct
  | delete id => exact h.delete id hdistinct
  | read r mode => exact ((fetches_read (fun _ => trivial) (fun _ => hadmits.lookup) s mode).keeps h).1
  | populate status => exact ((s.fetches_populate (fun _ => trivial) status).keeps h).1
  | restart => exact h.restarted

/-- An admissible run is coherent wherever it is looked at. -/
theorem run_coherent {before after : List Operation} (h : s.Coherent)
    (hadmissible : s.Admissible (before ++ after)) :
    (s.run before).Coherent ∧ (s.run before).Admissible after := by
  induction before generalizing s with
  | nil => exact ⟨h, hadmissible⟩
  | cons operation before ih =>
    obtain ⟨-, hadmits, hrest⟩ := hadmissible
    exact ih (h.perform hadmits hrest.orderly.distinct) hrest

theorem coherent_ofDatabase {config : Config} {db : Database}
    (hstart : ofDatabase config db = .ok s) (healthy : db.Healthy)
    (distinct : s.database.tables.Distinct) : s.Coherent := by
  obtain ⟨queue, rfl⟩ := ofDatabase_ok hstart
  refine Coherent.of_empty healthy distinct rfl ?_
  intro kind
  cases kind <;> rfl

/-! ### Coherent stores answer alike -/

/-- What is read is in the tables, whatever is cached. -/
theorem Coherent.read_congr {r : Read} (hs : s.Coherent) (hu : u.Coherent)
    (htables : u.database.tables = s.database.tables) (hacyclic : s.database.tables.Acyclic)
    (hr : r.IsPlain) : (u.read r .barebones).1 = (s.read r .barebones).1 := by
  have hlisted : ∀ kind id,
      (u.listed kind id .barebones).1 = (s.listed kind id .barebones).1 := by
    intro kind id
    rw [hu.list, hs.list, htables]
  have hcounted : ∀ kind id, (u.countListed kind id).1 = (s.countListed kind id).1 := by
    intro kind id
    rw [hu.countListed, hs.countListed, htables]
  have hacyclic' : u.database.tables.Acyclic := htables ▸ hacyclic
  cases r with
  | get l =>
    obtain ⟨u', hget, -⟩ := hu.get hr
    obtain ⟨s', hget', -⟩ := hs.get hr
    simp only [Store.read, hget, hget', htables, Prod.map_apply]
  | getMany ids =>
    have hsame : (u.getMany .barebones ids).1 = (s.getMany .barebones ids).1 := by
      rw [hu.getMany, hs.getMany, htables]
    exact congrArg (Answer.statuses <| .ok ·) hsame
  | replies id => exact congrArg Answer.statuses (hlisted .replies id)
  | boosts id => exact congrArg Answer.statuses (hlisted .boosts id)
  | countReplies id => exact congrArg Answer.count (hcounted .replies id)
  | countBoosts id => exact congrArg Answer.count (hcounted .boosts id)
  | isBoostedBy id accountId =>
    have hsame : (u.isBoostedBy id accountId).1 = (s.isBoostedBy id accountId).1 := by
      rw [hu.isBoostedBy hr, hs.isBoostedBy hr, htables]
    exact congrArg Answer.truth hsame
  | ancestors status =>
    have hup : u.database.tables.WayUp status.inReplyToId (u.ancestors status .barebones).1 :=
      hu.ancestors fun _ _ a _ => hacyclic' a
    have hsp : s.database.tables.WayUp status.inReplyToId (s.ancestors status .barebones).1 :=
      hs.ancestors fun _ _ a _ => hacyclic a
    rw [htables] at hup
    exact congrArg Answer.statuses (hup.unique hsp)
  | descendants id =>
    have hup := hu.descendants (hacyclic' id)
    have hsp := hs.descendants (hacyclic id)
    rw [htables] at hup
    exact congrArg Answer.statuses (hup.unique hsp)
  | usingEmoji emojiId =>
    have hsame : (u.usingEmoji emojiId .barebones).1 = (s.usingEmoji emojiId .barebones).1 := by
      rw [hu.usingEmoji, hs.usingEmoji, htables]
    exact congrArg Answer.statuses hsame

theorem Coherent.emptied (h : s.Coherent) : s.emptied.Coherent := by
  refine Coherent.of_empty h.healthy h.distinct rfl ?_
  intro kind
  cases kind <;> rfl

/-- Every barebones read in an admissible run answers what it answers when all caches are emptied
just before it. -/
theorem run_read_emptied {config : Config} {db : Database} {start : Store}
    {before after : List Operation} {r : Read} (hstart : ofDatabase config db = .ok start)
    (healthy : db.Healthy)
    (hadmissible : start.Admissible (before ++ .read r .barebones :: after)) :
    ((start.run before).read r .barebones).1 =
      ((start.run before).emptied.read r .barebones).1 := by
  have hcoherent := coherent_ofDatabase hstart healthy hadmissible.orderly.distinct
  obtain ⟨hbefore, horderly, hplain, -⟩ := run_coherent hcoherent hadmissible
  exact hbefore.emptied.read_congr hbefore rfl horderly.acyclic hplain

/-! ### A conversation -/

/-- A status and a reply to it; the replies are read in between, so that an empty list is cached. -/
def conversation : List Operation := [
  .put { (default : Status) with id := "01A", uri := "https://ex.test/01A" } ⟨"T", default⟩,
  .read (.replies "01A") .full,
  .put { (default : Status) with
    id := "01B", uri := "https://ex.test/01B", inReplyToId := some "01A" } ⟨"U", default⟩]

/-- Where every reply has a greater id than its parent, as generated ids have, and there are no urls
and no polls, nothing more is asked of the rows. -/
theorem orderly_of_newer
    (hplain : ∀ r ∈ s.database.tables.statuses, r.value.url = none ∧ r.value.pollId = none)
    (hnewer : ∀ r ∈ s.database.tables.statuses, ∀ parent ∈ r.value.inReplyToId,
      parent < r.value.id) : s.Orderly where
  distinct := by
    constructor
    · intro q hq r _ url hurl
      rw [(hplain q hq).1] at hurl
      cases hurl
    · intro q hq r _ pollId hpoll
      rw [(hplain q hq).2] at hpoll
      cases hpoll
  acyclic := by
    have hup : ∀ {a b : String}, Relation.TransGen s.database.tables.ReplyTo a b → b < a := by
      intro a b hab
      induction hab with
      | single hreply =>
        obtain ⟨r, hr, rfl, hparent⟩ := hreply
        exact hnewer r hr _ hparent
      | tail _ hreply ih =>
        obtain ⟨r, hr, rfl, hparent⟩ := hreply
        exact String.lt_trans (hnewer r hr _ hparent) ih
    exact fun a ha => String.lt_irrefl a (hup ha)

theorem run_read_emptied_conversation :
    beginning.Admissible (conversation ++ [.read (.descendants "01A") .barebones]) ∧
      ((beginning.run conversation).read (.descendants "01A") .barebones).1 =
        ((beginning.run conversation).emptied.read (.descendants "01A") .barebones).1 := by
  have healthy : Database.Healthy {} := ⟨rfl, rfl, by simp, by simp⟩
  have hadmissible :
      beginning.Admissible (conversation ++ [.read (.descendants "01A") .barebones]) := by
    refine ⟨orderly_of_newer ?_ ?_, trivial, orderly_of_newer ?_ ?_, trivial,
      orderly_of_newer ?_ ?_, trivial, orderly_of_newer ?_ ?_, trivial, orderly_of_newer ?_ ?_⟩
    all_goals decide +kernel
  exact ⟨hadmissible, run_read_emptied ofDatabase_beginning healthy hadmissible⟩

end StatusStore.Store
