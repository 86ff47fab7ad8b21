/-
  StatusStore/Proofs/Store/Kinship.lean
  =====================================
  **Who is above a status and who is below it.**  In a store whose caches agree with the
  tables, the walk down from an id that is on no cycle lists the tree of replies below
  it, and the walk up from a status the chain of its parents, whatever is cached and
  however much of a status can be populated.  Cycles elsewhere do no harm.

  Main statements: `descendants_subtree` and `ancestors_chain`, by which moreover a
  status is above another just if that is below it.
-/
import StatusStore.Proofs.Store.Runs
import StatusStore.Proofs.Store.Walks

namespace StatusStore.Store

open Cache Database

variable {s u : Store} {t : Tables} {id : String} {mode : Retrieval} {status : Status}
  {above : List Status}

theorem agreesWith_ofDatabase {config : Config} {db : Database}
    (hstart : ofDatabase config db = .ok s) (hopen : db.isClosed = false)
    (hthere : db.tables.require .statuses = .ok ()) (hapart : db.tables.Apart) :
    s.AgreesWith db.tables := by
  have hordered := ordered_ofDatabase hstart
  obtain ⟨queue, rfl⟩ := ofDatabase_ok hstart
  refine ⟨rfl, ⟨hopen, hthere⟩, hapart, hordered, fun hw => ?_, fun hl => ?_⟩
  · cases hw
  · cases hl

namespace AgreesWith

/-! ### Below -/

theorem descendants_ok (h : s.AgreesWith t) (hcycle : ¬ t.OnCycle id)
    (hreads : ∀ r ∈ t.statuses, t.DescendsFrom r.value.id id → r.value? = .ok r.value)
    (mode : Retrieval) :
    ∃ found, (s.descendants id mode).1 = .ok found ∧ found.map (·.id) = t.subtree id ∧
      ∀ x ∈ found, s.Yields mode x := by
  obtain ⟨hends, hsame⟩ := h.descend_eq_descendants mode hcycle (Nat.lt_succ_self _)
  rw [← hsame] at hends ⊢
  obtain ⟨expected, hway, hanswers⟩ := (h.loadList .replies id).descend_answers hends
  replace hanswers := hanswers.of_fetches (s.fetches_loadList .replies id)
  generalize (descend mode (t.statuses.length + 1) (s.loadList .replies id).2
    (t.listed .replies id)).1 = answer at hanswers ⊢
  cases hanswers with
  | @found xs hall =>
    refine ⟨xs, rfl, ?_, hall⟩
    have hids := hway.ids h.apart fun a ha => h.apart.not_onCycle_of_reply hcycle ha
    rw [List.map_map] at hids
    exact hids.trans (Tables.subtree_eq h.apart hcycle).symm
  | @failed e =>
    -- The walk comes only by rows that descend from `id`, and these all read.
    have hstep : ∀ {a w}, t.DescendsFrom a id → t.status (.id a) = .ok w →
        ∀ y ∈ t.listed .replies w.id, t.DescendsFrom y id := by
      intro a w ha hw y hy
      rw [Tables.id_of_status hw] at hy
      exact Relation.TransGen.head (Tables.mem_replies.1 hy) ha
    obtain ⟨x, hx, hfailed⟩ := hway.failed hstep fun y hy =>
      Relation.TransGen.single (Tables.mem_replies.1 hy)
    obtain ⟨r, hr, rfl⟩ := hx.row
    rw [h.apart.status_id hr (hreads r hr hx)] at hfailed
    cases hfailed

/-! ### Above -/

theorem ancestors_ok (h : s.AgreesWith t) (hok : (s.ancestors status mode).1 = .ok above) :
    t.Chain status.inReplyToId (above.map (·.toRow)) ∧ ∀ x ∈ above, s.Yields mode x := by
  have hends : (s.ancestors status mode).1 ≠ endless := by
    rw [hok]
    exact nofun
  obtain ⟨expected, hway, hanswers⟩ := h.climb_answers hends
  change s.Answers mode (s.ancestors status mode).1 expected at hanswers
  rw [hok] at hanswers
  cases hanswers with
  | found hall =>
    have hchain := hway.chain
    rw [List.map_map] at hchain
    have hrows : above.map ((·.toRow) ∘ Status.barebones) = above.map (·.toRow) :=
      List.map_congr_left fun x _ => x.toRow_barebones
    exact ⟨hrows ▸ hchain, hall⟩

/-- Where the rows above read, ancestors are only not answered for the want of a row. -/
theorem ancestors_error {e : Error} (h : s.AgreesWith t)
    (hends : (s.ancestors status mode).1 ≠ endless)
    (hreads : ∀ r ∈ t.statuses, t.OnWayUp status.inReplyToId r.value.id → r.value? = .ok r.value)
    (hfailed : (s.ancestors status mode).1 = .error e) :
    e = .notFound ∧ ∃ x, t.OnWayUp status.inReplyToId x ∧ ∀ r ∈ t.statuses, r.value.id ≠ x := by
  obtain ⟨expected, hway, hanswers⟩ := h.climb_answers hends
  change s.Answers mode (s.ancestors status mode).1 expected at hanswers
  rw [hfailed] at hanswers
  cases hanswers
  have hstep : ∀ {a w}, t.OnWayUp status.inReplyToId a → t.status (.id a) = .ok w →
      ∀ y ∈ w.inReplyToId.toList, t.OnWayUp status.inReplyToId y := by
    intro a w ha hw y hy
    obtain ⟨r, hrow, -, rfl⟩ := Tables.row_of_status hw
    exact ha.parent ⟨r, Tables.mem_of_statusRow? hrow, Tables.id_of_status hw, Option.mem_toList.1 hy⟩
  obtain ⟨x, hx, hstatus⟩ := hway.failed hstep fun y hy =>
    ⟨y, Option.mem_toList.1 hy, Tables.LeadsTo.refl t y⟩
  rcases Tables.status_eq_error hstatus with ⟨hnone, rfl⟩ | ⟨r, fault, hrow, hunread, -⟩
  · refine ⟨rfl, x, hx, fun r hr hid => ?_⟩
    have hother := Tables.statusRow?_eq_none.1 hnone r hr
    rw [Lookup.describes_id.2 hid] at hother
    cases hother
  · have hid := Lookup.describes_id.1 (Tables.describes_of_statusRow? hrow)
    rw [hreads r (Tables.mem_of_statusRow? hrow) (hid ▸ hx)] at hunread
    cases hunread

end AgreesWith

/-! ### The tree below an id -/

/-- The walk down from an id that is on no cycle, whether it has a row or not, comes to its end, with
any bound that exceeds the number of rows.  It answers the tree of replies below: every status that
descends from the id, once, in the order in which the replies to a status, from the greatest id to the
least, are each followed by what is below them. -/
theorem descendants_subtree (h : s.AgreesWith t) (hcycle : ¬ t.OnCycle id)
    (hreads : ∀ r ∈ t.statuses, t.DescendsFrom r.value.id id → r.value? = .ok r.value)
    (mode : Retrieval) :
    (∃ found, (s.descendants id mode).1 = .ok found ∧ found.map (·.id) = t.subtree id ∧
      ∀ x ∈ found, s.Yields mode x) ∧
    (∀ bound, t.statuses.length < bound →
      descend mode bound (s.loadList .replies id).2 (t.listed .replies id) =
        s.descendants id mode) ∧
    (∀ x, x ∈ t.subtree id ↔ t.DescendsFrom x id) ∧ (t.subtree id).Nodup ∧
    (∀ a, ¬ t.OnCycle a →
      t.subtree a = (t.listed .replies a).flatMap fun reply => reply :: t.subtree reply) ∧
    ∀ a, (t.listed .replies a).Pairwise fun x y => y < x :=
  ⟨h.descendants_ok hcycle hreads mode,
    fun _ hbound => (h.descend_eq_descendants mode hcycle hbound).2,
    fun _ => Tables.mem_subtree h.apart hcycle, Tables.subtree_nodup h.apart hcycle,
    fun _ => Tables.subtree_eq h.apart, h.apart.listed_descending .replies⟩

def relative (id : String) (inReplyToId : Option String) : Stored StatusRow :=
  { value := { (default : StatusRow) with id, uri := id, inReplyToId } }

/-- Two replies to one status and a reply to the older of them; a reply to what is not there; and two
that are replies to each other.  Nobody's account is there. -/
def family : Tables where
  statuses := [relative "01A" none, relative "01B" (some "01A"), relative "01C" (some "01A"),
    relative "01D" (some "01B"), relative "01M" (some "01L"), relative "01X" (some "01Y"),
    relative "01Y" (some "01X")]

/-- One of them has been read, in full, and a list of replies. -/
def familyStore : Store :=
  let start : Store := { beginning with database := { tables := family } }
  ((start.get (.id "01D") .full).2.loadList .replies "01A").2

theorem apart_family : family.Apart := by
  unfold Tables.Apart
  decide +kernel

theorem agreesWith_family : familyStore.AgreesWith family := by
  have hstart : ofDatabase ⟨"", 1, 1, "info", "pretty"⟩ { tables := family } =
      .ok { beginning with database := { tables := family } } := rfl
  have hfresh := agreesWith_ofDatabase hstart rfl rfl apart_family
  exact hfresh.fetched ((fetches_getId _ "01D" .full).loadList .replies "01A")

theorem reads_family : ∀ r ∈ family.statuses, r.value? = .ok r.value := by
  have hgarbled : ∀ r ∈ family.statuses, r.garbled = [] := by decide +kernel
  exact fun r hr => r.read_of_garbled_nil _ (hgarbled r hr)

/-- The rows above the reply to the reply. -/
theorem chain_family : family.Chain (some "01B")
    [(relative "01B" (some "01A")).value, (relative "01A" none).value] :=
  .parent (r := relative "01B" (some "01A")) (by decide +kernel)
    (.parent (r := relative "01A" none) (by decide +kernel) .top)

theorem onWayUp_family : family.OnWayUp (some "01B") "01A" :=
  (chain_family.onWayUp_iff apart_family).2
    ⟨relative "01A" none, by decide +kernel, by decide +kernel, rfl⟩

theorem not_onCycle_family : ¬ family.OnCycle "01A" :=
  chain_family.not_onCycle apart_family onWayUp_family

theorem descendants_subtree_family :
    ∃ found, (familyStore.descendants "01A" .full).1 = .ok found ∧
      found.map (·.id) = ["01C", "01B", "01D"] := by
  obtain ⟨⟨found, hok, hids, -⟩, -⟩ := descendants_subtree agreesWith_family not_onCycle_family
    (fun r hr _ => reads_family r hr) .full
  have htree : family.subtree "01A" = ["01C", "01B", "01D"] := by
    simp [Tables.subtree, Tables.repliesWithin, Tables.listed, Tables.statusIds, family, relative,
      ListKind.selects, descending, List.mergeSort, List.MergeSort.Internal.splitInTwo]
  exact ⟨found, hok, hids.trans htree⟩

/-! ### The chain above a status, and both together -/

/-- The walk up from a status, where it meets no cycle, comes to its end, with any bound that exceeds
the number of rows.  It answers the chain of parents, the nearest first, each as it could be populated,
unless an id on the way has no row.  And where it answers, a stored status on no cycle is among the
ancestors of another just if that is among the descendants of the first, whatever stores with these
tables are asked. -/
theorem ancestors_chain (h : s.AgreesWith t) :
    (∀ (status : Status) (mode : Retrieval),
      (∀ x, t.OnWayUp status.inReplyToId x → ¬ t.OnCycle x) →
      (∀ r ∈ t.statuses, t.OnWayUp status.inReplyToId r.value.id → r.value? = .ok r.value) →
      (∀ bound, t.statuses.length < bound →
        climb mode bound s status.inReplyToId = s.ancestors status mode) ∧
      ((s.ancestors status mode).1 = .error .notFound ↔
        ∃ x, t.OnWayUp status.inReplyToId x ∧ ∀ r ∈ t.statuses, r.value.id ≠ x) ∧
      ((s.ancestors status mode).1 ≠ .error .notFound →
        ∃ above, (s.ancestors status mode).1 = .ok above ∧
          t.Chain status.inReplyToId (above.map (·.toRow)) ∧ ∀ x ∈ above, s.Yields mode x)) ∧
    ∀ (u : Store) (q r : Stored StatusRow) (status : Status) (above : List Status)
      (mode mode' : Retrieval), u.AgreesWith t → q ∈ t.statuses → r ∈ t.statuses →
      status.toRow = r.value → (s.ancestors status mode).1 = .ok above →
      ¬ t.OnCycle q.value.id →
      (∀ p ∈ t.statuses, t.DescendsFrom p.value.id q.value.id → p.value? = .ok p.value) →
      ∃ below, (u.descendants q.value.id mode').1 = .ok below ∧
        ((∃ x ∈ above, x.toRow = q.value) ↔ ∃ x ∈ below, x.toRow = r.value) := by
  constructor
  · intro status mode hcycle hreads
    obtain ⟨hends, -⟩ := h.climb_eq_ancestors mode hcycle (Nat.lt_succ_self _)
    refine ⟨fun _ hbound => (h.climb_eq_ancestors mode hcycle hbound).2, ?_⟩
    cases hanswer : (s.ancestors status mode).1 with
    | error e =>
      obtain ⟨rfl, hmissing⟩ := h.ancestors_error hends hreads hanswer
      exact ⟨iff_of_true rfl hmissing, fun hfound => absurd rfl hfound⟩
    | ok above =>
      obtain ⟨hchain, hyields⟩ := h.ancestors_ok hanswer
      refine ⟨iff_of_false nofun ?_, fun _ => ⟨above, rfl, hchain, hyields⟩⟩
      rintro ⟨x, hx, hnone⟩
      obtain ⟨r, hr, -, hid⟩ := (hchain.onWayUp_iff h.apart).1 hx
      exact hnone r hr hid
  · intro u q r status above mode mode' hu hq hr hrow hok hcycle hreads
    obtain ⟨below, hbelow, hids, hyields⟩ := hu.descendants_ok hcycle hreads mode'
    obtain ⟨hchain, -⟩ := h.ancestors_ok hok
    have hparent : status.inReplyToId = r.value.inReplyToId := congrArg (·.inReplyToId) hrow
    rw [hparent] at hchain
    refine ⟨below, hbelow, Iff.trans ?_ ((hchain.mem_iff_subtree h.apart hq hr hcycle).trans ?_)⟩
    · exact List.mem_map.symm
    · rw [← hids, List.mem_map]
      refine exists_congr fun x => and_congr_right fun hx => ⟨fun hid => ?_, fun hx => ?_⟩
      · obtain ⟨p, hp, hstored⟩ := (hyields x hx).stored
        rw [hu.tables] at hp
        have hpid : p.value.id = r.value.id := (congrArg (·.id) hstored).trans hid
        rw [← hstored, hu.apart.eq_of_id hp hr hpid]
      · exact congrArg (·.id) hx

/-- The chain is found and the reply to the reply is below its end, but the parent of another is not
there. -/
theorem ancestors_chain_family :
    (familyStore.ancestors (.ofRow (relative "01M" (some "01L")).value) .full).1 =
        .error .notFound ∧
      ∃ above below,
        (familyStore.ancestors (.ofRow (relative "01D" (some "01B")).value) .full).1 = .ok above ∧
          (familyStore.descendants "01A" .full).1 = .ok below ∧
          (∃ x ∈ above, x.toRow = (relative "01A" none).value) ∧
          ∃ x ∈ below, x.toRow = (relative "01D" (some "01B")).value := by
  obtain ⟨hup, hboth⟩ := ancestors_chain agreesWith_family
  have hreads : ∀ {parent}, ∀ r ∈ family.statuses, family.OnWayUp parent r.value.id →
      r.value? = .ok r.value := fun r hr _ => reads_family r hr
  constructor
  · have hnone : ∀ r ∈ family.statuses, r.value.id ≠ "01L" := by decide +kernel
    have hrowless : ∀ {x}, ¬ family.ReplyTo "01L" x := fun ⟨r, hr, hid, _⟩ => hnone r hr hid
    have hend : ∀ x, family.OnWayUp (some "01L") x → ¬ family.OnCycle x := by
      rintro x ⟨id, hid, hx⟩ hcycle
      obtain rfl := Option.some.inj hid
      rcases Relation.ReflTransGen.cases_head hx with rfl | ⟨b, hreply, -⟩
      · obtain ⟨b, hreply, -⟩ := Relation.TransGen.head'_iff.1 hcycle
        exact hrowless hreply
      · exact hrowless hreply
    obtain ⟨-, hmissing, -⟩ := hup (.ofRow (relative "01M" (some "01L")).value) .full hend hreads
    exact hmissing.2 ⟨"01L", ⟨"01L", rfl, Tables.LeadsTo.refl _ _⟩, hnone⟩
  · obtain ⟨-, hmissing, hanswered⟩ :=
      hup (.ofRow (relative "01D" (some "01B")).value) .full
        (fun x hx => chain_family.not_onCycle apart_family hx) hreads
    obtain ⟨above, hok, hchain, -⟩ := hanswered fun hlost => by
      obtain ⟨x, hx, hnone⟩ := hmissing.1 hlost
      obtain ⟨r, hr, -, hid⟩ := (chain_family.onWayUp_iff apart_family).1 hx
      exact hnone r hr hid
    obtain ⟨r, hr, hin, hid⟩ := (hchain.onWayUp_iff apart_family).1 onWayUp_family
    have hfirst : relative "01A" none ∈ family.statuses := by decide +kernel
    obtain rfl := apart_family.eq_of_id hr hfirst hid
    obtain ⟨below, hbelow, hdual⟩ := hboth familyStore _ (relative "01D" (some "01B")) _ above .full
      .full agreesWith_family hfirst (by decide +kernel) (Status.toRow_ofRow _) hok
      not_onCycle_family fun p hp _ => reads_family p hp
    exact ⟨above, below, hok, hbelow, List.mem_map.1 hin, hdual.1 (List.mem_map.1 hin)⟩

end StatusStore.Store
