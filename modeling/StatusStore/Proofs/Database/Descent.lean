/-
  StatusStore/Proofs/Database/Descent.lean
  ========================================
  **The tree of replies below a status, and the chain of parents above it.**  The
  tree is listed as a reader goes through it: each reply, the newest first, and right
  after it the replies below it.  The rows keep only the parents, so that the
  recursion takes its depth from the number of rows, which is enough wherever no
  cycle is met (`subtree_eq`).

  Main statements: `mem_subtree` and `subtree_nodup`, and `Chain.mem_iff_subtree`, by
  which tree and chain are dual.
-/
import Mathlib.Data.List.Nodup
import StatusStore.Proofs.Database.Replies

namespace StatusStore.Database.Tables

open Cache

variable {t : Tables} {a b x id : String}

/-- Whether the status with the id `a` is a reply to `b`, or to one that is, and so on. -/
def DescendsFrom (t : Tables) (a b : String) : Prop := Relation.TransGen t.ReplyTo a b

theorem DescendsFrom.leadsTo (h : t.DescendsFrom a b) : t.LeadsTo a b :=
  Relation.TransGen.to_reflTransGen h

theorem DescendsFrom.row (h : t.DescendsFrom a b) : ∃ r ∈ t.statuses, r.value.id = a := by
  obtain ⟨c, ⟨r, hr, hid, -⟩, -⟩ := Relation.TransGen.head'_iff.1 h
  exact ⟨r, hr, hid⟩

theorem Apart.not_onCycle_of_reply (h : t.Apart) (hcycle : ¬ t.OnCycle id)
    (hreply : a ∈ t.listed .replies id) : ¬ t.OnCycle a :=
  fun ha => hcycle (onCycle_of_replyTo h.parent_unique (mem_replies.1 hreply) ha)

/-! ### The tree of replies -/

/-- The replies below `id`, in at most `depth` generations: each, the newest first, and right after
it those below it. -/
def repliesWithin (t : Tables) : Nat → String → List String
  | 0, _ => []
  | depth + 1, id => (t.listed .replies id).flatMap fun reply => reply :: t.repliesWithin depth reply

/-- All replies below `id`.  There are no more generations than rows. -/
def subtree (t : Tables) (id : String) : List String := t.repliesWithin t.statuses.length id

noncomputable def descent (t : Tables) (id : String) : Nat := t.rowsWith (t.DescendsFrom · id)

theorem descent_reply (hreply : a ∈ t.listed .replies id) (hcycle : ¬ t.OnCycle a) :
    t.descent a < t.descent id := by
  have hup : t.ReplyTo a id := mem_replies.1 hreply
  obtain ⟨r, hr, hid⟩ := DescendsFrom.row (Relation.TransGen.single hup)
  subst hid
  exact rowsWith_lt (fun x hx => Relation.TransGen.tail hx hup) hr (Relation.TransGen.single hup)
    hcycle

/-- One generation more adds nothing once there are as many as rows that descend. -/
theorem repliesWithin_succ (h : t.Apart) {depth : Nat} (hcycle : ¬ t.OnCycle id)
    (hdepth : t.descent id ≤ depth) : t.repliesWithin (depth + 1) id = t.repliesWithin depth id := by
  induction depth generalizing id with
  | zero =>
    -- A reply on no cycle has fewer rows that descend from it, and there are none already.
    have hnone : t.listed .replies id = [] := by
      refine List.eq_nil_iff_forall_not_mem.2 fun a ha => ?_
      have hless := descent_reply ha (h.not_onCycle_of_reply hcycle ha)
      omega
    simp [repliesWithin, hnone]
  | succ depth ih =>
    rw [repliesWithin, repliesWithin]
    refine List.flatMap_congr fun a ha => ?_
    have hacyclic := h.not_onCycle_of_reply hcycle ha
    have hless := descent_reply ha hacyclic
    rw [ih hacyclic (by omega)]

theorem subtree_eq (h : t.Apart) (hcycle : ¬ t.OnCycle id) :
    t.subtree id = (t.listed .replies id).flatMap fun reply => reply :: t.subtree reply :=
  (repliesWithin_succ h hcycle (t.rowsWith_le_length _)).symm

theorem descendsFrom_of_mem_repliesWithin {depth : Nat} (hx : x ∈ t.repliesWithin depth id) :
    t.DescendsFrom x id := by
  induction depth generalizing id with
  | zero => cases hx
  | succ depth ih =>
    obtain ⟨a, ha, hx⟩ := List.mem_flatMap.1 hx
    have hreply := mem_replies.1 ha
    rcases List.mem_cons.1 hx with rfl | hx
    · exact Relation.TransGen.single hreply
    · exact Relation.TransGen.tail (ih hx) hreply

/-- In the tree is what descends from its root, whether there is a row for that or not. -/
theorem mem_subtree (h : t.Apart) (hcycle : ¬ t.OnCycle id) :
    x ∈ t.subtree id ↔ t.DescendsFrom x id := by
  refine ⟨descendsFrom_of_mem_repliesWithin, fun hx => ?_⟩
  induction hx with
  | single hreply =>
    rw [subtree_eq h hcycle]
    exact List.mem_flatMap.2 ⟨x, mem_replies.2 hreply, List.mem_cons_self⟩
  | @tail b c _ hreply ih =>
    have hb := mem_replies.2 hreply
    rw [subtree_eq h hcycle]
    exact List.mem_flatMap.2 ⟨b, hb, List.mem_cons_of_mem b (ih (h.not_onCycle_of_reply hcycle hb))⟩

theorem repliesWithin_nodup (h : t.Apart) (depth : Nat) (hcycle : ¬ t.OnCycle id) :
    (t.repliesWithin depth id).Nodup := by
  induction depth generalizing id with
  | zero => exact List.nodup_nil
  | succ depth ih =>
    refine List.nodup_flatMap.2 ⟨fun a ha => ?_, ?_⟩
    · have hacyclic := h.not_onCycle_of_reply hcycle ha
      exact List.nodup_cons.2
        ⟨fun hback => hacyclic (descendsFrom_of_mem_repliesWithin hback), ih hacyclic⟩
    · -- A status in the trees of two replies would lead to both, and so the one to the other.
      apply (h.front_replies hcycle).apart.imp
      intro a b ⟨hab, hba⟩ x hxa hxb
      have hleads : ∀ {c}, x ∈ c :: t.repliesWithin depth c → t.LeadsTo x c := by
        intro c hx
        rcases List.mem_cons.1 hx with rfl | hx
        · exact LeadsTo.refl t x
        · exact (descendsFrom_of_mem_repliesWithin hx).leadsTo
      have hunique : Relator.RightUnique t.ReplyTo := fun _ _ _ => h.parent_unique
      exact (Relation.ReflTransGen.total_of_right_unique hunique (hleads hxa) (hleads hxb)).elim
        hab hba

theorem subtree_nodup (h : t.Apart) (hcycle : ¬ t.OnCycle id) : (t.subtree id).Nodup :=
  repliesWithin_nodup h _ hcycle

/-! ### The chain of parents -/

/-- Whether the status with the id `x` is come by on the way up from `parent`. -/
def OnWayUp (t : Tables) (parent : Option String) (x : String) : Prop :=
  ∃ id ∈ parent, t.LeadsTo id x

theorem OnWayUp.parent {parent : Option String} (ha : t.OnWayUp parent a) (hab : t.ReplyTo a b) :
    t.OnWayUp parent b := by
  obtain ⟨id, hid, hleads⟩ := ha
  exact ⟨id, hid, Relation.ReflTransGen.tail hleads hab⟩

/-- The rows from `parent` up to one that has no parent. -/
inductive Chain (t : Tables) : Option String → List StatusRow → Prop
  | top : Chain t none []
  | parent {r : Stored StatusRow} {rest : List StatusRow} (hr : r ∈ t.statuses)
      (above : Chain t r.value.inReplyToId rest) : Chain t (some r.value.id) (r.value :: rest)

theorem Apart.onWayUp_iff (h : t.Apart) {r : Stored StatusRow} (hr : r ∈ t.statuses) :
    t.OnWayUp (some r.value.id) x ↔ r.value.id = x ∨ t.OnWayUp r.value.inReplyToId x := by
  constructor
  · rintro ⟨id, hself, hleads⟩
    obtain rfl : r.value.id = id := Option.some.inj hself
    rcases Relation.ReflTransGen.cases_head hleads with hsame | ⟨b, ⟨q, hq, hid, hparent⟩, hrest⟩
    · exact Or.inl hsame
    · rw [h.eq_of_id hq hr hid] at hparent
      exact Or.inr ⟨b, hparent, hrest⟩
  · rintro (rfl | ⟨b, hparent, hrest⟩)
    · exact ⟨_, rfl, LeadsTo.refl t _⟩
    · exact ⟨_, rfl, LeadsTo.head ⟨r, hr, rfl, hparent⟩ hrest⟩

theorem Apart.descendsFrom_iff (h : t.Apart) {r : Stored StatusRow} (hr : r ∈ t.statuses) :
    t.DescendsFrom r.value.id x ↔ t.OnWayUp r.value.inReplyToId x := by
  refine Relation.TransGen.head'_iff.trans ⟨?_, ?_⟩
  · rintro ⟨b, ⟨q, hq, hid, hparent⟩, hrest⟩
    rw [h.eq_of_id hq hr hid] at hparent
    exact ⟨b, hparent, hrest⟩
  · rintro ⟨b, hparent, hrest⟩
    exact ⟨b, ⟨r, hr, rfl, hparent⟩, hrest⟩

/-- In the chain are the rows on the way up, and every id on the way up has one. -/
theorem Chain.onWayUp_iff (h : t.Apart) {parent : Option String} {rows : List StatusRow}
    (hchain : t.Chain parent rows) :
    t.OnWayUp parent x ↔ ∃ r ∈ t.statuses, r.value ∈ rows ∧ r.value.id = x := by
  induction hchain with
  | top =>
    constructor
    · rintro ⟨_, hnone, -⟩
      cases hnone
    · rintro ⟨_, -, hnone, -⟩
      cases hnone
  | @parent r rest hr _ ih =>
    rw [h.onWayUp_iff hr, ih]
    constructor
    · rintro (hid | ⟨q, hq, hrest, hid⟩)
      · exact ⟨r, hr, List.mem_cons_self, hid⟩
      · exact ⟨q, hq, List.mem_cons_of_mem _ hrest, hid⟩
    · rintro ⟨q, hq, hin, hid⟩
      rcases List.mem_cons.1 hin with hsame | hrest
      · exact Or.inl (hsame ▸ hid)
      · exact Or.inr ⟨q, hq, hrest, hid⟩

/-- A chain that has an end meets no cycle. -/
theorem Chain.not_onCycle (h : t.Apart) {parent : Option String} {rows : List StatusRow}
    (hchain : t.Chain parent rows) (hx : t.OnWayUp parent x) : ¬ t.OnCycle x := by
  induction hchain with
  | top =>
    obtain ⟨_, hnone, -⟩ := hx
    cases hnone
  | @parent r rest hr _ ih =>
    intro hcycle
    rcases (h.onWayUp_iff hr).1 hx with rfl | hrest
    · exact ih ((h.descendsFrom_iff hr).1 hcycle) hcycle
    · exact ih hrest hcycle

/-- A row is in the chain above another one just if that is in the tree below it. -/
theorem Chain.mem_iff_subtree (h : t.Apart) {q r : Stored StatusRow} {rows : List StatusRow}
    (hchain : t.Chain r.value.inReplyToId rows) (hq : q ∈ t.statuses) (hr : r ∈ t.statuses)
    (hcycle : ¬ t.OnCycle q.value.id) : q.value ∈ rows ↔ r.value.id ∈ t.subtree q.value.id := by
  rw [mem_subtree h hcycle, h.descendsFrom_iff hr, hchain.onWayUp_iff h]
  constructor
  · intro hin
    exact ⟨q, hq, hin, rfl⟩
  · rintro ⟨p, hp, hin, hid⟩
    rwa [← h.eq_of_id hp hq hid]

end StatusStore.Database.Tables
