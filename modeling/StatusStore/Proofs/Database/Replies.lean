/-
  StatusStore/Proofs/Database/Replies.lean
  ========================================
  **Which statuses lie above and below another.**  A row names its parent, so the
  way up from a status is unique and the ways down from it branch.  A walk down has
  ids before it of which none lies above another (`Front`); where it meets no cycle,
  each step has fewer rows below it.

  Main statements: `front_step` and `below_step` for a walk down, and `above_parent` for
  one up.
-/
import Mathlib.Logic.Relation
import StatusStore.Proofs.Cache.Lists
import StatusStore.Proofs.Database.Rows

namespace StatusStore

open Cache

namespace Cache.ListKind

def selects (kind : ListKind) (target : String) (row : StatusRow) : Bool :=
  match kind with
  | .replies => row.inReplyToId = some target
  | .boosts => row.boostOfId = some target

/-- The status in whose list a row is: its parent, or what it boosts. -/
def link (kind : ListKind) (row : StatusRow) : Option String :=
  match kind with
  | .replies => row.inReplyToId
  | .boosts => row.boostOfId

variable {kind : ListKind} {target : String} {row other : StatusRow}

theorem selects_iff : kind.selects target row = true ↔ kind.link row = some target := by
  cases kind <;> exact decide_eq_true_iff

theorem selects_eq_false : kind.selects target row = false ↔ kind.link row ≠ some target := by
  rw [← Bool.not_eq_true, selects_iff]

theorem selects_congr (h : kind.link row = kind.link other) :
    kind.selects target row = kind.selects target other := by
  rw [Bool.eq_iff_iff, selects_iff, selects_iff, h]

end Cache.ListKind

/-- A status is announced to the list that it is in, and to its own. -/
theorem Cache.drops_iff {v : Status} {kind : ListKind} {target : String} :
    Drops v kind target ↔ kind.link v.toRow = some target ∨ v.id = target := by
  cases kind <;> rfl

namespace Database

namespace Tables

/-- The list of `target`, as the rows have it. -/
def listed (t : Tables) (kind : ListKind) (target : String) : List String :=
  t.statusIds (kind.selects target)

/-- Whether the status with the id `a` is a reply to `b`, which need not be there. -/
def ReplyTo (t : Tables) (a b : String) : Prop :=
  ∃ r ∈ t.statuses, r.value.id = a ∧ r.value.inReplyToId = some b

/-- Whether the way up from `a` comes by `b`. -/
def LeadsTo (t : Tables) : String → String → Prop := Relation.ReflTransGen t.ReplyTo

/-- Whether the way up from `a` comes back to it. -/
def OnCycle (t : Tables) (a : String) : Prop := Relation.TransGen t.ReplyTo a a

def Acyclic (t : Tables) : Prop := ∀ a, ¬ t.OnCycle a

theorem mem_listed {t : Tables} {kind : ListKind} {target id : String} :
    id ∈ t.listed kind target ↔
      ∃ r ∈ t.statuses, r.value.id = id ∧ kind.selects target r.value = true := by
  simp only [listed, statusIds, mem_descending, List.mem_map, List.mem_filter]
  constructor
  · rintro ⟨r, ⟨hr, hselected⟩, hid⟩
    exact ⟨r, hr, hid, hselected⟩
  · rintro ⟨r, hr, hid, hselected⟩
    exact ⟨r, ⟨hr, hselected⟩, hid⟩

/-! ### Lists of changed rows -/

theorem countP_lt {rows : List (Stored StatusRow)} {p q : Stored StatusRow → Bool}
    {r : Stored StatusRow} (hfewer : ∀ r, p r = true → q r = true) (hr : r ∈ rows)
    (hq : q r = true) (hp : p r = false) : rows.countP p < rows.countP q := by
  obtain ⟨before, after, rfl⟩ := List.append_of_mem hr
  have hbefore : before.countP p ≤ before.countP q := List.countP_mono_left fun r _ => hfewer r
  have hafter : after.countP p ≤ after.countP q := List.countP_mono_left fun r _ => hfewer r
  simp only [List.countP_append, List.countP_cons, hq, hp, if_true, Bool.false_eq_true, if_false]
  omega

section

variable {t u : Tables} {kind : ListKind} {target id : String} {row new : Stored StatusRow}

theorem listed_congr (hrows : u.statuses = t.statuses) :
    u.listed kind target = t.listed kind target := by
  simp only [listed, statusIds, hrows]

theorem listed_append (hrows : u.statuses = t.statuses ++ [new])
    (hout : kind.selects target new.value = false) : u.listed kind target = t.listed kind target := by
  simp [listed, statusIds, hrows, List.filter_append, hout]

theorem listed_filter (hrows : u.statuses = t.statuses.filter (·.value.id ≠ id))
    (hout : ∀ r ∈ t.statuses, r.value.id = id → kind.selects target r.value = false) :
    u.listed kind target = t.listed kind target := by
  have hselected : (t.statuses.filter (·.value.id ≠ id)).filter (kind.selects target ·.value) =
      t.statuses.filter (kind.selects target ·.value) := by
    rw [List.filter_filter]
    apply List.filter_congr
    intro r hr
    by_cases hid : r.value.id = id
    · simp [hout r hr hid]
    · simp [hid]
  simp only [listed, statusIds, hrows, hselected]

/-- A row that is replaced is in the place of its old self in every list that has them both. -/
theorem listed_replace (h : t.Intact) (hrow : row ∈ t.statuses) (hid : row.value.id = id)
    (hnew : new.value.id = id)
    (hrows : u.statuses = t.statuses.map fun r => if r.value.id = id then new else r)
    (hsame : kind.selects target new.value = kind.selects target row.value) :
    u.listed kind target = t.listed kind target := by
  have hreplaced : ∀ r ∈ t.statuses, (if r.value.id = id then new else r).value.id = r.value.id ∧
      kind.selects target (if r.value.id = id then new else r).value =
        kind.selects target r.value := by
    intro r hr
    split
    · rename_i hrid
      rw [h.eq_of_id hr hrow (hrid.trans hid.symm)]
      exact ⟨hnew.trans hid.symm, hsame⟩
    · exact ⟨rfl, rfl⟩
  have hselected : t.statuses.filter
      ((kind.selects target ·.value) ∘ fun r => if r.value.id = id then new else r) =
        t.statuses.filter (kind.selects target ·.value) :=
    List.filter_congr fun r hr => (hreplaced r hr).2
  simp only [listed, statusIds, hrows, List.filter_map, List.map_map, hselected]
  refine congrArg descending (List.map_congr_left ?_)
  intro r hr
  exact (hreplaced r (List.mem_filter.1 hr).1).1

/-- A list becomes shorter when a row is replaced that was in it by one that is not. -/
theorem length_listed_lt (hrow : row ∈ t.statuses) (hid : row.value.id = id)
    (hrows : u.statuses = t.statuses.map fun r => if r.value.id = id then new else r)
    (hin : kind.selects target row.value = true) (hout : kind.selects target new.value = false) :
    (u.listed kind target).length < (t.listed kind target).length := by
  have hlength : ∀ t : Tables, (t.listed kind target).length =
      t.statuses.countP (kind.selects target ·.value) := by
    intro t
    simp [listed, statusIds, descending, List.countP_eq_length_filter]
  rw [hlength, hlength, hrows, List.countP_map]
  apply countP_lt _ hrow hin
  · simpa [hid] using hout
  · intro r hselected
    by_cases hrid : r.value.id = id
    · simp [hrid, hout] at hselected
    · simpa [hrid] using hselected

end

theorem mem_replies {t : Tables} {target id : String} :
    id ∈ t.listed .replies target ↔ t.ReplyTo id target := by
  simp [mem_listed, ListKind.selects, ReplyTo]

/-- A status with a reply on a cycle is on it too. -/
theorem onCycle_of_replyTo {t : Tables} (hunique : ∀ {a b c}, t.ReplyTo a b → t.ReplyTo a c → b = c)
    {a b : String} (hab : t.ReplyTo a b) (ha : t.OnCycle a) : t.OnCycle b := by
  obtain ⟨c, hac, hca⟩ := Relation.TransGen.head'_iff.1 ha
  rw [hunique hac hab] at hca
  exact Relation.TransGen.tail' hca hab

theorem LeadsTo.head {t : Tables} {a b c : String} (hab : t.ReplyTo a b) (hbc : t.LeadsTo b c) :
    t.LeadsTo a c :=
  Relation.ReflTransGen.head hab hbc

theorem LeadsTo.refl (t : Tables) (a : String) : t.LeadsTo a a := Relation.ReflTransGen.refl

theorem LeadsTo.onCycle {t : Tables} {a b : String} (hba : t.LeadsTo b a) (hab : t.ReplyTo a b) :
    t.OnCycle a :=
  Relation.TransGen.head' hab hba

/-- A way up that does not end at once goes by the parent. -/
theorem LeadsTo.of_ne {t : Tables} (hunique : ∀ {a b c}, t.ReplyTo a b → t.ReplyTo a c → b = c)
    {a b c : String} (hac : t.LeadsTo a c) (hne : a ≠ c) (hab : t.ReplyTo a b) : t.LeadsTo b c := by
  rcases Relation.ReflTransGen.cases_head hac with hsame | ⟨d, had, hdc⟩
  · exact absurd hsame hne
  · rw [hunique hab had]
    exact hdc

/-! ### Number of rows -/

open Classical in
noncomputable def rowsWith (t : Tables) (p : String → Prop) : Nat :=
  t.statuses.countP fun r => p r.value.id

variable {t : Tables} {p q : String → Prop}

theorem rowsWith_le_length (t : Tables) (p : String → Prop) :
    t.rowsWith p ≤ t.statuses.length :=
  List.countP_le_length

theorem rowsWith_lt {r : Stored StatusRow} (hfewer : ∀ x, p x → q x) (hr : r ∈ t.statuses)
    (hq : q r.value.id) (hp : ¬ p r.value.id) : t.rowsWith p < t.rowsWith q := by
  classical
  exact countP_lt (fun r hpr => decide_eq_true (hfewer _ (of_decide_eq_true hpr))) hr
    (decide_eq_true hq) (decide_eq_false hp)

/-! ### The way up -/

/-- Number of statuses on the way up from `a`, with its own. -/
noncomputable def above (t : Tables) (a : String) : Nat := t.rowsWith (t.LeadsTo a)

theorem above_parent {a b : String} (hab : t.ReplyTo a b) (hcycle : ¬ t.OnCycle a) :
    t.above b < t.above a := by
  obtain ⟨r, hr, rfl, hparent⟩ := hab
  have hreply : t.ReplyTo r.value.id b := ⟨r, hr, rfl, hparent⟩
  refine rowsWith_lt (fun x hx => LeadsTo.head hreply hx) hr (LeadsTo.refl t _) fun hback => ?_
  exact hcycle (hback.onCycle hreply)

/-! ### The ways down -/

/-- Number of statuses with one of the ids `pending` or below it. -/
noncomputable def below (t : Tables) (pending : List String) : Nat :=
  t.rowsWith fun x => ∃ b ∈ pending, t.LeadsTo x b

/-- What is before a walk down: no id lies above another, and none is on a cycle. -/
structure Front (t : Tables) (pending : List String) : Prop where
  apart : pending.Pairwise fun a b => ¬ t.LeadsTo a b ∧ ¬ t.LeadsTo b a
  acyclic : ∀ a ∈ pending, ¬ t.OnCycle a

end Tables

namespace Tables.Apart

variable {t : Tables} {a : String} {pending : List String}

theorem parent_unique (h : t.Apart) {a b c : String} (hab : t.ReplyTo a b) (hac : t.ReplyTo a c) :
    b = c := by
  obtain ⟨q, hq, hqa, hb⟩ := hab
  obtain ⟨r, hr, hra, hc⟩ := hac
  rw [h.eq_of_id hq hr (hqa.trans hra.symm), hc] at hb
  exact (Option.some.inj hb).symm

/-- What is listed is in descending order. -/
theorem listed_descending (h : t.Apart) (kind : ListKind) (target : String) :
    (t.listed kind target).Pairwise fun a b => b < a := by
  refine descending_strict (List.pairwise_map.2 ((List.Pairwise.filter _ h).imp ?_))
  intro q r hqr
  exact (conflict_eq_false.1 hqr).1

theorem listed_nodup (h : t.Apart) (kind : ListKind) (target : String) :
    (t.listed kind target).Nodup := by
  apply (h.listed_descending kind target).imp
  rintro a _ hless rfl
  exact String.lt_irrefl a hless

/-- The replies to a status that is on no cycle can be walked down from. -/
theorem front_replies (h : t.Apart) (ha : ¬ t.OnCycle a) :
    t.Front (t.listed .replies a) where
  apart := by
    -- A reply that led to another would lead to their parent first, which would be below itself.
    have hnone : ∀ b c, b ≠ c → t.ReplyTo b a → t.ReplyTo c a →
        ¬ t.LeadsTo b c := by
      intro b c hne hb hc hbc
      exact ha (Relation.TransGen.tail' (hbc.of_ne h.parent_unique hne hb) hc)
    apply (h.listed_nodup .replies a).imp_of_mem
    intro b c hb hc hne
    rw [mem_replies] at hb hc
    exact ⟨hnone b c hne hb hc, hnone c b (Ne.symm hne) hc hb⟩
  acyclic b hb hcycle := ha (onCycle_of_replyTo h.parent_unique (mem_replies.1 hb) hcycle)

/-- The replies to the first id may take its place. -/
theorem front_step (h : t.Apart) (hfront : t.Front (a :: pending)) :
    t.Front (t.listed .replies a ++ pending) := by
  have hreplies := h.front_replies (hfront.acyclic a List.mem_cons_self)
  obtain ⟨hfirst, hrest⟩ := List.pairwise_cons.1 hfront.apart
  constructor
  case apart =>
    refine List.pairwise_append.2 ⟨hreplies.apart, hrest, fun b hb c hc => ?_⟩
    obtain ⟨hac, hca⟩ := hfirst c hc
    have hba := mem_replies.1 hb
    refine ⟨fun hbc => ?_, fun hcb => hca (Relation.ReflTransGen.tail hcb hba)⟩
    rcases Classical.em (b = c) with rfl | hne
    · exact hca (Relation.ReflTransGen.single hba)
    · exact hac (hbc.of_ne h.parent_unique hne hba)
  case acyclic =>
    intro b hb
    rcases List.mem_append.1 hb with hreply | hpending
    · exact hreplies.acyclic b hreply
    · exact hfront.acyclic b (List.mem_cons_of_mem a hpending)

end Tables.Apart

namespace Tables

variable {t : Tables}

/-- Then fewer statuses are left. -/
theorem below_step {r : Stored StatusRow} {pending : List String} (hr : r ∈ t.statuses)
    (hfront : t.Front (r.value.id :: pending)) :
    t.below (t.listed .replies r.value.id ++ pending) < t.below (r.value.id :: pending) := by
  refine rowsWith_lt ?_ hr ⟨r.value.id, List.mem_cons_self, LeadsTo.refl t _⟩ ?_
  · rintro x ⟨b, hb, hxb⟩
    rcases List.mem_append.1 hb with hreply | hpending
    · exact ⟨r.value.id, List.mem_cons_self, Relation.ReflTransGen.tail hxb (mem_replies.1 hreply)⟩
    · exact ⟨b, List.mem_cons_of_mem _ hpending, hxb⟩
  · rintro ⟨b, hb, hrb⟩
    rcases List.mem_append.1 hb with hreply | hpending
    · exact hfront.acyclic _ List.mem_cons_self
        (Relation.TransGen.tail' hrb (mem_replies.1 hreply))
    · exact ((List.pairwise_cons.1 hfront.apart).1 b hpending).1 hrb

end Tables

end Database

end StatusStore
