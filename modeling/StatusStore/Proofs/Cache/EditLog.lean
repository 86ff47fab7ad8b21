/-
  StatusStore/Proofs/Cache/EditLog.lean
  =====================================
  **Marks against the complete log.**  An index keeps no marks while no load is in
  flight, one mark for each alias otherwise, and none that is older than every load in
  flight.  A log of all edits forgets nothing: there a load in flight is a beginning that
  no edit since has ended, and its value is out of date if an edit since has touched one
  of its aliases.  The two always agree.  What is recorded of an alias is its last touch
  in the log, as long as some load in flight began before that.

  Main statements: `marked_ofLog` and `touched_ofLog`, each by induction on the log, and
  `finishLoad_ofLog`.
-/
import StatusStore.Proofs.Cache.Entries
import StatusStore.Proofs.Cache.Marks

namespace StatusStore.Cache.Index

inductive Edit (α : Type)
  | beginLoad (key : String)
  | finishLoad (key : String) (value : Option α)
  | touch (keys : List String)
  | insert (value : α) (lookup : Option String)
  | remove (key : String)
  | unlink (key : String)

namespace Edit

variable {α : Type}

def load? : Edit α → Option String
  | beginLoad key | finishLoad key _ => some key
  | _ => none

def touches : Edit α → List String
  | touch keys => keys
  | _ => []

def isTouch : Edit α → Bool
  | touch _ => true
  | _ => false

theorem touches_eq_nil {e : Edit α} (h : e.isTouch = false) : e.touches = [] := by
  cases e with
  | touch keys => cases h
  | _ => rfl

end Edit

variable {α : Type} {x : Index α} {log since earlier : List (Edit α)} {e : Edit α}
  {key k : String} {g start : Nat}

/-! ### What a log says -/

/-- The load of `key` is in flight by a log, which is told latest first: it began after `earlier`,
and no edit of those `since` ended it. -/
def InFlight (log : List (Edit α)) (key : String) (since earlier : List (Edit α)) : Prop :=
  log = since ++ .beginLoad key :: earlier ∧ ∀ e ∈ since, e.load? ≠ some key

def changes (log : List (Edit α)) : Nat := log.countP Edit.isTouch

/-- The `g`-th touch of a log is the last one of an alias. -/
def LastTouched (log : List (Edit α)) (k : String) (g : Nat) : Prop :=
  ∃ newer e older, log = newer ++ e :: older ∧ k ∈ e.touches ∧ (∀ d ∈ newer, k ∉ d.touches) ∧
    g = changes older + 1

/-- No load begins while one of the same key is in flight. -/
def Single : List (Edit α) → Prop
  | [] => True
  | e :: log =>
    (∀ key since earlier, e = .beginLoad key → ¬ InFlight log key since earlier) ∧ Single log

theorem inFlight_beginLoad :
    InFlight (.beginLoad key :: log) key since earlier ↔ since = [] ∧ earlier = log := by
  constructor
  · rintro ⟨hsplit, hsince⟩
    cases since with
    | nil => exact ⟨rfl, (List.cons.inj hsplit).2.symm⟩
    | cons e since =>
      obtain ⟨rfl, -⟩ := List.cons.inj hsplit
      exact absurd rfl (hsince _ List.mem_cons_self)
  · rintro ⟨rfl, rfl⟩
    exact ⟨rfl, nofun⟩

theorem not_inFlight_finishLoad {value : Option α} :
    ¬ InFlight (.finishLoad key value :: log) key since earlier := by
  rintro ⟨hsplit, hsince⟩
  cases since with
  | nil => cases (List.cons.inj hsplit).1
  | cons e since =>
    obtain ⟨rfl, -⟩ := List.cons.inj hsplit
    exact hsince _ List.mem_cons_self rfl

theorem inFlight_cons_of_ne (hother : e.load? ≠ some key) :
    InFlight (e :: log) key since earlier ↔
      ∃ rest, since = e :: rest ∧ InFlight log key rest earlier := by
  constructor
  · rintro ⟨hsplit, hsince⟩
    cases since with
    | nil =>
      obtain ⟨rfl, -⟩ := List.cons.inj hsplit
      exact absurd rfl hother
    | cons d rest =>
      obtain ⟨rfl, hlog⟩ := List.cons.inj hsplit
      exact ⟨rest, rfl, hlog, fun d hd => hsince d (List.mem_cons_of_mem _ hd)⟩
  · rintro ⟨rest, rfl, hlog, hrest⟩
    exact ⟨congrArg (e :: ·) hlog, List.forall_mem_cons.2 ⟨hother, hrest⟩⟩

/-- The log says where the load of a key that is in flight began. -/
theorem InFlight.unique {since' earlier' : List (Edit α)} (h : InFlight log key since earlier)
    (h' : InFlight log key since' earlier') : since = since' ∧ earlier = earlier' := by
  induction log generalizing since since' with
  | nil =>
    have hlength := congrArg List.length h.1
    simp at hlength
  | cons e log ih =>
    by_cases hother : e.load? = some key
    · cases e with
      | beginLoad j =>
        obtain rfl : j = key := Option.some.inj hother
        obtain ⟨rfl, rfl⟩ := inFlight_beginLoad.1 h
        obtain ⟨rfl, rfl⟩ := inFlight_beginLoad.1 h'
        exact ⟨rfl, rfl⟩
      | finishLoad j value =>
        obtain rfl : j = key := Option.some.inj hother
        exact absurd h not_inFlight_finishLoad
      | _ => cases hother
    · obtain ⟨rest, rfl, hrest⟩ := (inFlight_cons_of_ne hother).1 h
      obtain ⟨rest', rfl, hrest'⟩ := (inFlight_cons_of_ne hother).1 h'
      obtain ⟨rfl, hearlier⟩ := ih hrest hrest'
      exact ⟨rfl, hearlier⟩

theorem lastTouched_cons : LastTouched (e :: log) k g ↔
    (k ∈ e.touches ∧ g = changes log + 1) ∨ (k ∉ e.touches ∧ LastTouched log k g) := by
  constructor
  · rintro ⟨newer, d, older, hsplit, hk, hnewer, rfl⟩
    cases newer with
    | nil =>
      obtain ⟨rfl, rfl⟩ := List.cons.inj hsplit
      exact Or.inl ⟨hk, rfl⟩
    | cons _ newer =>
      obtain ⟨rfl, rfl⟩ := List.cons.inj hsplit
      obtain ⟨hfirst, hnewer⟩ := List.forall_mem_cons.1 hnewer
      exact Or.inr ⟨hfirst, newer, d, older, rfl, hk, hnewer, rfl⟩
  · rintro (⟨hk, rfl⟩ | ⟨hfirst, newer, d, older, rfl, hk, hnewer, rfl⟩)
    · exact ⟨[], e, log, rfl, hk, nofun, rfl⟩
    · exact ⟨e :: newer, d, older, rfl, hk, List.forall_mem_cons.2 ⟨hfirst, hnewer⟩, rfl⟩

theorem LastTouched.le_changes (h : LastTouched log k g) : g ≤ changes log := by
  obtain ⟨newer, e, older, rfl, hk, -, rfl⟩ := h
  have he : e.isTouch = true := by
    cases e with
    | touch keys => rfl
    | _ => cases hk
  simp [changes, he]

/-! ### The index that a log leaves -/

variable [Cacheable α]

def edit (x : Index α) : Edit α → Index α
  | .beginLoad key => x.beginLoad key
  | .finishLoad key value => (x.finishLoad key value).2
  | .touch keys => x.touch keys
  | .insert value lookup => (x.insert value lookup).2
  | .remove key => (x.remove key).2
  | .unlink key => x.unlink key

/-- The index after the edits of a log, of which the first is the latest. -/
def ofLog : List (Edit α) → Index α
  | [] => {}
  | e :: log => (ofLog log).edit e

/-- An edit that neither begins nor ends a load nor touches anything leaves the marks alone. -/
theorem sameMarks_edit (x : Index α) (hload : e.load? = none) (htouch : e.isTouch = false) :
    SameMarks x (x.edit e) := by
  cases e with
  | beginLoad key => cases hload
  | finishLoad key value => cases hload
  | touch keys => cases htouch
  | insert value lookup => exact x.sameMarks_insert value lookup
  | remove key => exact x.sameMarks_remove key
  | unlink key => exact x.sameMarks_unlink key

theorem Dated.edit (h : x.Dated) (e : Edit α) : (x.edit e).Dated := by
  cases e with
  | beginLoad key => exact h.beginLoad key
  | finishLoad key value => exact (x.ended_finishLoad key value).dated h
  | touch keys => exact h.touch keys
  | insert value lookup => exact h.of_sameMarks (x.sameMarks_insert value lookup)
  | remove key => exact h.of_sameMarks (x.sameMarks_remove key)
  | unlink key => exact h.of_sameMarks (x.sameMarks_unlink key)

theorem dated_ofLog (log : List (Edit α)) : (ofLog log).Dated := by
  induction log with
  | nil => exact dated_empty
  | cons e log ih => exact ih.edit e

/-- Generations count touches. -/
theorem generation_ofLog (log : List (Edit α)) : (ofLog log).generation = changes log := by
  induction log with
  | nil => rfl
  | cons e log ih =>
    rw [changes, List.countP_cons, ← changes, ← ih, ofLog]
    cases e with
    | touch keys => exact (ofLog log).generation_touch keys
    | beginLoad key => rfl
    | finishLoad key value => exact ((ofLog log).ended_finishLoad key value).generation
    | _ => exact ((ofLog log).sameMarks_edit rfl rfl).generation

/-! ### Loads in flight -/

theorem loading_edit_of_ne (x : Index α) (hother : e.load? ≠ some key) :
    (x.edit e).loading.get? key = x.loading.get? key := by
  cases e with
  | beginLoad j =>
    have hne : key ≠ j := fun h => hother (congrArg some h.symm)
    exact (x.loading_beginLoad j key).trans (if_neg hne)
  | finishLoad j value =>
    have hne : key ≠ j := fun h => hother (congrArg some h.symm)
    exact ((x.ended_finishLoad j value).loading key).trans (if_neg hne)
  | touch keys => exact congrArg (KeyMap.get? · key) (x.loading_touch keys)
  | _ => exact congrArg (KeyMap.get? · key) (x.sameMarks_edit rfl rfl).loading

theorem loading_ofLog : (ofLog log).loading.get? key = some start ↔
    ∃ since earlier, InFlight log key since earlier ∧ start = changes earlier := by
  induction log with
  | nil =>
    refine iff_of_false nofun ?_
    rintro ⟨since, earlier, ⟨hsplit, -⟩, -⟩
    have hlength := congrArg List.length hsplit
    simp at hlength
  | cons e log ih =>
    by_cases hother : e.load? = some key
    · cases e with
      | beginLoad j =>
        obtain rfl : j = key := Option.some.inj hother
        have hbegun : (ofLog (.beginLoad j :: log)).loading.get? j = some (changes log) := by
          rw [← generation_ofLog]
          exact ((ofLog log).loading_beginLoad j j).trans (if_pos rfl)
        rw [hbegun, Option.some.injEq]
        constructor
        · rintro rfl
          exact ⟨[], log, inFlight_beginLoad.2 ⟨rfl, rfl⟩, rfl⟩
        · rintro ⟨since, earlier, hflight, rfl⟩
          rw [(inFlight_beginLoad.1 hflight).2]
      | finishLoad j value =>
        obtain rfl : j = key := Option.some.inj hother
        have hended : (ofLog (.finishLoad j value :: log)).loading.get? j = none :=
          (((ofLog log).ended_finishLoad j value).loading j).trans (if_pos rfl)
        rw [hended]
        refine iff_of_false nofun ?_
        rintro ⟨since, earlier, hflight, -⟩
        exact not_inFlight_finishLoad hflight
      | _ => cases hother
    · rw [ofLog, loading_edit_of_ne _ hother, ih]
      constructor
      · rintro ⟨since, earlier, hflight, hstart⟩
        exact ⟨e :: since, earlier, (inFlight_cons_of_ne hother).2 ⟨since, rfl, hflight⟩, hstart⟩
      · rintro ⟨_, earlier, hflight, hstart⟩
        obtain ⟨since, -, hflight⟩ := (inFlight_cons_of_ne hother).1 hflight
        exact ⟨since, earlier, hflight, hstart⟩

/-! ### What a load learns -/

/-- A load in flight is marked for what an edit touches, and for nothing else, unless the edit is
its own beginning or end. -/
theorem marked_edit_of_ne (hx : x.Dated) (hother : e.load? ≠ some key) :
    (x.edit e).Marked key k ↔
      x.Marked key k ∨ k ∈ e.touches ∧ (x.loading.get? key).isSome = true := by
  cases e with
  | beginLoad j =>
    have hne : key ≠ j := fun h => hother (congrArg some h.symm)
    exact (marked_beginLoad hne).trans (or_iff_left nofun).symm
  | finishLoad j value =>
    have hne : key ≠ j := fun h => hother (congrArg some h.symm)
    exact ((x.ended_finishLoad j value).marked hne).trans (or_iff_left nofun).symm
  | touch keys => exact marked_touch hx
  | _ => exact (x.sameMarks_edit rfl rfl).marked.trans (or_iff_left nofun).symm

/-- A load in flight is marked for exactly what was touched since it began. -/
theorem marked_ofLog : (ofLog log).Marked key k ↔
    ∃ since earlier, InFlight log key since earlier ∧ ∃ e ∈ since, k ∈ e.touches := by
  induction log with
  | nil =>
    refine iff_of_false (fun ⟨_, hstart, _⟩ => by cases hstart) ?_
    rintro ⟨since, earlier, ⟨hsplit, -⟩, -⟩
    have hlength := congrArg List.length hsplit
    simp at hlength
  | cons e log ih =>
    by_cases hother : e.load? = some key
    · cases e with
      | beginLoad j =>
        obtain rfl : j = key := Option.some.inj hother
        refine iff_of_false (not_marked_beginLoad (dated_ofLog log)) ?_
        rintro ⟨since, earlier, hflight, e, he, -⟩
        rw [(inFlight_beginLoad.1 hflight).1] at he
        cases he
      | finishLoad j value =>
        obtain rfl : j = key := Option.some.inj hother
        constructor
        · rintro ⟨start, hstart, -⟩
          rw [ofLog, edit, ((ofLog log).ended_finishLoad j value).loading, if_pos rfl] at hstart
          cases hstart
        · rintro ⟨since, earlier, hflight, -⟩
          exact absurd hflight not_inFlight_finishLoad
      | _ => cases hother
    · rw [ofLog, marked_edit_of_ne (dated_ofLog log) hother, ih]
      constructor
      · rintro (⟨since, earlier, hflight, d, hd, hk⟩ | ⟨hk, hloading⟩)
        · exact ⟨e :: since, earlier, (inFlight_cons_of_ne hother).2 ⟨since, rfl, hflight⟩, d,
            List.mem_cons_of_mem e hd, hk⟩
        · obtain ⟨start, hstart⟩ := Option.isSome_iff_exists.1 hloading
          obtain ⟨since, earlier, hflight, -⟩ := loading_ofLog.1 hstart
          exact ⟨e :: since, earlier, (inFlight_cons_of_ne hother).2 ⟨since, rfl, hflight⟩, e,
            List.mem_cons_self, hk⟩
      · rintro ⟨_, earlier, hcons, d, hd, hk⟩
        obtain ⟨since, rfl, hflight⟩ := (inFlight_cons_of_ne hother).1 hcons
        rcases List.mem_cons.1 hd with rfl | hd
        · refine Or.inr ⟨hk, ?_⟩
          rw [loading_ofLog.2 ⟨since, earlier, hflight, rfl⟩]
          rfl
        · exact Or.inl ⟨since, earlier, hflight, d, hd, hk⟩

/-! ### What is recorded -/

/-- Some load in flight began before the `g`-th touch. -/
def Awaited (x : Index α) (g : Nat) : Prop :=
  ∃ key start, x.loading.get? key = some start ∧ start < g

omit [Cacheable α] in
/-- A load that begins awaits only the touches to come. -/
theorem awaited_beginLoad (hfree : x.loading.get? key = none) (hg : g ≤ x.generation) :
    (x.beginLoad key).Awaited g ↔ x.Awaited g := by
  constructor
  · rintro ⟨j, start, hstart, hlate⟩
    rw [loading_beginLoad] at hstart
    split at hstart
    · cases hstart
      exact absurd hlate (Nat.not_lt_of_le hg)
    · exact ⟨j, start, hstart, hlate⟩
  · rintro ⟨j, start, hstart, hlate⟩
    refine ⟨j, start, ?_, hlate⟩
    rw [loading_beginLoad, if_neg, hstart]
    rintro rfl
    rw [hfree] at hstart
    cases hstart

omit [Cacheable α] in
theorem Ended.awaited {y : Index α} (h : Ended x y key) (hg : y.Awaited g) : x.Awaited g := by
  obtain ⟨j, start, hstart, hlate⟩ := hg
  rw [h.loading] at hstart
  split at hstart
  · cases hstart
  · exact ⟨j, start, hstart, hlate⟩

omit [Cacheable α] in
/-- Every load in flight awaits the next touch. -/
theorem Dated.awaited (h : x.Dated) (hbusy : x.loading.isEmpty = false) :
    x.Awaited (x.generation + 1) := by
  by_contra hnone
  refine Bool.eq_false_iff.1 hbusy ((KeyMap.isEmpty_iff _).2 fun key => ?_)
  refine Option.eq_none_iff_forall_ne_some.2 fun start hstart => hnone ?_
  exact ⟨key, start, hstart, Nat.lt_succ_of_le (h.loading hstart)⟩

omit [Cacheable α] in
theorem not_awaited (hidle : x.loading.isEmpty = true) : ¬ x.Awaited g := by
  rintro ⟨key, start, hstart, -⟩
  rw [(KeyMap.isEmpty_iff _).1 hidle key] at hstart
  cases hstart

omit [Cacheable α] in
/-- Pruning leaves the marks that some load in flight may ask for. -/
theorem touched_prune :
    x.prune.touched.get? k = some g ↔ x.touched.get? k = some g ∧ x.Awaited g := by
  unfold prune
  cases hmin : x.loading.values.min? with
  | none =>
    refine iff_of_false nofun ?_
    rintro ⟨-, key, start, hstart, -⟩
    have hmem := KeyMap.mem_values hstart
    rw [List.min?_eq_none_iff.1 hmin] at hmem
    cases hmem
  | some oldest =>
    obtain ⟨hmem, hleast⟩ := List.min?_eq_some_iff.1 hmin
    dsimp only
    rw [KeyMap.get?_filter, Option.filter_eq_some_iff, decide_eq_true_eq]
    refine and_congr_right fun _ => ⟨fun hlate => ?_, ?_⟩
    · obtain ⟨key, hkey⟩ := KeyMap.exists_of_mem_values hmem
      exact ⟨key, oldest, hkey, hlate⟩
    · rintro ⟨key, start, hstart, hlate⟩
      exact Nat.lt_of_le_of_lt (hleast start (KeyMap.mem_values hstart)) hlate

/-- The end of a load drops the marks that nothing in flight may ask for. -/
theorem touched_finishLoad (value : Option α) (hx : x.touched.get? k = some g → x.Awaited g) :
    (x.finishLoad key value).2.touched.get? k = some g ↔
      x.touched.get? k = some g ∧ (x.finishLoad key value).2.Awaited g := by
  unfold finishLoad
  cases x.loading.get? key with
  | none => exact (and_iff_left_of_imp hx).symm
  | some start =>
    obtain ⟨touched, hprune⟩ := prune_eq { x with loading := x.loading.erase key }
    refine touched_prune.trans (and_congr_right fun _ => ?_)
    dsimp only
    rw [hprune]
    rfl

/-- What is recorded of an alias is its last touch in the log, if a load in flight began before. -/
theorem touched_ofLog (hsingle : Single log) :
    (ofLog log).touched.get? k = some g ↔ LastTouched log k g ∧ (ofLog log).Awaited g := by
  induction log with
  | nil => exact iff_of_false nofun fun h => not_awaited rfl h.2
  | cons e log ih =>
    obtain ⟨hfree, hsingle⟩ := hsingle
    specialize ih hsingle
    rw [lastTouched_cons]
    have hquiet : e.load? = none → e.isTouch = false →
        ((ofLog (e :: log)).touched.get? k = some g ↔
          ((k ∈ e.touches ∧ g = changes log + 1) ∨ (k ∉ e.touches ∧ LastTouched log k g)) ∧
            (ofLog (e :: log)).Awaited g) := by
      intro hload htouch
      have hsame := (ofLog log).sameMarks_edit hload htouch
      rw [ofLog, Awaited, hsame.touched, hsame.loading, ← Awaited, Edit.touches_eq_nil htouch]
      simpa using ih
    cases e with
    | beginLoad key =>
      have hnone : (ofLog log).loading.get? key = none := by
        refine Option.eq_none_iff_forall_ne_some.2 fun start hstart => ?_
        obtain ⟨since, earlier, hflight, -⟩ := loading_ofLog.1 hstart
        exact hfree key since earlier rfl hflight
      simp only [Edit.touches, List.not_mem_nil, false_and, false_or, not_false_eq_true, true_and]
      refine ih.trans (and_congr_right fun hlast => (awaited_beginLoad hnone ?_).symm)
      exact generation_ofLog log ▸ hlast.le_changes
    | finishLoad key value =>
      have hended := (ofLog log).ended_finishLoad key value
      simp only [Edit.touches, List.not_mem_nil, false_and, false_or, not_false_eq_true, true_and]
      refine (touched_finishLoad value fun h => (ih.1 h).2).trans ?_
      rw [ih, and_assoc, and_iff_right_of_imp hended.awaited]
      rfl
    | touch keys =>
      have hloading := (ofLog log).loading_touch keys
      rw [ofLog, edit, touched_touch, Awaited, hloading, ← Awaited, ← generation_ofLog]
      cases hempty : (ofLog log).loading.isEmpty with
      | true => simp [ih, not_awaited hempty]
      | false =>
        by_cases hk : k ∈ keys
        · have hnow := (dated_ofLog log).awaited hempty
          simp only [hk, Edit.touches, and_self, if_true, Option.some.injEq, true_and,
            not_true_eq_false, false_and, or_false]
          constructor
          · rintro rfl
            exact ⟨rfl, hnow⟩
          · rintro ⟨rfl, -⟩
            rfl
        · simp [hk, Edit.touches, ih]
    | _ => exact hquiet rfl rfl

/-! ### The end of a load -/

/-- By the log, the load of `key` is in flight and nothing has touched it or its value since. -/
def Untouched (log : List (Edit α)) (key : String) (v : α) : Prop :=
  ∃ since earlier, InFlight log key since earlier ∧
    ∀ e ∈ since, key ∉ e.touches ∧ ∀ a ∈ aliases v, a ∉ e.touches

omit [Cacheable α] in
def OldestAfter (log earlier : List (Edit α)) : Prop :=
  (∃ key since, InFlight log key since earlier) ∧
    ∀ key since later, InFlight log key since later → earlier.length ≤ later.length

theorem finishLoad_iff_untouched {v : α} :
    ((ofLog log).finishLoad key (some v)).1 = true ↔ Untouched log key v := by
  rw [finishLoad_fst]
  constructor
  · rintro ⟨hloading, hunmarked⟩
    obtain ⟨start, hstart⟩ := Option.isSome_iff_exists.1 hloading
    obtain ⟨since, earlier, hflight, -⟩ := loading_ofLog.1 hstart
    have huntouched : ∀ e ∈ since, ∀ k, Files v (some key) k → k ∉ e.touches :=
      fun e he k hk htouched =>
        hunmarked k hk (marked_ofLog.2 ⟨since, earlier, hflight, e, he, htouched⟩)
    exact ⟨since, earlier, hflight, fun e he =>
      ⟨huntouched e he key (Or.inr rfl), fun a ha => huntouched e he a (Or.inl ha)⟩⟩
  · rintro ⟨since, earlier, hflight, huntouched⟩
    refine ⟨by rw [loading_ofLog.2 ⟨since, earlier, hflight, rfl⟩]; rfl, fun k hk hmarked => ?_⟩
    obtain ⟨since', earlier', hflight', e, he, htouched⟩ := marked_ofLog.1 hmarked
    obtain ⟨rfl, -⟩ := hflight.unique hflight'
    rcases hk with hk | hk
    · exact (huntouched e he).2 k hk htouched
    · exact (huntouched e he).1 (Option.some.inj hk ▸ htouched)

theorem awaited_ofLog : (ofLog log).Awaited g ↔
    ∃ key since earlier, InFlight log key since earlier ∧ changes earlier < g := by
  constructor
  · rintro ⟨key, start, hstart, hlate⟩
    obtain ⟨since, earlier, hflight, rfl⟩ := loading_ofLog.1 hstart
    exact ⟨key, since, earlier, hflight, hlate⟩
  · rintro ⟨key, since, earlier, hflight, hlate⟩
    exact ⟨key, _, loading_ofLog.2 ⟨since, earlier, hflight, rfl⟩, hlate⟩

omit [Cacheable α] in
theorem InFlight.suffix (h : InFlight log key since earlier) : earlier <:+ log :=
  ⟨since ++ [.beginLoad key], by rw [h.1]; simp⟩

omit [Cacheable α] in
/-- A load in flight began no earlier than the oldest. -/
theorem OldestAfter.changes_le {oldest : List (Edit α)} (h : OldestAfter log oldest)
    (hflight : InFlight log key since earlier) : changes oldest ≤ changes earlier := by
  obtain ⟨⟨j, newer, holdest⟩, hleast⟩ := h
  have hsuffix := List.suffix_of_suffix_length_le holdest.suffix hflight.suffix
    (hleast key since earlier hflight)
  exact hsuffix.sublist.countP_le

/-- Marks that are kept sparingly say what the complete log says.  A load ends with a value that may
be cached if and only if it has one and no edit since its beginning touched its key or an alias of
the value.  What is recorded of an alias is its last touch, as long as a load in flight began before
that; so nothing is recorded while no load is in flight, and all that is recorded is newer than the
oldest. -/
theorem finishLoad_ofLog (log : List (Edit α)) (hsingle : Single log) :
    (∀ key value, ((ofLog log).finishLoad key value).1 = true ↔
      ∃ v, value = some v ∧ Untouched log key v) ∧
    (∀ k g, (ofLog log).touched.get? k = some g ↔ LastTouched log k g ∧
      ∃ key since earlier, InFlight log key since earlier ∧ changes earlier < g) ∧
    ((∀ key since earlier, ¬ InFlight log key since earlier) →
      (ofLog log).touched.isEmpty = true) ∧
    ∀ oldest, OldestAfter log oldest →
      ∀ k g, (ofLog log).touched.get? k = some g → changes oldest < g := by
  have htouched : ∀ k g, (ofLog log).touched.get? k = some g ↔ LastTouched log k g ∧
      ∃ key since earlier, InFlight log key since earlier ∧ changes earlier < g := by
    intro k g
    rw [touched_ofLog hsingle, awaited_ofLog]
  refine ⟨fun key value => ?_, htouched, fun hidle => ?_, fun oldest holdest k g hg => ?_⟩
  · cases value with
    | none =>
      refine iff_of_false ?_ nofun
      unfold finishLoad
      split <;> nofun
    | some v =>
      rw [finishLoad_iff_untouched]
      simp
  · refine (KeyMap.isEmpty_iff _).2 fun k => Option.eq_none_iff_forall_ne_some.2 fun g hg => ?_
    obtain ⟨-, key, since, earlier, hflight, -⟩ := (htouched k g).1 hg
    exact hidle key since earlier hflight
  · obtain ⟨-, key, since, earlier, hflight, hlate⟩ := (htouched k g).1 hg
    exact Nat.lt_of_le_of_lt (holdest.changes_le hflight) hlate

/-! ### Loads that overlap -/

/-- Loads of the lists "A", "B" and "C" overlap.  The list "A" is touched after all of them began,
and the load of "C" is given up. -/
def overlapping : List (Edit IdList) :=
  [.finishLoad "Target\x1fC" none, .touch ["Target\x1fA", "Target\x1fD"], .beginLoad "Target\x1fC",
    .beginLoad "Target\x1fB", .touch ["Target\x1fB"], .beginLoad "Target\x1fA"]

theorem single_overlapping : Single overlapping := by
  have hnew : ∀ {log : List (Edit IdList)} {e : Edit IdList}, e ∉ log →
      ∀ key since earlier, e = .beginLoad key → ¬ InFlight log key since earlier := by
    rintro log e hmem key since earlier rfl hflight
    exact hmem (hflight.1 ▸ List.mem_append_right _ List.mem_cons_self)
  refine ⟨nofun, nofun, hnew ?_, hnew ?_, nofun, hnew ?_, trivial⟩ <;> simp

/-- "B" was touched before its load began, "A" after. -/
theorem finishLoad_ofLog_overlapping :
    Single overlapping ∧
      ((ofLog overlapping).finishLoad "Target\x1fB" (some ⟨"B", []⟩)).1 = true ∧
      ((ofLog overlapping).finishLoad "Target\x1fA" (some ⟨"A", []⟩)).1 = false ∧
      (ofLog overlapping).touched.get? "Target\x1fA" = some 2 := by
  have hexact := finishLoad_ofLog overlapping single_overlapping
  refine ⟨single_overlapping, (hexact.1 _ _).2 ⟨_, rfl, ?_⟩, by decide, by decide⟩
  exact ⟨overlapping.take 3, overlapping.drop 4, ⟨rfl, by decide⟩, by decide⟩

end StatusStore.Cache.Index
