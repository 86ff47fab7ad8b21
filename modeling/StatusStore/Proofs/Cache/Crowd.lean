/-
  StatusStore/Proofs/Cache/Crowd.lean
  ===================================
  **Of many loads of one key one computes.**  A crowd of loads of a key that is not
  cached goes through three stages: nobody computes yet, one of them computes while
  the others wait, and its value is cached and the others find it.  What leads from
  one stage to the next is the crowd's own doing as long as nobody else touches or
  inserts the key or an alias of the value; then the value is fresh when it comes
  and stays cached until everybody has it.

  Main statements: `turn_of_moves` (what an action does to a crowd) and
  `Stage.of_moves` (no action leads out of the three stages).  Each is put together
  from one lemma for each thing that a member of the crowd can do.
-/
import StatusStore.Proofs.Cache.History

namespace StatusStore.Cache

namespace Index

variable {α : Type} {x y : Index α} {W : String → Prop} {key : String} {v : α}

/-! ### An entry that is left alone -/

/-- `key` leads to an entry of `v`, and all that leads there is watched. -/
def Keeps (x : Index α) (W : String → Prop) (key : String) (v : α) : Prop :=
  ∃ n e, x.places.get? key = some n ∧ x.entries.get? n = some e ∧ e.value = v ∧
    ∀ k ∈ e.aliases, W k

theorem Keeps.get? (h : x.Keeps W key v) : x.get? key = some v := by
  obtain ⟨n, e, hn, he, hv, -⟩ := h
  exact get?_eq_some.2 ⟨n, e, hn, he, hv⟩

theorem Keeps.of_eq (h : x.Keeps W key v) (places : y.places = x.places)
    (entries : y.entries = x.entries) : y.Keeps W key v := by
  unfold Keeps
  rw [places, entries]
  exact h

/-- What leads to the same entry is watched. -/
theorem Keeps.watched {j : String} (hx : x.Linked) (h : x.Keeps W key v)
    (hj : x.places.get? j = x.places.get? key) : W j := by
  obtain ⟨n, e, hn, he, -, hwatched⟩ := h
  obtain ⟨e', he', hlisted⟩ := hx.listed (hj.trans hn)
  obtain rfl : e = e' := Option.some.inj (he.symm.trans he')
  exact hwatched j hlisted

theorem Keeps.of_without {gone : Nat → Prop} (h : x.Keeps W key v) (hless : Without x y gone)
    (hstays : ∀ n, x.places.get? key = some n → ¬ gone n) : y.Keeps W key v := by
  obtain ⟨n, e, hn, he, hv, hwatched⟩ := h
  exact ⟨n, e, hless.places.2 ⟨hn, hstays n hn⟩, hless.entries.2 ⟨he, hstays n hn⟩, hv, hwatched⟩

theorem Keeps.unlink {stale : String} (hx : x.Linked) (h : x.Keeps W key v) (hkey : W key)
    (hstale : ¬ W stale) : (x.unlink stale).Keeps W key v := by
  have hapart : x.places.get? stale ≠ x.places.get? key := fun hsame => hstale (h.watched hx hsame)
  obtain ⟨n, e, hn, he, hv, hwatched⟩ := h
  refine ⟨n, e, ?_, ?_, hv, hwatched⟩
  · rw [places_unlink, if_neg, hn]
    rintro rfl
    exact hstale hkey
  · rw [entries_unlink, he, Option.map_some, if_neg]
    rw [← hn]
    exact hapart

theorem Keeps.unlinkAll {stale : List String} (hx : x.Linked) (h : x.Keeps W key v) (hkey : W key)
    (hstale : ∀ k ∈ stale, ¬ W k) : (stale.foldl Index.unlink x).Keeps W key v := by
  induction stale generalizing x with
  | nil => exact h
  | cons s stale ih =>
    refine ih (hx.unlink s) (h.unlink hx hkey (hstale s List.mem_cons_self)) ?_
    exact fun k hk => hstale k (List.mem_cons_of_mem s hk)

theorem Keeps.invalidate {j : String} (hx : x.Linked) (h : x.Keeps W key v) (hj : ¬ W j) :
    (x.invalidate j).2.Keeps W key v := by
  have hremoved : (x.remove j).2.Keeps W key v :=
    h.of_without (hx.remove j) fun n hn hgone => hj (h.watched hx (hgone.trans hn.symm))
  simp only [Index.invalidate, Index.touch]
  split <;> exact hremoved.of_eq rfl rfl

theorem keeps_file (x : Index α) {keys : List String} (hkey : key ∈ keys)
    (hkeys : ∀ k ∈ keys, W k) :
    (x.file v keys).Keeps W key v :=
  ⟨x.lastEntry + 1, ⟨v, keys⟩, by rw [places_file, if_pos hkey], by rw [entries_file, if_pos rfl],
    rfl, hkeys⟩

variable [Cacheable α] {w : α} {lookup : Option String}

theorem Keeps.insert (hx : x.Linked) (h : x.Keeps W key v) (hkey : W key)
    (hothers : ∀ k, Files w lookup k → ¬ W k) : (x.insert w lookup).2.Keeps W key v := by
  obtain ⟨y, hless, hinsert⟩ := hx.insert_without w lookup
  have hy : y.Keeps W key v := by
    refine h.of_without hless fun n hn => ?_
    rintro ⟨j, hfiles, hj⟩
    exact hothers j hfiles (h.watched hx (hj.trans hn.symm))
  obtain ⟨n, e, hn, he, hv, hwatched⟩ := hy
  rw [hinsert]
  refine ⟨n, e, ?_, ?_, hv, hwatched⟩
  · rw [places_file, if_neg, hn]
    exact fun hk => hothers key (mem_insert_keys.1 hk) hkey
  · rw [entries_file, if_neg, he]
    exact Nat.ne_of_lt (Nat.lt_succ_of_le ((hx.of_without hless).numbered he))

/-- A value that is inserted under watched keys is kept under each of them. -/
theorem keeps_insert (x : Index α) (hkeys : ∀ k, Files v (some key) k → W k) :
    (x.insert v (some key)).2.Keeps W key v :=
  keeps_file _ (mem_insert_keys.2 (Or.inr rfl)) fun k hk => hkeys k (mem_insert_keys.1 hk)

theorem Keeps.commit (hx : x.Linked) (h : x.Keeps W key v) (hkey : W key)
    (htouched : ∀ k ∈ aliases w ++ staleAliases w, ¬ W k) : (x.commit w).2.Keeps W key v := by
  have hunlinked : ((staleAliases w).foldl Index.unlink x).Keeps W key v :=
    h.unlinkAll hx hkey fun k hk => htouched k (List.mem_append_right _ hk)
  have hinserted : (((staleAliases w).foldl Index.unlink x).insert w none).2.Keeps W key v := by
    refine hunlinked.insert (hx.unlinkAll _) hkey fun k hk => ?_
    rcases hk with hk | hk
    · exact htouched k (List.mem_append_left _ hk)
    · cases hk
  simp only [Index.commit, Index.touch]
  split <;> exact hinserted.of_eq rfl rfl

end Index

namespace EntityCache

variable {α : Type} [Cacheable α] {c u : EntityCache α} {a : Action α} {p : Progress α}
  {h j : Nat} {key : Key} {v : α} {W : String → Prop} {crowd : List Nat} {es : List (Event α)}

/-- The aliases under which an action puts what a load has computed. -/
def inserts (c : EntityCache α) : Action α → List String
  | .poll h =>
    match c.flight? h with
    | some ⟨_, .load key (some (.ok v)), .running⟩ =>
      if (c.index.finishLoad key.encode (some v)).1 then key.encode :: aliases v else []
    | _ => []
  | _ => []

theorem mem_inserts {i : Key} {k : String} (ha : a = .poll h)
    (hf : c.flight? h = some ⟨h, .load i (some (.ok v)), .running⟩)
    (hfresh : (c.index.finishLoad i.encode (some v)).1 = true)
    (hfiles : Index.Files v (some i.encode) k) : k ∈ c.inserts a := by
  subst ha
  simp only [inserts, hf, hfresh, if_true]
  rcases hfiles with halias | hlookup
  · exact List.mem_cons_of_mem _ halias
  · cases hlookup
    exact List.mem_cons_self

/-- An action that leaves alone what is watched. -/
structure Spares (c : EntityCache α) (W : String → Prop) (a : Action α) : Prop where
  touches : ∀ k ∈ c.touches a, ¬ W k
  inserts : ∀ k ∈ c.inserts a, ¬ W k

/-- Where nothing was found under a watched key, an action that spares it lets nothing be found. -/
theorem Sound.absent_of_moves (hc : c.Sound) (hm : Moves c a p u) (hkey : W key.encode)
    (hspares : c.Spares W a) (habsent : c.get? key = none) : u.get? key = none := by
  refine Option.eq_none_iff_forall_ne_some.2 fun v hv => ?_
  rcases hc.found_of_moves hm hv with
    hold | ⟨h, rfl, -, halias, hf⟩ | ⟨h, i, ha, hf, hfiles, hfresh⟩
  · cases habsent.symm.trans hold
  · refine hspares.touches _ ?_ hkey
    simp [touches, hf, Index.committed, halias]
  · exact hspares.inserts _ (mem_inserts ha hf hfresh hfiles) hkey

/-- An entry is kept by what neither touches nor inserts a watched alias. -/
theorem Sound.keeps_of_moves {k : String} (hc : c.Sound) (hm : Moves c a p u)
    (hkeeps : c.index.Keeps W k v) (hk : W k) (hspares : c.Spares W a) : u.index.Keeps W k v := by
  cases hm with
  | idle _ hindex _ => exact hindex ▸ hkeeps
  | queued _ _ _ hindex _ => exact hindex ▸ hkeeps
  | found _ _ hindex _ => exact hindex ▸ hkeeps
  | began _ _ _ hindex _ => exact hkeeps.of_eq (hindex ▸ rfl) (hindex ▸ rfl)
  | persists _ _ hindex _ => exact hindex ▸ hkeeps
  | answeredLoad _ hindex _ => exact hindex ▸ hkeeps
  | answeredStore _ hindex _ => exact hindex ▸ hkeeps
  | @loaded h i w _ hf hindex _ =>
    have hended := c.index.ended_finishLoad i.encode (some w)
    have hlinked := hc.linked.of_eq hended.places hended.entries hended.lastEntry
    have hbefore := hkeeps.of_eq hended.places hended.entries
    split at hindex
    · rename_i hfresh
      rw [hindex]
      refine hbefore.insert hlinked hk fun j hfiles => ?_
      exact hspares.inserts j (mem_inserts rfl hf hfresh hfiles)
    · exact hindex ▸ hbefore
  | @failed h i e _ _ hindex _ =>
    have hended := c.index.ended_finishLoad i.encode none
    exact hindex ▸ hkeeps.of_eq hended.places hended.entries
  | @committed h w _ hf hindex _ =>
    rw [hindex]
    refine hkeeps.commit hc.linked hk fun j hj => hspares.touches j ?_
    simp only [touches, hf]
    exact List.mem_append_left _ hj
  | rejected _ hindex _ => exact hindex ▸ hkeeps
  | @abandoned h i r _ _ hindex _ =>
    have hended := c.index.ended_finishLoad i.encode none
    exact hindex ▸ hkeeps.of_eq hended.places hended.entries
  | withdrawn _ _ hindex _ => exact hindex ▸ hkeeps
  | @invalidated i _ hindex _ =>
    rw [hindex]
    exact hkeeps.invalidate hc.linked (hspares.touches i.encode List.mem_cons_self)

theorem Idle.inserts (h : Idle c a p) : c.inserts a = [] := by
  cases h with
  | hit _ _ => rfl
  | @busy h w f _ => cases w <;> rfl
  | refused _ => rfl
  | unused hnone => simp [EntityCache.inserts, hnone]
  | @asking h f hf _ hquery =>
    obtain ⟨handle, ⟨key, _ | r⟩ | ⟨v, r⟩, phase⟩ := f
    · simp [EntityCache.inserts, hf]
    · cases hquery
    · simp [EntityCache.inserts, hf]
  | @blocked h f hf hwaiting _ =>
    obtain ⟨handle, w, phase⟩ := f
    obtain rfl : phase = .waiting := hwaiting
    simp [EntityCache.inserts, hf]
  | unheard hanswer _ _ => obtain ⟨r, rfl⟩ | ⟨r, rfl⟩ := hanswer <;> rfl
  | missed _ => rfl

/-! ### What an action does to a crowd -/

/-- The loads of the crowd whose computations began in these events. -/
def begun (crowd : List Nat) (es : List (Event α)) : List Nat :=
  es.filterMap fun
    | .began h => if h ∈ crowd then some h else none
    | _ => none

/-- Nobody in the crowd has returned. -/
def Silent (crowd : List Nat) (es : List (Event α)) : Prop :=
  ∀ h ∈ crowd, ∀ i r, .returned h i r ∉ es

/-- The flight under the handle, if there is one, is a load of the key that waits. -/
def Waits (c : EntityCache α) (key : Key) (h : Nat) : Prop :=
  ∀ f, c.flight? h = some f → f = ⟨h, .load key none, .waiting⟩

def Manned (c : EntityCache α) (key : Key) (crowd : List Nat) : Prop :=
  ∀ h ∈ crowd, ∀ f, c.flight? h = some f → ∃ r phase, f = ⟨h, .load key r, phase⟩

/-- The crowd loads nothing but the key, and nobody in it gives up. -/
structure Fits (key : Key) (crowd : List Nat) (a : Action α) : Prop where
  loads : ∀ h ∈ crowd, ∀ i, a = .load h i → i = key
  stores : ∀ h ∈ crowd, ∀ v, a ≠ .store h v
  stays : ∀ h ∈ crowd, a ≠ .cancel h

/-- Others act, or one more of the crowd waits. -/
structure Still (c : EntityCache α) (key : Key) (crowd : List Nat) (a : Action α)
    (u : EntityCache α) (es : List (Event α)) : Prop where
  begun : begun crowd es = []
  silent : Silent crowd es
  flights : ∀ h ∈ crowd, u.flight? h = c.flight? h ∨
    c.flight? h = none ∧ u.flight? h = some ⟨h, .load key none, .waiting⟩
  inserts : ∀ h ∈ crowd, a = .poll h → c.inserts a = []

inductive Turn (c : EntityCache α) (key : Key) (crowd : List Nat) (a : Action α)
    (u : EntityCache α) (es : List (Event α)) : Prop
  | still : Still c key crowd a u es → Turn c key crowd a u es
  | began {h : Nat} : h ∈ crowd → es = [.began h] ∨ es = [.began h, .asked h] →
      c.Waits key h → c.get? key = none → c.Free key.encode →
      u.index = c.index.beginLoad key.encode →
      Sets c u h (some ⟨h, .load key none, .running⟩) → Turn c key crowd a u es
  | answered {h : Nat} {r : Except Error α} : h ∈ crowd → es = [.answered h r] →
      c.flight? h = some ⟨h, .load key none, .running⟩ → u.index = c.index →
      Sets c u h (some ⟨h, .load key (some r), .running⟩) → Turn c key crowd a u es
  /-- One of the crowd finds a value. -/
  | found {h : Nat} {v : α} : h ∈ crowd →
      es = [.returned h key (.ok v)] ∨ es = [.returned h key (.ok v), .asked h] →
      c.Waits key h → c.get? key = some v → u.index = c.index → Sets c u h none →
      Turn c key crowd a u es
  /-- One of the crowd has computed a value. -/
  | ended {h : Nat} {v : α} : h ∈ crowd → es = [.returned h key (.ok v)] →
      c.flight? h = some ⟨h, .load key (some (.ok v)), .running⟩ →
      u.index = (if (c.index.finishLoad key.encode (some v)).1
        then ((c.index.finishLoad key.encode (some v)).2.insert v (some key.encode)).2
        else (c.index.finishLoad key.encode (some v)).2) →
      Sets c u h none → Turn c key crowd a u es
  | failed {h : Nat} {e : Error} : h ∈ crowd →
      c.flight? h = some ⟨h, .load key (some (.error e)), .running⟩ → Turn c key crowd a u es

omit [Cacheable α] in
theorem Waits.of_absent (hnone : c.flight? h = none) : c.Waits key h := by
  intro f hf
  rw [hnone] at hf
  cases hf

omit [Cacheable α] in
theorem Waits.of_waiting (hf : c.flight? h = some ⟨h, .load key none, .waiting⟩) :
    c.Waits key h := by
  intro f hg
  exact Option.some.inj (hg.symm.trans hf)

omit [Cacheable α] in
theorem Manned.key_eq {i : Key} {r : Option (Except Error α)} {phase : Phase}
    (hmanned : c.Manned key crowd) (hin : h ∈ crowd)
    (hf : c.flight? h = some ⟨h, .load i r, phase⟩) : i = key := by
  obtain ⟨r', phase', hsame⟩ := hmanned h hin _ hf
  cases hsame
  rfl

omit [Cacheable α] in
theorem Manned.ne_store {r : Option (Except Error Unit)} {phase : Phase}
    (hmanned : c.Manned key crowd) (hin : h ∈ crowd) :
    c.flight? h ≠ some ⟨h, .store v r, phase⟩ := by
  intro hf
  obtain ⟨r', phase', hsame⟩ := hmanned h hin _ hf
  cases hsame

/-- What is done by others. -/
theorem turn_of_others (hm : Moves c a p u) (hothers : ∀ h ∈ crowd, a.handle? ≠ some h) :
    Turn c key crowd a u (c.told a p u) := by
  have hevents : ∀ e ∈ c.told a p u, ∀ h ∈ crowd, e.handle? ≠ some h := by
    intro e he h hin hsame
    exact hothers h hin (handle?_of_told he hsame)
  refine .still ⟨?_, ?_, fun h hin => Or.inl (hm.others (hothers h hin)), ?_⟩
  · refine List.filterMap_eq_nil_iff.2 fun e he => ?_
    cases e with
    | began h => exact if_neg fun hin => hevents _ he h hin rfl
    | _ => rfl
  · intro h hin i r hmem
    exact hevents _ hmem h hin rfl
  · rintro h hin rfl
    exact absurd rfl (hothers h hin)

/-! ### What a member of the crowd does -/

/-- An action that changes nothing tells nothing, or it is a load that finds its value at once. -/
theorem turn_of_idle (hidle : Idle c a p) (hindex : u.index = c.index)
    (hsame : ∀ j, u.flight? j = c.flight? j) (hfits : Fits key crowd a) (hin : h ∈ crowd)
    (hhandle : a.handle? = some h) : Turn c key crowd a u (c.told a p u) := by
  rcases hidle.told hsame with hnone | ⟨j, i, v, rfl, hnone, hv, htold⟩
  · rw [hnone]
    exact .still ⟨rfl, fun _ _ _ _ => List.not_mem_nil, fun h _ => Or.inl (hsame h),
      fun _ _ _ => hidle.inserts⟩
  · obtain rfl : j = h := Option.some.inj hhandle
    obtain rfl := hfits.loads j hin i rfl
    rw [htold]
    refine .found hin (Or.inr rfl) (.of_absent hnone) hv hindex fun k => ?_
    rw [hsame]
    split
    · rename_i hk
      rw [hk, hnone]
    · rfl

theorem turn_of_queued {w : Work α} (hfits : Fits key crowd (starting h w)) (hin : h ∈ crowd)
    (hnone : c.flight? h = none) (hquery : w.isAnswered = false)
    (hsets : Sets c u h (some ⟨h, w, .waiting⟩)) :
    Turn c key crowd (starting h w) u (c.told (starting h w) .pending u) := by
  rw [told_queued hsets]
  cases w with
  | store v r => exact absurd rfl (hfits.stores h hin v)
  | load i r =>
    obtain rfl := hfits.loads h hin i rfl
    obtain rfl : r = none := by simpa [Work.isAnswered] using hquery
    refine .still ⟨rfl, by simp [Silent], fun j _ => ?_, fun j _ ha => by cases ha⟩
    by_cases hj : j = h
    · subst hj
      exact Or.inr ⟨hnone, hsets.self⟩
    · exact Or.inl (hsets.other hj)

theorem turn_of_began {i : Key} (hfits : Fits key crowd a) (hmanned : c.Manned key crowd)
    (hin : h ∈ crowd) (hadmits : Admits c h (.load i none) a) (hnone : c.get? i = none)
    (hlock : c.Free i.encode) (hindex : u.index = c.index.beginLoad i.encode)
    (hsets : Sets c u h (some ⟨h, .load i none, .running⟩)) :
    Turn c key crowd a u (c.told a .pending u) := by
  have htold : c.told a .pending u = [.began h] ∨ c.told a .pending u = [.began h, .asked h] :=
    (told_began hadmits hsets).imp_right And.right
  cases hadmits with
  | atOnce hfree =>
    obtain rfl := hfits.loads h hin i rfl
    exact .began hin htold (.of_absent hfree) hnone hlock hindex hsets
  | later hf =>
    obtain rfl := hmanned.key_eq hin hf
    exact .began hin htold (.of_waiting hf) hnone hlock hindex hsets

omit [Cacheable α] in
/-- Nobody in the crowd stores. -/
theorem Manned.not_admits_store {r : Option (Except Error Unit)} (hmanned : c.Manned key crowd)
    (hfits : Fits key crowd a) (hin : h ∈ crowd) : ¬ Admits c h (.store v r) a := by
  intro hadmits
  cases hadmits with
  | atOnce _ => exact hfits.stores h hin v rfl
  | later hf => exact hmanned.ne_store hin hf

theorem turn_of_moves (hm : Moves c a p u) (hfits : Fits key crowd a)
    (hmanned : c.Manned key crowd) :
    Turn c key crowd a u (c.told a p u) := by
  by_cases hown : ∃ h ∈ crowd, a.handle? = some h
  case neg => exact turn_of_others hm fun h hin hsame => hown ⟨h, hin, hsame⟩
  obtain ⟨h, hin, hhandle⟩ := hown
  have hmember : ∀ {j}, a.handle? = some j → j ∈ crowd :=
    fun hj => Option.some.inj (hhandle.symm.trans hj) ▸ hin
  cases hm with
  | idle hidle hindex hsame => exact turn_of_idle hidle hindex hsame hfits hin hhandle
  | queued hnone _ hquery hindex hsets =>
    exact turn_of_queued hfits (hmember (handle?_starting _ _)) hnone hquery hsets
  | found hf hv hindex hsets =>
    obtain rfl := hmanned.key_eq (hmember rfl) hf
    rw [told_returned hf]
    exact .found (hmember rfl) (Or.inl rfl) (.of_waiting hf) hv hindex hsets
  | began hadmits hnone hlock hindex hsets =>
    exact turn_of_began hfits hmanned (hmember hadmits.handle?) hadmits hnone hlock hindex hsets
  | persists hadmits _ _ _ =>
    exact absurd hadmits (hmanned.not_admits_store hfits (hmember hadmits.handle?))
  | answeredLoad hf hindex hsets =>
    obtain rfl := hmanned.key_eq (hmember rfl) hf
    exact .answered (hmember rfl) (told_answered hf) hf hindex hsets
  | answeredStore hf _ _ => exact absurd hf (hmanned.ne_store (hmember rfl))
  | loaded hf hindex hsets =>
    obtain rfl := hmanned.key_eq (hmember rfl) hf
    exact .ended (hmember rfl) (told_returned hf) hf hindex hsets
  | failed hf _ _ =>
    obtain rfl := hmanned.key_eq (hmember rfl) hf
    exact .failed (hmember rfl) hf
  | committed hf _ _ => exact absurd hf (hmanned.ne_store (hmember rfl))
  | rejected hf _ _ => exact absurd hf (hmanned.ne_store (hmember rfl))
  | abandoned _ _ _ => exact absurd rfl (hfits.stays _ (hmember rfl))
  | withdrawn _ _ _ _ => exact absurd rfl (hfits.stays _ (hmember rfl))
  | invalidated _ _ => cases hhandle

/-! ### The three stages -/

/-- Nobody computes yet. -/
structure Before (key : Key) (crowd : List Nat) (c : EntityCache α) (es : List (Event α)) :
    Prop where
  begun : begun crowd es = []
  silent : Silent crowd es
  absent : c.get? key = none
  waits : ∀ j ∈ crowd, c.Waits key j

/-- `h` computes, and what it may come to is watched.  It will not learn that anything that is
watched was touched. -/
structure During (W : String → Prop) (key : Key) (crowd : List Nat) (h : Nat)
    (r : Option (Except Error α)) (c : EntityCache α) (es : List (Event α)) : Prop where
  member : h ∈ crowd
  begun : begun crowd es = [h]
  silent : Silent crowd es
  absent : c.get? key = none
  running : c.flight? h = some ⟨h, .load key r, .running⟩
  waits : ∀ j ∈ crowd, j ≠ h → c.Waits key j
  answered : ∀ x, r = some x → ∃ v, x = .ok v ∧ [.answered h (.ok v), .began h].Sublist es ∧
    ∀ k ∈ aliases v, W k
  unmarked : ∀ k, W k → ¬ c.index.Marked key.encode k

/-- The value of `h` is cached and kept, and whoever has returned has it. -/
structure After (W : String → Prop) (key : Key) (crowd : List Nat) (h : Nat) (v : α)
    (c : EntityCache α) (es : List (Event α)) : Prop where
  member : h ∈ crowd
  begun : begun crowd es = [h]
  answered : [.answered h (.ok v), .began h].Sublist es
  keeps : c.index.Keeps W key.encode v
  waits : ∀ j ∈ crowd, c.Waits key j
  returned : .returned h key (.ok v) ∈ es
  returns : ∀ j ∈ crowd, ∀ i r, .returned j i r ∈ es → i = key ∧ r = .ok v

/-- How far a crowd has come. -/
inductive Stage (W : String → Prop) (key : Key) (crowd : List Nat) (c : EntityCache α)
    (es : List (Event α)) : Prop
  | before : Before key crowd c es → Stage W key crowd c es
  | during {h : Nat} {r : Option (Except Error α)} : During W key crowd h r c es →
      Stage W key crowd c es
  | after {h : Nat} {v : α} : After W key crowd h v c es → Stage W key crowd c es

omit [Cacheable α] in
theorem began_of_begun (hbegun : begun crowd es = [h]) : .began h ∈ es := by
  have hmem : h ∈ begun crowd es := by simp [hbegun]
  obtain ⟨e, he, hsome⟩ := List.mem_filterMap.1 hmem
  cases e with
  | began j =>
    simp only [Option.ite_none_right_eq_some, Option.some.injEq] at hsome
    exact hsome.2 ▸ he
  | _ => cases hsome

omit [Cacheable α] in
theorem begun_append (crowd : List Nat) (newer es : List (Event α)) :
    begun crowd (newer ++ es) = begun crowd newer ++ begun crowd es :=
  List.filterMap_append

omit [Cacheable α] in
theorem Silent.append {newer : List (Event α)} (hnewer : Silent crowd newer)
    (hes : Silent crowd es) :
    Silent crowd (newer ++ es) := by
  intro j hj i r hmem
  rcases List.mem_append.1 hmem with hmem | hmem
  · exact hnewer j hj i r hmem
  · exact hes j hj i r hmem

/-! ### Who waits -/

omit [Cacheable α] in
theorem Waits.not_running {r : Option (Except Error α)} (hwaits : c.Waits key h) :
    c.flight? h ≠ some ⟨h, .load key r, .running⟩ := by
  intro hf
  cases hwaits _ hf

omit [Cacheable α] in
theorem Waits.of_other {f : Option (Flight α)} (hwaits : c.Waits key j) (hsets : Sets c u h f)
    (hother : j ≠ h) : u.Waits key j := by
  intro g hg
  exact hwaits g (hsets.other hother ▸ hg)

omit [Cacheable α] in
theorem waits_of_none (hsets : Sets c u h none) (hwaits : ∀ j ∈ crowd, j ≠ h → c.Waits key j) :
    ∀ j ∈ crowd, u.Waits key j := by
  intro j hj
  by_cases hsame : j = h
  · exact hsame ▸ .of_absent hsets.self
  · exact (hwaits j hj hsame).of_other hsets hsame

/-- The crowd stands as before, but for those who wait in addition. -/
theorem Still.waits (hstill : Still c key crowd a u es) (hj : j ∈ crowd) (hwaits : c.Waits key j) :
    u.Waits key j := by
  rcases hstill.flights j hj with hsame | ⟨-, hnew⟩
  · intro f hf
    exact hwaits f (hsame ▸ hf)
  · exact .of_waiting hnew

theorem Still.flight {f : Flight α} (hstill : Still c key crowd a u es) (hj : j ∈ crowd)
    (hf : c.flight? j = some f) : u.flight? j = some f := by
  rcases hstill.flights j hj with hsame | ⟨hnone, -⟩
  · exact hsame.trans hf
  · cases hnone.symm.trans hf

theorem Still.begun_append {newer : List (Event α)} (hstill : Still c key crowd a u newer) :
    EntityCache.begun crowd (newer ++ es) = EntityCache.begun crowd es := by
  rw [EntityCache.begun_append, hstill.begun, List.nil_append]

/-- What spares the watched keys by others does so altogether, where the crowd inserts nothing. -/
theorem Still.spares (hstill : Still c key crowd a u es) (htouches : ∀ k ∈ c.touches a, ¬ W k)
    (hinserts : ∀ j, a = .poll j → j ∉ crowd → ∀ k ∈ c.inserts a, ¬ W k) : c.Spares W a := by
  refine ⟨htouches, fun k hk => ?_⟩
  cases a with
  | poll j =>
    by_cases hj : j ∈ crowd
    · rw [hstill.inserts j hj rfl] at hk
      cases hk
    · exact hinserts j rfl hj k hk
  | _ => cases hk

/-! ### Before the computation -/

namespace Before

variable {newer : List (Event α)}

theorem still (hb : Before key crowd c es) (hc : c.Sound) (hm : Moves c a p u) (hkey : W key.encode)
    (hspares : c.Spares W a) (hstill : Still c key crowd a u newer) :
    Before key crowd u (newer ++ es) where
  begun := hstill.begun_append.trans hb.begun
  silent := hstill.silent.append hb.silent
  absent := hc.absent_of_moves hm hkey hspares hb.absent
  waits j hj := hstill.waits hj (hb.waits j hj)

/-- A load that begins computes from now on; nothing has been touched since. -/
theorem began (hb : Before key crowd c es) (hc : c.Sound) (hin : h ∈ crowd)
    (hnewer : newer = [.began h] ∨ newer = [.began h, .asked h])
    (hindex : u.index = c.index.beginLoad key.encode)
    (hsets : Sets c u h (some ⟨h, .load key none, .running⟩)) :
    During W key crowd h none u (newer ++ es) where
  member := hin
  begun := by
    rw [begun_append, hb.begun]
    rcases hnewer with rfl | rfl <;> simp [EntityCache.begun, hin]
  silent := by
    refine Silent.append ?_ hb.silent
    rcases hnewer with rfl | rfl <;> simp [Silent]
  absent := by
    rw [get?, hindex]
    exact hb.absent
  running := hsets.self
  waits j hj hother := (hb.waits j hj).of_other hsets hother
  answered x hx := by cases hx
  unmarked k _ := by
    rw [hindex]
    exact Index.not_marked_beginLoad hc.dated

end Before

/-! ### During the computation -/

namespace During

variable {r : Option (Except Error α)} {newer : List (Event α)}

/-- Whoever of the crowd computes is the one who does. -/
theorem eq_of_running {x : Option (Except Error α)} (hd : During W key crowd h r c es)
    (hin : j ∈ crowd) (hf : c.flight? j = some ⟨j, .load key x, .running⟩) : j = h ∧ x = r := by
  have hsame : j = h :=
    Decidable.byContradiction fun hother => (hd.waits j hin hother).not_running hf
  subst hsame
  have hflight := hf.symm.trans hd.running
  cases hflight
  exact ⟨rfl, rfl⟩

theorem still (hd : During W key crowd h r c es) (hc : c.Sound) (hm : Moves c a p u)
    (hkey : W key.encode) (hspares : c.Spares W a) (hstill : Still c key crowd a u newer) :
    During W key crowd h r u (newer ++ es) where
  member := hd.member
  begun := hstill.begun_append.trans hd.begun
  silent := hstill.silent.append hd.silent
  absent := hc.absent_of_moves hm hkey hspares hd.absent
  running := hstill.flight hd.member hd.running
  waits j hj hother := hstill.waits hj (hd.waits j hj hother)
  answered x hx := by
    obtain ⟨v, hv, hsub, hwatched⟩ := hd.answered x hx
    exact ⟨v, hv, hsub.trans (List.sublist_append_right _ _), hwatched⟩
  unmarked k hk hmarked := by
    have hruns : u.flight? h = some ⟨h, .load key r, .running⟩ :=
      hstill.flight hd.member hd.running
    rcases (hc.marked_of_moves hm ⟨r, hd.running⟩ ⟨r, hruns⟩).1 hmarked with hold | htouched
    · exact hd.unmarked k hk hold
    · exact hspares.touches k htouched hk

theorem answer {x : Option (Except Error α)} (hd : During W key crowd h x c es)
    (hindex : u.index = c.index) (hsets : Sets c u h (some ⟨h, .load key (some (.ok v)), .running⟩))
    (hwatched : ∀ k ∈ aliases v, W k) :
    During W key crowd h (some (.ok v)) u (.answered h (.ok v) :: es) where
  member := hd.member
  begun := hd.begun
  silent := by
    have hnewer : Silent crowd [.answered h (.ok v)] := by simp [Silent]
    exact hnewer.append hd.silent
  absent := by
    rw [get?, hindex]
    exact hd.absent
  running := hsets.self
  waits j hj hother := (hd.waits j hj hother).of_other hsets hother
  answered := by
    rintro _ ⟨⟩
    refine ⟨v, rfl, .cons_cons _ (List.singleton_sublist.2 ?_), hwatched⟩
    exact began_of_begun hd.begun
  unmarked := by
    rw [hindex]
    exact hd.unmarked

/-- The value is fresh, and so it is cached. -/
theorem ended (hd : During W key crowd h (some (.ok v)) c es) (hc : c.Sound) (hkey : W key.encode)
    (hindex : u.index = (if (c.index.finishLoad key.encode (some v)).1
      then ((c.index.finishLoad key.encode (some v)).2.insert v (some key.encode)).2
      else (c.index.finishLoad key.encode (some v)).2))
    (hsets : Sets c u h none) :
    After W key crowd h v u (.returned h key (.ok v) :: es) := by
  obtain ⟨v', hsame, hsub, hwatched⟩ := hd.answered _ rfl
  cases hsame
  have hfiles : ∀ k, Index.Files v (some key.encode) k → W k := by
    rintro k (halias | hlookup)
    · exact hwatched k halias
    · cases hlookup
      exact hkey
  have hfresh : (c.index.finishLoad key.encode (some v)).1 = true :=
    Index.finishLoad_fst.2
      ⟨hc.loading ⟨_, hd.running⟩, fun k hk => hd.unmarked k (hfiles k hk)⟩
  rw [if_pos hfresh] at hindex
  constructor
  case member => exact hd.member
  case begun => exact hd.begun
  case answered => exact hsub.cons _
  case keeps =>
    rw [hindex]
    exact Index.keeps_insert _ hfiles
  case waits => exact waits_of_none hsets hd.waits
  case returned => exact List.mem_cons_self
  case returns =>
    intro j hj i r hmem
    rcases List.mem_cons.1 hmem with hmem | hmem
    · cases hmem
      exact ⟨rfl, rfl⟩
    · exact absurd hmem (hd.silent j hj i r)

end During

/-! ### After the computation -/

namespace After

variable {newer : List (Event α)}

theorem still {w : α} (ha : After W key crowd h w c es) (hc : c.Sound) (hm : Moves c a p u)
    (hkey : W key.encode) (hspares : c.Spares W a) (hstill : Still c key crowd a u newer) :
    After W key crowd h w u (newer ++ es) where
  member := ha.member
  begun := hstill.begun_append.trans ha.begun
  answered := ha.answered.trans (List.sublist_append_right _ _)
  keeps := hc.keeps_of_moves hm ha.keeps hkey hspares
  waits j hj := hstill.waits hj (ha.waits j hj)
  returned := List.mem_append_right _ ha.returned
  returns j hj i r hmem := by
    rcases List.mem_append.1 hmem with hmem | hmem
    · exact absurd hmem (hstill.silent j hj i r)
    · exact ha.returns j hj i r hmem

omit [Cacheable α] in
/-- Whoever finds a value finds the one that was computed. -/
theorem found {w : α} (ha : After W key crowd h w c es) (hv : c.get? key = some v)
    (hnewer : newer = [.returned j key (.ok v)] ∨ newer = [.returned j key (.ok v), .asked j])
    (hindex : u.index = c.index) (hsets : Sets c u j none) :
    After W key crowd h w u (newer ++ es) := by
  obtain rfl : v = w := Option.some.inj (hv.symm.trans ha.keeps.get?)
  constructor
  case member => exact ha.member
  case begun =>
    rw [begun_append, ha.begun]
    rcases hnewer with rfl | rfl <;> rfl
  case answered => exact ha.answered.trans (List.sublist_append_right _ _)
  case keeps =>
    rw [hindex]
    exact ha.keeps
  case waits => exact waits_of_none hsets fun j hj _ => ha.waits j hj
  case returned => exact List.mem_append_right _ ha.returned
  case returns =>
    intro j hj i r hmem
    rcases List.mem_append.1 hmem with hmem | hmem
    · rcases hnewer with rfl | rfl <;> simp at hmem <;> exact hmem.2
    · exact ha.returns j hj i r hmem

end After

/-! ### From stage to stage -/

namespace Stage

theorem manned (hs : Stage W key crowd c es) : c.Manned key crowd := by
  have hwaits : ∀ {j}, c.Waits key j → ∀ f, c.flight? j = some f →
      ∃ r phase, f = ⟨j, .load key r, phase⟩ :=
    fun hwaits f hf => ⟨none, .waiting, hwaits f hf⟩
  intro j hj f hf
  cases hs with
  | before hb => exact hwaits (hb.waits j hj) f hf
  | @during h r hd =>
    by_cases hsame : j = h
    · subst hsame
      exact ⟨r, .running, Option.some.inj (hf.symm.trans hd.running)⟩
    · exact hwaits (hd.waits j hj hsame) f hf
  | after ha => exact hwaits (ha.waits j hj) f hf

/-- Where nothing is found and nobody computes, nobody has begun. -/
theorem before_of_free (hs : Stage W key crowd c es) (hmiss : c.get? key = none)
    (hlock : c.Free key.encode) : Before key crowd c es := by
  cases hs with
  | before hb => exact hb
  | during hd => exact absurd rfl (hlock _ _ hd.running rfl)
  | after ha => cases hmiss.symm.trans ha.keeps.get?

theorem during_of_running {r : Option (Except Error α)} (hs : Stage W key crowd c es)
    (hin : h ∈ crowd) (hf : c.flight? h = some ⟨h, .load key r, .running⟩) :
    During W key crowd h r c es := by
  cases hs with
  | before hb => exact absurd hf (hb.waits h hin).not_running
  | during hd =>
    obtain ⟨rfl, rfl⟩ := hd.eq_of_running hin hf
    exact hd
  | after ha => exact absurd hf (ha.waits h hin).not_running

theorem after_of_found (hs : Stage W key crowd c es) (hv : c.get? key = some v) :
    ∃ h w, After W key crowd h w c es := by
  cases hs with
  | before hb => cases hb.absent.symm.trans hv
  | during hd => cases hd.absent.symm.trans hv
  | after ha => exact ⟨_, _, ha⟩

/-- No action leads out of the stages that leaves alone what is watched. -/
theorem of_moves (hc : c.Sound) (hs : Stage W key crowd c es) (hm : Moves c a p u)
    (hfits : Fits key crowd a) (hkey : W key.encode) (htouches : ∀ k ∈ c.touches a, ¬ W k)
    (hinserts : ∀ j, a = .poll j → j ∉ crowd → ∀ k ∈ c.inserts a, ¬ W k)
    (hanswers : ∀ h ∈ crowd, ∀ r, .answered h r ∈ c.told a p u →
      ∃ v, r = .ok v ∧ ∀ k ∈ aliases v, W k) :
    Stage W key crowd u (c.told a p u ++ es) := by
  have hturn := turn_of_moves hm hfits hs.manned
  generalize c.told a p u = newer at hturn hanswers ⊢
  cases hturn with
  | still hstill =>
    have hspares := hstill.spares htouches hinserts
    cases hs with
    | before hb => exact .before (hb.still hc hm hkey hspares hstill)
    | during hd => exact .during (hd.still hc hm hkey hspares hstill)
    | after ha => exact .after (ha.still hc hm hkey hspares hstill)
  | began hin hnewer _ hmiss hlock hindex hsets =>
    exact .during ((hs.before_of_free hmiss hlock).began hc hin hnewer hindex hsets)
  | @answered h x hin hnewer hf hindex hsets =>
    subst hnewer
    obtain ⟨v, rfl, hwatched⟩ := hanswers h hin x List.mem_cons_self
    exact .during ((hs.during_of_running hin hf).answer hindex hsets hwatched)
  | found _ hnewer _ hv hindex hsets =>
    obtain ⟨h, w, ha⟩ := hs.after_of_found hv
    exact .after (ha.found hv hnewer hindex hsets)
  | ended hin hnewer hf hindex hsets =>
    subst hnewer
    exact .after ((hs.during_of_running hin hf).ended hc hkey hindex hsets)
  | failed hin hf =>
    obtain ⟨v, hsame, -⟩ := (hs.during_of_running hin hf).answered _ rfl
    cases hsame

end Stage

end EntityCache

end StatusStore.Cache
