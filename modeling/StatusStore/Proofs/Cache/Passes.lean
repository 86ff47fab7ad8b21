/-
  StatusStore/Proofs/Cache/Passes.lean
  ====================================
  **A cache never gets stuck.**  A flight that is polled goes on as far as it can:
  if it holds the lock of its key its closure runs to its end and the flight is
  over, and if it waits it gets the lock, unless a flight that computes has it.

  So a pass over all flights, in whatever order, ends one of them.  For if it ended
  none, each would have been found waiting for a lock that another one holds, and
  the holder would have been found waiting too (`exists_ended_of_pass`).  As many
  passes as there are flights end them all; then no lock is taken and the index
  knows of no load (`run_passes`).
-/
import StatusStore.Cache.Caches
import StatusStore.Proofs.Cache.Tracking

namespace StatusStore.Cache

/-- What a closure comes to when it is polled, as that of a load or of a store. -/
structure Yield (α : Type) where
  loads : Except Error α
  stores : Except Error Unit

def Progress.Ends {α : Type} (p : Progress α) : Prop := (∃ r, p = .loaded r) ∨ ∃ r, p = .stored r

namespace EntityCache

variable {α : Type} [Cacheable α] {c u : EntityCache α} {h j : Nat} {o : Yield α}
  {p : Progress α} {a : Action α} {w : Work α} {order : List (Nat × Yield α)}

/-! ### Polls of closures that finish -/

def answer (c : EntityCache α) (h : Nat) (o : Yield α) : EntityCache α :=
  ((c.act (.answerLoad h o.loads)).2.act (.answerStore h o.stores)).2

/-- Poll a flight whose closure finishes when it is polled: a poll that reaches the closure goes on
with what it comes to. -/
def finish (c : EntityCache α) (h : Nat) (o : Yield α) : Progress α × EntityCache α :=
  let polled := c.act (.poll h)
  if polled.2.isAsking h then (polled.2.answer h o).act (.poll h) else polled

/-- Poll flights in turn; answers what each has told. -/
def pass (c : EntityCache α) : List (Nat × Yield α) → List (Nat × Progress α) × EntityCache α
  | [] => ([], c)
  | (h, o) :: rest =>
    let (p, c) := c.finish h o
    let (told, c) := c.pass rest
    ((h, p) :: told, c)

def passes (c : EntityCache α) (orders : List (List (Nat × Yield α))) : EntityCache α :=
  orders.foldl (fun c order => (c.pass order).2) c

def Covers (c : EntityCache α) (order : List (Nat × Yield α)) : Prop :=
  ∀ h ∈ c.unfinished, ∃ o, (h, o) ∈ order

/-- Every pass of some polls every flight that is left. -/
def CoversAll (c : EntityCache α) : List (List (Nat × Yield α)) → Prop
  | [] => True
  | order :: rest => c.Covers order ∧ CoversAll (c.pass order).2 rest

omit [Cacheable α] in
theorem mem_unfinished : h ∈ c.unfinished ↔ ∃ f, c.flight? h = some f := by
  rw [← Option.isSome_iff_exists, flight?, List.find?_isSome, unfinished, List.mem_map]
  simp

/-! ### They are actions -/

theorem finish_run (c : EntityCache α) (h : Nat) (o : Yield α) :
    ∃ actions, (c.finish h o).2 = c.run actions := by
  unfold finish
  dsimp only
  split
  · exact ⟨[.poll h, .answerLoad h o.loads, .answerStore h o.stores, .poll h], rfl⟩
  · exact ⟨[.poll h], rfl⟩

/-- Whatever passes do, actions can do. -/
theorem pass_run (c : EntityCache α) (order : List (Nat × Yield α)) :
    ∃ actions, (c.pass order).2 = c.run actions := by
  induction order generalizing c with
  | nil => exact ⟨[], rfl⟩
  | cons x order ih =>
    obtain ⟨h, o⟩ := x
    obtain ⟨first, hfirst⟩ := c.finish_run h o
    obtain ⟨rest, hrest⟩ := ih (c.finish h o).2
    refine ⟨first ++ rest, ?_⟩
    rw [run, List.foldl_append]
    exact hrest.trans (congrArg (·.run rest) hfirst)

/-! ### What comes of one poll -/

/-- What comes of polling a flight whose closure finishes: it ends, or it waits for a lock that is
held, or there was none. -/
inductive Finished (c u : EntityCache α) (h : Nat) : Progress α → Prop
  | ended {p : Progress α} : p.Ends → (∃ f, c.flight? h = some f) → u.flight? h = none →
      (∀ j, j ≠ h → u.flight? j = c.flight? j) → Finished c u h p
  | blocked {w : Work α} : c.flight? h = some ⟨h, w, .waiting⟩ →
      ¬ c.Free (Flight.lockKey ⟨h, w, .waiting⟩) → (∀ j, u.flight? j = c.flight? j) →
      Finished c u h .pending
  | gone : c.flight? h = none → (∀ j, u.flight? j = c.flight? j) → Finished c u h .over

/-- A flight that waits and is polled ends, or computes, or waits for a lock that is held. -/
theorem Moves.waiting (hm : Moves c (.poll h) p u) (hf : c.flight? h = some ⟨h, w, .waiting⟩) :
    (p.Ends ∧ u.flight? h = none) ∨ u.flight? h = some ⟨h, w, .running⟩ ∨
      (p = .pending ∧ ¬ c.Free (Flight.lockKey ⟨h, w, .waiting⟩) ∧
        u.flight? h = some ⟨h, w, .waiting⟩) := by
  generalize ha : Action.poll h = a at hm
  have hsame : ∀ {i : Nat} {f : Flight α}, .poll h = (.poll i : Action α) → c.flight? i = some f →
      i = h ∧ f = ⟨h, w, .waiting⟩ := by
    rintro i f ⟨⟩ hg
    exact ⟨rfl, Option.some.inj (hg.symm.trans hf)⟩
  cases hm with
  | idle hidle _ hflights =>
    cases hidle with
    | @busy i w _ _ => cases w <;> cases ha
    | unused hnone =>
      cases ha
      rw [hf] at hnone
      cases hnone
    | asking hg hruns _ =>
      obtain ⟨rfl, rfl⟩ := hsame ha hg
      cases hruns
    | blocked hg _ hheld =>
      obtain ⟨rfl, rfl⟩ := hsame ha hg
      exact Or.inr (Or.inr ⟨rfl, hheld, (hflights _).trans hf⟩)
    | unheard hanswer _ _ => obtain ⟨r, rfl⟩ | ⟨r, rfl⟩ := hanswer <;> cases ha
    | _ => cases ha
  | @queued i w _ _ _ _ _ _ => cases w <;> cases ha
  | found hg _ _ hsets =>
    obtain ⟨rfl, -⟩ := hsame ha hg
    exact Or.inl ⟨Or.inl ⟨_, rfl⟩, hsets.self⟩
  | began hadmits _ _ _ hsets =>
    cases hadmits with
    | atOnce _ => cases ha
    | later hg =>
      obtain ⟨rfl, hwork⟩ := hsame ha hg
      cases hwork
      exact Or.inr (Or.inl hsets.self)
  | @persists _ i v _ hadmits _ _ hsets =>
    cases hadmits with
    | atOnce _ => cases ha
    | later hg =>
      obtain ⟨rfl, hwork⟩ := hsame ha hg
      cases hwork
      exact Or.inr (Or.inl hsets.self)
  | loaded hg _ _ => cases (hsame ha hg).2
  | failed hg _ _ => cases (hsame ha hg).2
  | committed hg _ _ => cases (hsame ha hg).2
  | rejected hg _ _ => cases (hsame ha hg).2
  | _ => cases ha

/-! ### What a closure comes to is heard -/

theorem flight?_answerLoad (hf : c.flight? h = some ⟨h, w, .running⟩) (r : Except Error α) :
    (c.act (.answerLoad h r)).2.flight? h = some ⟨h, w.answerLoad r, .running⟩ := by
  simp only [act]
  split
  · exact (sets_modifyFlight (g := fun f => { f with work := f.work.answerLoad r }) hf
      fun _ => rfl).self
  · rename_i hdeaf
    rw [hf]
    rcases w with ⟨key, _ | _⟩ | ⟨v, _⟩
    · simp [isAsking, hf, Work.isAnswered] at hdeaf
    · rfl
    · rfl

theorem flight?_answerStore (hf : c.flight? h = some ⟨h, w, .running⟩) (r : Except Error Unit) :
    (c.act (.answerStore h r)).2.flight? h = some ⟨h, w.answerStore r, .running⟩ := by
  simp only [act]
  split
  · exact (sets_modifyFlight (g := fun f => { f with work := f.work.answerStore r }) hf
      fun _ => rfl).self
  · rename_i hdeaf
    rw [hf]
    rcases w with ⟨key, _⟩ | ⟨v, _ | _⟩
    · rfl
    · simp [isAsking, hf, Work.isAnswered] at hdeaf
    · rfl

namespace Gripped

theorem answered (hc : c.Gripped) (h : Nat) (o : Yield α) : (c.answer h o).Gripped :=
  (hc.act (.answerLoad h o.loads)).act (.answerStore h o.stores)

theorem answer_others (hc : c.Gripped) (h : Nat) (o : Yield α) (hj : j ≠ h) :
    (c.answer h o).flight? j = c.flight? j := by
  have hother : ∀ a : Action α, a.handle? = some h → ∀ d : EntityCache α, d.Gripped →
      (d.act a).2.flight? j = d.flight? j := by
    intro a ha d hd
    refine (hd.moves a).1.others fun hown => hj ?_
    exact Option.some.inj (hown.symm.trans ha)
  have hload := hother (.answerLoad h o.loads) rfl c hc
  exact (hother (.answerStore h o.stores) rfl _ (hc.act _)).trans hload

/-- A flight that computes ends when its closure finishes. -/
theorem answered_ends (hc : c.Gripped) (hf : c.flight? h = some ⟨h, w, .running⟩) (o : Yield α) :
    ((c.answer h o).act (.poll h)).1.Ends ∧ ((c.answer h o).act (.poll h)).2.flight? h = none := by
  have hgripped : (c.answer h o).Gripped := hc.answered h o
  have hanswered : (c.answer h o).flight? h =
      some ⟨h, (w.answerLoad o.loads).answerStore o.stores, .running⟩ :=
    flight?_answerStore (flight?_answerLoad hf o.loads) o.stores
  have hknown : ((w.answerLoad o.loads).answerStore o.stores).isAnswered = true := by
    rcases w with ⟨key, _ | _⟩ | ⟨v, _ | _⟩ <;> rfl
  have hpolled := (hgripped.moves (.poll h)).1.polled hanswered
  generalize (w.answerLoad o.loads).answerStore o.stores = w' at hknown hpolled
  generalize (c.answer h o).act (.poll h) = polled at hpolled ⊢
  obtain ⟨p, u⟩ := polled
  dsimp only at hpolled
  cases hpolled with
  | asking hquery =>
    rw [hknown] at hquery
    cases hquery
  | loaded hgone => exact ⟨Or.inl ⟨_, rfl⟩, hgone⟩
  | stored hgone => exact ⟨Or.inr ⟨_, rfl⟩, hgone⟩

theorem poll_others (hc : c.Gripped) (hj : j ≠ h) :
    (c.act (.poll h)).2.flight? j = c.flight? j := by
  refine (hc.moves (.poll h)).1.others fun hown => hj ?_
  exact (Option.some.inj hown).symm

/-- A flight that is polled and computes, with its closure answered or not, is polled to its end. -/
theorem finish_running (hc : c.Gripped) (hf : c.flight? h = some ⟨h, w, .running⟩) (o : Yield α) :
    (c.finish h o).1.Ends ∧ (c.finish h o).2.flight? h = none := by
  have hm := (hc.moves (.poll h)).1
  have hgripped := hc.act (.poll h)
  have hpolled := hm.polled hf
  have hfate := hm.fate hf (by simp)
  unfold EntityCache.finish
  generalize c.act (.poll h) = polled at hm hgripped hpolled hfate ⊢
  obtain ⟨p, u⟩ := polled
  dsimp only at hm hgripped hpolled hfate ⊢
  cases hpolled with
  | asking hquery =>
    have hg : u.flight? h = some ⟨h, w, .running⟩ := by
      generalize u.flight? h = g at hfate ⊢
      cases hfate with
      | same => rfl
      | answeredLoad ha => cases ha
      | answeredStore ha => cases ha
      | loaded _ hp => cases hp
      | stored _ hp => cases hp
    rw [if_pos (isAsking_iff.2 ⟨_, hg, rfl, hquery⟩)]
    exact hgripped.answered_ends hg o
  | loaded hgone =>
    rw [if_neg (by simp [isAsking, hgone])]
    exact ⟨Or.inl ⟨_, rfl⟩, hgone⟩
  | stored hgone =>
    rw [if_neg (by simp [isAsking, hgone])]
    exact ⟨Or.inr ⟨_, rfl⟩, hgone⟩

theorem finish_waiting (hc : c.Gripped) (hf : c.flight? h = some ⟨h, w, .waiting⟩) (o : Yield α) :
    ((c.finish h o).1.Ends ∧ (c.finish h o).2.flight? h = none) ∨
      ((c.finish h o).1 = .pending ∧ ¬ c.Free (Flight.lockKey ⟨h, w, .waiting⟩) ∧
        (c.finish h o).2.flight? h = some ⟨h, w, .waiting⟩) := by
  have hm := (hc.moves (.poll h)).1
  have hgripped := hc.act (.poll h)
  have hquery := hc.unanswered hf rfl
  unfold EntityCache.finish
  generalize c.act (.poll h) = polled at hm hgripped ⊢
  obtain ⟨p, u⟩ := polled
  dsimp only at hm hgripped ⊢
  rcases hm.waiting hf with ⟨hends, hgone⟩ | hg | ⟨rfl, hheld, hg⟩
  · left
    rw [if_neg (by simp [isAsking, hgone])]
    exact ⟨hends, hgone⟩
  · left
    rw [if_pos (isAsking_iff.2 ⟨_, hg, rfl, hquery⟩)]
    exact hgripped.answered_ends hg o
  · right
    rw [if_neg (by simp [isAsking, hg])]
    exact ⟨rfl, hheld, hg⟩

theorem finish_others (hc : c.Gripped) (h : Nat) (o : Yield α) (hj : j ≠ h) :
    (c.finish h o).2.flight? j = c.flight? j := by
  have hpoll : (c.act (.poll h)).2.flight? j = c.flight? j := hc.poll_others hj
  unfold EntityCache.finish
  dsimp only
  split
  · have hgripped : (c.act (.poll h)).2.Gripped := hc.act (.poll h)
    rw [(hgripped.answered h o).poll_others hj, hgripped.answer_others h o hj, hpoll]
  · exact hpoll

theorem finish_gone (hf : c.flight? h = none) (o : Yield α) : c.finish h o = (.over, c) := by
  have hsame : c.act (.poll h) = (.over, c) := by simp [EntityCache.act, poll, hf]
  have hdeaf : c.isAsking h = false := by simp [isAsking, hf]
  simp only [EntityCache.finish, hsame, hdeaf, Bool.false_eq_true, if_false]

theorem finished (hc : c.Gripped) (h : Nat) (o : Yield α) :
    Finished c (c.finish h o).2 h (c.finish h o).1 := by
  have hothers : ∀ j, j ≠ h → (c.finish h o).2.flight? j = c.flight? j :=
    fun j hj => hc.finish_others h o hj
  cases hf : c.flight? h with
  | none =>
    rw [finish_gone hf]
    exact .gone hf fun _ => rfl
  | some f =>
    obtain ⟨i, w, phase⟩ := f
    obtain rfl : i = h := handle_of_flight? hf
    cases phase with
    | running =>
      obtain ⟨hends, hgone⟩ := hc.finish_running hf o
      exact .ended hends ⟨_, hf⟩ hgone hothers
    | waiting =>
      rcases hc.finish_waiting hf o with ⟨hends, hgone⟩ | ⟨hpending, hheld, hstays⟩
      · exact .ended hends ⟨_, hf⟩ hgone hothers
      · rw [hpending]
        refine .blocked hf hheld fun j => ?_
        by_cases hj : j = i
        · rw [hj, hstays, hf]
        · exact hothers j hj

theorem finish (hc : c.Gripped) (h : Nat) (o : Yield α) : (c.finish h o).2.Gripped := by
  obtain ⟨actions, hrun⟩ := c.finish_run h o
  exact hrun ▸ hc.run actions

theorem pass (hc : c.Gripped) (order : List (Nat × Yield α)) : (c.pass order).2.Gripped := by
  obtain ⟨actions, hrun⟩ := c.pass_run order
  exact hrun ▸ hc.run actions

end Gripped

/-! ### A pass -/

/-- No poll starts a flight. -/
theorem Finished.gone_of_gone (hfinished : Finished c u h p) (hj : c.flight? j = none) :
    u.flight? j = none := by
  cases hfinished with
  | ended _ _ hgone hothers =>
    by_cases hjh : j = h
    · rw [hjh, hgone]
    · rw [hothers j hjh, hj]
  | blocked _ _ hsame => exact (hsame j).trans hj
  | gone _ hsame => exact (hsame j).trans hj

theorem Finished.of_ends (hfinished : Finished c u h p) (hends : p.Ends) :
    (∃ f, c.flight? h = some f) ∧ u.flight? h = none := by
  cases hfinished with
  | ended _ hthere hgone _ => exact ⟨hthere, hgone⟩
  | blocked _ _ _ => obtain ⟨r, hr⟩ | ⟨r, hr⟩ := hends <;> cases hr
  | gone _ _ => obtain ⟨r, hr⟩ | ⟨r, hr⟩ := hends <;> cases hr

theorem Finished.of_not_ends (hfinished : Finished c u h p) (hgoes : ¬ p.Ends) :
    (∀ j, u.flight? j = c.flight? j) ∧ (c.flight? h = none ∨
      ∃ w, c.flight? h = some ⟨h, w, .waiting⟩ ∧ ¬ c.Free (Flight.lockKey ⟨h, w, .waiting⟩)) := by
  cases hfinished with
  | ended hends _ _ _ => exact absurd hends hgoes
  | blocked hwaits hheld hsame => exact ⟨hsame, Or.inr ⟨_, hwaits, hheld⟩⟩
  | gone hnone hsame => exact ⟨hsame, Or.inl hnone⟩

theorem Gripped.pass_gone (hc : c.Gripped) (order : List (Nat × Yield α))
    (hj : c.flight? j = none) : (c.pass order).2.flight? j = none := by
  induction order generalizing c with
  | nil => exact hj
  | cons x order ih =>
    obtain ⟨h, o⟩ := x
    exact ih (hc.finish h o) ((hc.finished h o).gone_of_gone hj)

theorem Gripped.unfinished_of_pass (hc : c.Gripped) (hmem : j ∈ (c.pass order).2.unfinished) :
    j ∈ c.unfinished := by
  obtain ⟨f, hf⟩ := mem_unfinished.1 hmem
  cases hbefore : c.flight? j with
  | some g => exact mem_unfinished.2 ⟨g, hbefore⟩
  | none =>
    rw [hc.pass_gone order hbefore] at hf
    cases hf

/-- A flight that tells how it ended was there before the pass and is gone after it. -/
theorem Gripped.gone_of_told (hc : c.Gripped) (htold : (h, p) ∈ (c.pass order).1) (hends : p.Ends) :
    (∃ f, c.flight? h = some f) ∧ (c.pass order).2.flight? h = none := by
  induction order generalizing c with
  | nil => cases htold
  | cons x order ih =>
    obtain ⟨i, o⟩ := x
    have hfinished := hc.finished i o
    rcases List.mem_cons.1 htold with hfirst | hrest
    · obtain ⟨rfl, rfl⟩ := Prod.mk.inj hfirst
      obtain ⟨hthere, hgone⟩ := hfinished.of_ends hends
      exact ⟨hthere, (hc.finish h o).pass_gone order hgone⟩
    · obtain ⟨⟨f, hf⟩, hgone⟩ := ih (hc.finish i o) hrest
      refine ⟨?_, hgone⟩
      cases hbefore : c.flight? h with
      | some g => exact ⟨g, rfl⟩
      | none =>
        rw [hfinished.gone_of_gone hbefore] at hf
        cases hf

/-- If a pass ends no flight, each that it polls waits for a lock that another one holds. -/
theorem Gripped.blocked_of_pass (hc : c.Gripped) (hnone : ∀ x ∈ (c.pass order).1, ¬ x.2.Ends)
    (hmem : (h, o) ∈ order) : c.flight? h = none ∨
      ∃ w, c.flight? h = some ⟨h, w, .waiting⟩ ∧ ¬ c.Free (Flight.lockKey ⟨h, w, .waiting⟩) := by
  induction order generalizing c with
  | nil => cases hmem
  | cons x order ih =>
    obtain ⟨i, o'⟩ := x
    obtain ⟨hfirst, hrest⟩ := List.forall_mem_cons.1 hnone
    obtain ⟨hsame, hown⟩ := (hc.finished i o').of_not_ends hfirst
    rcases List.mem_cons.1 hmem with heq | hmem
    · obtain ⟨rfl, -⟩ := Prod.mk.inj heq
      exact hown
    · rcases ih (hc.finish i o') hrest hmem with hgone | ⟨w, hwaits, hheld⟩
      · exact Or.inl ((hsame h).symm.trans hgone)
      · refine Or.inr ⟨w, (hsame h).symm.trans hwaits, fun hfree => hheld ?_⟩
        exact fun j f hf => hfree j f (hsame j ▸ hf)

/-- A pass over all flights ends one of them. -/
theorem Gripped.exists_ended_of_pass (hc : c.Gripped) (hcovers : c.Covers order)
    (hsome : c.unfinished ≠ []) :
    ∃ h p, (h, p) ∈ (c.pass order).1 ∧ p.Ends ∧ h ∈ c.unfinished ∧
      h ∉ (c.pass order).2.unfinished := by
  suffices hends : ∃ x ∈ (c.pass order).1, x.2.Ends by
    obtain ⟨⟨h, p⟩, htold, hends⟩ := hends
    obtain ⟨hthere, hgone⟩ := hc.gone_of_told htold hends
    refine ⟨h, p, htold, hends, mem_unfinished.2 hthere, fun hstill => ?_⟩
    obtain ⟨f, hf⟩ := mem_unfinished.1 hstill
    rw [hgone] at hf
    cases hf
  refine Classical.byContradiction fun hnone => ?_
  have hblocked : ∀ {h : Nat}, h ∈ c.unfinished → ∃ w, c.flight? h = some ⟨h, w, .waiting⟩ ∧
      ¬ c.Free (Flight.lockKey ⟨h, w, .waiting⟩) := by
    intro h hmem
    obtain ⟨o, ho⟩ := hcovers h hmem
    obtain ⟨f, hf⟩ := mem_unfinished.1 hmem
    rcases hc.blocked_of_pass (fun x hx hends => hnone ⟨x, hx, hends⟩) ho with hgone | hwaits
    · rw [hgone] at hf
      cases hf
    · exact hwaits
  -- Who holds the lock for which one waits would wait too.
  obtain ⟨h, hmem⟩ := List.exists_mem_of_ne_nil _ hsome
  obtain ⟨w, -, hheld⟩ := hblocked hmem
  refine hheld fun j f hf hruns _ => ?_
  obtain ⟨w', hwaits, -⟩ := hblocked (mem_unfinished.2 ⟨f, hf⟩)
  rw [hf] at hwaits
  cases hwaits
  cases hruns

/-! ### The loads that the index knows of -/

def Registered (c : EntityCache α) : Prop :=
  ∀ k, (c.index.loading.get? k).isSome = true → ∃ j key, c.Loads j key ∧ key.encode = k

omit [Cacheable α] in
theorem Sets.keeps_loads {f : Option (Flight α)} {key : Key} (hsets : Sets c u h f)
    (hnot : ∀ key r, c.flight? h ≠ some ⟨h, .load key r, .running⟩) (hloads : c.Loads j key) :
    u.Loads j key := by
  obtain ⟨r, hf⟩ := hloads
  refine ⟨r, (hsets.other ?_).trans hf⟩
  rintro rfl
  exact hnot key r hf

namespace Registered

omit [Cacheable α] in
/-- The index knows of the same loads, and those compute that did. -/
theorem still (hc : c.Registered) (hindex : u.index.loading = c.index.loading)
    (hloads : ∀ {j key}, c.Loads j key → u.Loads j key) : u.Registered := by
  intro k hk
  rw [hindex] at hk
  obtain ⟨j, key, hj, hkey⟩ := hc k hk
  exact ⟨j, key, hloads hj, hkey⟩

omit [Cacheable α] in
/-- A load has ended, and the index knows of it no more. -/
theorem ends {key : Key} {r : Option (Except Error α)} (hc : c.Registered)
    (hf : c.flight? h = some ⟨h, .load key r, .running⟩)
    (hindex : ∀ k, u.index.loading.get? k = if k = key.encode then none else c.index.loading.get? k)
    (hsets : Sets c u h none) : u.Registered := by
  intro k hk
  rw [hindex] at hk
  split at hk
  · cases hk
  · rename_i hother
    obtain ⟨j, i, ⟨r', hj⟩, hkey⟩ := hc k hk
    refine ⟨j, i, ⟨r', (hsets.other ?_).trans hj⟩, hkey⟩
    rintro rfl
    rw [hf] at hj
    cases hj
    exact hother hkey.symm

omit [Cacheable α] in
/-- A flight without the lock does not compute. -/
theorem not_loads_of_admits (hadmits : Admits c h w a) (key : Key) (r : Option (Except Error α)) :
    c.flight? h ≠ some ⟨h, .load key r, .running⟩ := by
  intro hf
  cases hadmits with
  | atOnce hnone =>
    rw [hnone] at hf
    cases hf
  | later hwaits =>
    rw [hwaits] at hf
    cases hf

theorem of_moves (hc : c.Registered) (hm : Moves c a p u) : u.Registered := by
  have hother : ∀ {h : Nat} {f : Flight α}, c.flight? h = some f →
      (∀ key r, f ≠ ⟨h, .load key r, .running⟩) →
      ∀ key r, c.flight? h ≠ some ⟨h, .load key r, .running⟩ := by
    intro h f hf hnot key r hloads
    exact hnot key r (Option.some.inj (hf.symm.trans hloads))
  cases hm with
  | idle _ hindex hsame =>
    exact hc.still (congrArg _ hindex) fun ⟨r, hf⟩ => ⟨r, (hsame _).trans hf⟩
  | queued hnone _ _ hindex hsets =>
    exact hc.still (congrArg _ hindex) (hsets.keeps_loads (by simp [hnone]))
  | found hf _ hindex hsets =>
    exact hc.still (congrArg _ hindex) (hsets.keeps_loads (hother hf (by simp)))
  | @began a h key _ hadmits _ _ hindex hsets =>
    intro k hk
    rw [hindex, Index.loading_beginLoad] at hk
    split at hk
    · rename_i hown
      exact ⟨h, key, ⟨none, hsets.self⟩, hown.symm⟩
    · obtain ⟨j, i, hj, hkey⟩ := hc k hk
      exact ⟨j, i, hsets.keeps_loads (not_loads_of_admits hadmits) hj, hkey⟩
  | persists hadmits _ hindex hsets =>
    exact hc.still (congrArg _ hindex) (hsets.keeps_loads (not_loads_of_admits hadmits))
  | @answeredLoad h key r _ hf hindex hsets =>
    refine hc.still (congrArg _ hindex) fun {j i} ⟨r', hj⟩ => ?_
    by_cases hjh : j = h
    · subst hjh
      rw [hf] at hj
      cases hj
      exact ⟨some r, hsets.self⟩
    · exact ⟨r', (hsets.other hjh).trans hj⟩
  | answeredStore hf hindex hsets =>
    exact hc.still (congrArg _ hindex) (hsets.keeps_loads (hother hf (by simp)))
  | @loaded h key v _ hf hindex hsets =>
    have hended := c.index.ended_finishLoad key.encode (some v)
    refine hc.ends hf (fun k => ?_) hsets
    rw [hindex, ← hended.loading]
    split
    · rw [(Index.sameMarks_insert _ v (some key.encode)).loading]
    · rfl
  | @failed h key e _ hf hindex hsets =>
    have hended := c.index.ended_finishLoad key.encode none
    exact hc.ends hf (fun k => by rw [hindex, hended.loading]) hsets
  | committed hf hindex hsets =>
    refine hc.still ?_ (hsets.keeps_loads (hother hf (by simp)))
    rw [hindex, Index.loading_commit]
  | rejected hf hindex hsets =>
    exact hc.still (congrArg _ hindex) (hsets.keeps_loads (hother hf (by simp)))
  | @abandoned h key r _ hf hindex hsets =>
    have hended := c.index.ended_finishLoad key.encode none
    exact hc.ends hf (fun k => by rw [hindex, hended.loading]) hsets
  | withdrawn hf hnot hindex hsets =>
    exact hc.still (congrArg _ hindex) (hsets.keeps_loads (hother hf hnot))
  | invalidated hindex hsame =>
    refine hc.still ?_ fun ⟨r, hf⟩ => ⟨r, (hsame _).trans hf⟩
    rw [hindex, Index.loading_invalidate]

theorem run (hc : c.Registered) (hgripped : c.Gripped) (actions : List (Action α)) :
    (c.run actions).Registered := by
  induction actions generalizing c with
  | nil => exact hc
  | cons a actions ih => exact ih (hc.of_moves (hgripped.moves a).1) (hgripped.act a)

end Registered

/-! ### Passes until all flights have ended -/

/-- When all flights have ended, no lock is taken and the index knows of no load. -/
structure Rests (c : EntityCache α) : Prop where
  unfinished : c.unfinished = []
  unlocked : c.locks.table.isEmpty = true
  idle : c.index.loading.isEmpty = true

theorem Gripped.rests (hc : c.Gripped) (hregistered : c.Registered)
    (hnone : ∀ h, c.flight? h = none) : c.Rests where
  unfinished := by
    apply List.eq_nil_iff_forall_not_mem.2
    intro h hmem
    obtain ⟨f, hf⟩ := mem_unfinished.1 hmem
    rw [hnone] at hf
    cases hf
  unlocked := by
    apply hc.locks.isEmpty_of_done
    apply List.eq_nil_iff_forall_not_mem.2
    intro x hx
    have hgrip := hc.locks.grip?_of_mem hx
    rw [hc.grips, hnone] at hgrip
    cases hgrip
  idle := by
    apply (KeyMap.isEmpty_iff _).2
    intro k
    rw [Option.eq_none_iff_forall_ne_some]
    intro start hstart
    obtain ⟨j, key, ⟨r, hf⟩, -⟩ := hregistered k (Option.isSome_iff_exists.2 ⟨start, hstart⟩)
    rw [hnone] at hf
    cases hf

/-- Each pass ends a flight, so there are no more passes than flights until all have ended. -/
theorem Gripped.rests_of_passes {orders : List (List (Nat × Yield α))} (handles : List Nat)
    (hc : c.Gripped) (hregistered : c.Registered) (hcovers : c.CoversAll orders)
    (hhandles : ∀ h ∈ c.unfinished, h ∈ handles) (hlength : handles.length ≤ orders.length) :
    (c.passes orders).Rests := by
  induction orders generalizing c handles with
  | nil =>
    refine hc.rests hregistered fun h => ?_
    cases hf : c.flight? h with
    | none => rfl
    | some f =>
      have hmem := hhandles h (mem_unfinished.2 ⟨f, hf⟩)
      rw [List.length_eq_zero_iff.1 (Nat.le_zero.1 hlength)] at hmem
      cases hmem
  | cons order orders ih =>
    obtain ⟨hfirst, hrest⟩ := hcovers
    obtain ⟨actions, hrun⟩ := c.pass_run order
    have hgripped : (c.pass order).2.Gripped := hc.pass order
    have hknown : (c.pass order).2.Registered := hrun ▸ hregistered.run hc actions
    by_cases hsome : c.unfinished = []
    · refine ih [] hgripped hknown hrest (fun i hmem => ?_) (Nat.zero_le _)
      rw [← hsome]
      exact hc.unfinished_of_pass hmem
    · obtain ⟨h, p, -, -, hthere, hgone⟩ := hc.exists_ended_of_pass hfirst hsome
      refine ih (handles.filter (· ≠ h)) hgripped hknown hrest ?_ ?_
      · intro i hmem
        refine List.mem_filter.2 ⟨hhandles i (hc.unfinished_of_pass hmem), decide_eq_true ?_⟩
        rintro rfl
        exact hgone hmem
      · have hshorter : (handles.filter (· ≠ h)).length < handles.length :=
          List.length_filter_lt_length_iff_exists.2 ⟨h, hhandles h hthere, by simp⟩
        rw [List.length_cons] at hlength
        omega

/-- In whatever state a cache is, a pass over all its flights ends one of them, and as many passes as
there are flights end them all. -/
theorem run_passes (name : String) (frequency : UInt32) (before : List (Action α)) :
    let c := (withGcFrequency name frequency : EntityCache α).run before
    (∀ order, c.Covers order → c.unfinished ≠ [] →
      ∃ h p, (h, p) ∈ (c.pass order).1 ∧ p.Ends ∧ h ∈ c.unfinished ∧
        h ∉ (c.pass order).2.unfinished) ∧
    ∀ orders, c.CoversAll orders → c.unfinished.length ≤ orders.length → (c.passes orders).Rests := by
  intro c
  have hempty : (withGcFrequency name frequency : EntityCache α).Gripped :=
    .withGcFrequency name frequency
  have hregistered : (withGcFrequency name frequency : EntityCache α).Registered := by
    intro k hk
    cases hk
  have hc : c.Gripped := hempty.run before
  refine ⟨fun order hcovers hsome => hc.exists_ended_of_pass hcovers hsome, ?_⟩
  intro orders hcovers hlength
  exact hc.rests_of_passes _ (hregistered.run hempty before) hcovers (fun h hmem => hmem) hlength

/-! ### Three flights for one key -/

/-- Two loads of a list and a store of it, of which one computes and the others wait. -/
def queue : List (Action IdList) := [
  .load 0 (.ofTarget "S"), .load 1 (.ofTarget "S"), .store 2 ⟨"S", ["A"]⟩]

def lastFirst : List (Nat × Yield IdList) :=
  [2, 1, 0].map fun h => (h, ⟨.error .notFound, .ok ()⟩)

theorem run_passes_queue :
    let c := (withGcFrequency "lists" 16).run queue
    (∃ h p, (h, p) ∈ (c.pass lastFirst).1 ∧ p.Ends ∧ h ∈ c.unfinished ∧
      h ∉ (c.pass lastFirst).2.unfinished) ∧ (c.passes [lastFirst, lastFirst, lastFirst]).Rests := by
  intro c
  have hcovers : ∀ d : EntityCache IdList, (∀ h ∈ d.unfinished, h ∈ [2, 1, 0]) →
      d.Covers lastFirst :=
    fun d hin h hmem => ⟨_, List.mem_map.2 ⟨h, hin h hmem, rfl⟩⟩
  have hall : c.CoversAll [lastFirst, lastFirst, lastFirst] :=
    ⟨hcovers _ (by decide +kernel), hcovers _ (by decide +kernel), hcovers _ (by decide +kernel),
      trivial⟩
  obtain ⟨hone, hrests⟩ := run_passes "lists" 16 queue
  exact ⟨hone lastFirst hall.1 (by decide +kernel), hrests _ hall (by decide +kernel)⟩

end EntityCache

end StatusStore.Cache
