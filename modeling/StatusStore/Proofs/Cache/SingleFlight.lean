/-
  StatusStore/Proofs/Cache/SingleFlight.lean
  ==========================================
  **Single flight.**  A schedule is an endless sequence of actions.  While a crowd of
  loads of one key is not done, and nobody else touches or inserts what is watched,
  at most one of the crowd begins to compute and whoever returns has its value
  (`Crowd.stage_at`).  Where the crowd is called, polled and answered again and again,
  and nobody else takes the lock of the key forever, it comes to its end: somebody
  begins, has the answer, and then everybody returns (`Crowd.exists_done`).

  Main statement: `run_single_flight`.
-/
import Mathlib.Data.Nat.Find
import StatusStore.Cache.Caches
import StatusStore.Proofs.Cache.Crowd

namespace StatusStore.Cache

namespace EntityCache

variable {α : Type} [Cacheable α] {c : EntityCache α} {schedule : Nat → Action α} {a : Action α}
  {h j n : Nat} {key : Key} {crowd : List Nat}

/-! ### Endless schedules -/

def stateAt (c : EntityCache α) (schedule : Nat → Action α) : Nat → EntityCache α
  | 0 => c
  | n + 1 => ((c.stateAt schedule n).act (schedule n)).2

def historyAt (c : EntityCache α) (schedule : Nat → Action α) : Nat → List (Event α)
  | 0 => []
  | n + 1 => (c.stateAt schedule n).events (schedule n) ++ c.historyAt schedule n

theorem Sound.stateAt (hc : c.Sound) (schedule : Nat → Action α) (n : Nat) :
    (c.stateAt schedule n).Sound := by
  induction n with
  | zero => exact hc
  | succ n ih => exact ih.act (schedule n)

theorem Sound.moves_at (hc : c.Sound) (ha : schedule n = a) :
    ∃ p, Moves (c.stateAt schedule n) a p (c.stateAt schedule (n + 1)) ∧
      c.historyAt schedule (n + 1) =
        (c.stateAt schedule n).told a p (c.stateAt schedule (n + 1)) ++ c.historyAt schedule n := by
  subst ha
  exact ⟨_, ((hc.stateAt schedule n).moves (schedule n)).1, rfl⟩

/-- What has happened stays so. -/
theorem historyAt_suffix (c : EntityCache α) (schedule : Nat → Action α) {m : Nat} (hle : n ≤ m) :
    c.historyAt schedule n <:+ c.historyAt schedule m := by
  induction hle with
  | refl => exact List.suffix_rfl
  | step _ ih => exact ih.trans (List.suffix_append _ _)

/-! ### A crowd in a schedule -/

/-- Everybody in the crowd has returned. -/
def Done (crowd : List Nat) (key : Key) (es : List (Event α)) : Prop :=
  ∀ h ∈ crowd, ∃ r, .returned h key r ∈ es

/-- The key, and the aliases of what the crowd computes in a schedule. -/
def Watched (c : EntityCache α) (schedule : Nat → Action α) (key : Key) (crowd : List Nat)
    (k : String) : Prop :=
  k = key.encode ∨ ∃ n, ∃ h ∈ crowd, ∃ v,
    .answered h (.ok v) ∈ (c.stateAt schedule n).events (schedule n) ∧ k ∈ aliases v

/-- A crowd loads a key that is not cached.  Nobody in it fails or gives up and, until all have
returned, nobody else touches or inserts what is watched. -/
structure Crowd (c : EntityCache α) (schedule : Nat → Action α) (key : Key) (crowd : List Nat) :
    Prop where
  uncached : c.get? key = none
  unused : ∀ h ∈ crowd, c.flight? h = none
  fits : ∀ n, Fits key crowd (schedule n)
  succeeds : ∀ n, ∀ h ∈ crowd, ∀ e,
    .answered h (.error e) ∉ (c.stateAt schedule n).events (schedule n)
  untouched : ∀ n, ¬ Done crowd key (c.historyAt schedule n) → ∀ k, c.Watched schedule key crowd k →
    k ∉ (c.stateAt schedule n).touches (schedule n)
  uninserted : ∀ n, ¬ Done crowd key (c.historyAt schedule n) → ∀ k,
    c.Watched schedule key crowd k → ∀ j, schedule n = .poll j → j ∉ crowd →
    k ∉ (c.stateAt schedule n).inserts (schedule n)

/-- A crowd is called, polled and answered as long as it has something to do. -/
structure Fair (c : EntityCache α) (schedule : Nat → Action α) (key : Key) (crowd : List Nat) :
    Prop where
  called : ∀ h ∈ crowd, ∃ n, schedule n = .load h key
  polled : ∀ n, ∀ h ∈ crowd, (c.stateAt schedule n).flight? h ≠ none →
    ∃ m, n ≤ m ∧ schedule m = .poll h
  answered : ∀ n, ∀ h ∈ crowd, (c.stateAt schedule n).isAsking h = true →
    ∃ m r, n ≤ m ∧ schedule m = .answerLoad h r
  /-- From some moment on nobody else takes the lock of the key. -/
  others : ∃ n, ∀ m, n ≤ m → ∀ j f, (c.stateAt schedule m).flight? j = some f →
    f.lockKey = key.encode → j ∈ crowd

/-- One of the crowd has computed the value `v`, and whoever has returned has it. -/
def Served (key : Key) (crowd : List Nat) (v : α) (es : List (Event α)) : Prop :=
  ∃ h ∈ crowd, begun crowd es = [h] ∧ [.answered h (.ok v), .began h].Sublist es ∧
    ∀ j ∈ crowd, ∀ i r, .returned j i r ∈ es → i = key ∧ r = .ok v

def StageAt (c : EntityCache α) (schedule : Nat → Action α) (key : Key) (crowd : List Nat)
    (n : Nat) : Prop :=
  Stage (c.Watched schedule key crowd) key crowd (c.stateAt schedule n) (c.historyAt schedule n)

namespace Crowd

/-- Until everybody has returned, a crowd is at one of its stages. -/
theorem stage_at (hc : c.Sound) (hcrowd : c.Crowd schedule key crowd)
    (hopen : ∀ m < n, ¬ Done crowd key (c.historyAt schedule m)) :
    c.StageAt schedule key crowd n := by
  induction n with
  | zero =>
    refine .before ⟨rfl, fun _ _ _ _ => List.not_mem_nil, hcrowd.uncached, fun j hj => ?_⟩
    exact .of_absent (hcrowd.unused j hj)
  | succ n ih =>
    have hstage := ih fun m hm => hopen m (Nat.lt_succ_of_lt hm)
    have hdone := hopen n (Nat.lt_succ_self n)
    obtain ⟨hm, -⟩ := (hc.stateAt schedule n).moves (schedule n)
    refine hstage.of_moves (hc.stateAt schedule n) hm (hcrowd.fits n) (Or.inl rfl) ?_ ?_ ?_
    · exact fun k hk hwatched => hcrowd.untouched n hdone k hwatched hk
    · exact fun j hj hout k hk hwatched => hcrowd.uninserted n hdone k hwatched j hj hout hk
    · intro h hin r hr
      cases r with
      | error e => exact absurd hr (hcrowd.succeeds n h hin e)
      | ok v => exact ⟨v, rfl, fun k hk => Or.inr ⟨n, h, hin, v, hr, hk⟩⟩

end Crowd

/-! ### Nobody waits forever -/

/-- While nobody in the crowd has returned, the first of them to begin computes. -/
theorem running_of_begun {i : Nat} {rest : List Nat}
    (hstages : ∀ n, c.StageAt schedule key crowd n)
    (hsilent : ∀ n, Silent crowd (c.historyAt schedule n))
    (hfirst : begun crowd (c.historyAt schedule n) = i :: rest) {m : Nat} (hle : n ≤ m) :
    i ∈ crowd ∧ ∃ r, (c.stateAt schedule m).flight? i = some ⟨i, .load key r, .running⟩ := by
  have hstill : begun crowd (c.historyAt schedule n) <:+ begun crowd (c.historyAt schedule m) := by
    obtain ⟨newer, hnewer⟩ := historyAt_suffix c schedule hle
    rw [← hnewer, begun_append]
    exact List.suffix_append _ _
  rw [hfirst] at hstill
  cases hstages m with
  | before hb =>
    rw [hb.begun] at hstill
    cases List.suffix_nil.1 hstill
  | @during h' r hd =>
    rw [hd.begun] at hstill
    obtain rfl : i = h' := by simpa using hstill.subset List.mem_cons_self
    exact ⟨hd.member, r, hd.running⟩
  | after ha => exact absurd ha.returned (hsilent m _ ha.member key _)

/-- While nobody in the crowd has returned, an answer stays until its load is polled. -/
theorem Crowd.answered_stays {i m : Nat} {x : Except Error α} (hc : c.Sound)
    (hcrowd : c.Crowd schedule key crowd)
    (hsilent : ∀ n, Silent crowd (c.historyAt schedule n)) (hi : i ∈ crowd)
    (hf : (c.stateAt schedule n).flight? i = some ⟨i, .load key (some x), .running⟩)
    (hle : n ≤ m) :
    (c.stateAt schedule m).flight? i = some ⟨i, .load key (some x), .running⟩ := by
  induction hle with
  | refl => exact hf
  | @step m _ ih =>
    obtain ⟨p, hm, hhistory⟩ := hc.moves_at (a := schedule m) rfl
    rcases hm.stays ih ((hcrowd.fits m).stays i hi) with ⟨y, hy⟩ | ⟨-, hsame⟩
    · exact absurd (hhistory ▸ List.mem_append_left _ hy) (hsilent (m + 1) i hi key y)
    · exact (hsame rfl rfl).trans ih

section Progress

variable (hc : c.Sound) (hcrowd : c.Crowd schedule key crowd)
  (hstages : ∀ n, c.StageAt schedule key crowd n)
include hc hcrowd hstages

/-- Whoever has been called has returned or is in flight. -/
theorem Crowd.flight_of_called {m : Nat} (hin : h ∈ crowd) (hcalled : schedule n = .load h key)
    (hlt : n < m) : (∃ r, .returned h key r ∈ c.historyAt schedule m) ∨
      (c.stateAt schedule m).flight? h ≠ none := by
  induction hlt with
  | refl =>
    obtain ⟨p, hm, hhistory⟩ := hc.moves_at hcalled
    rw [hhistory]
    rcases hm.called with ⟨r, hr⟩ | hflight
    · exact Or.inl ⟨r, List.mem_append_left _ hr⟩
    · exact Or.inr hflight
  | @step m _ ih =>
    rcases ih with ⟨r, hr⟩ | hflight
    · exact Or.inl ⟨r, List.mem_append_right _ hr⟩
    · obtain ⟨f, hf⟩ := Option.ne_none_iff_exists'.1 hflight
      obtain ⟨r, phase, rfl⟩ := (hstages m).manned h hin f hf
      obtain ⟨p, hm, hhistory⟩ := hc.moves_at (a := schedule m) rfl
      rw [hhistory]
      rcases hm.stays hf ((hcrowd.fits m).stays h hin) with ⟨x, hx⟩ | ⟨hflight, -⟩
      · exact Or.inl ⟨x, List.mem_append_left _ hx⟩
      · exact Or.inr hflight

variable (hfair : c.Fair schedule key crowd)
include hfair

/-- While nobody in the crowd computes, each of them returns or begins, if it finds no value. -/
theorem Crowd.turn_comes (hidle : ∀ m, n ≤ m → ∀ j ∈ crowd, (c.stateAt schedule m).Waits key j)
    (hin : h ∈ crowd) : ∃ m, n ≤ m ∧ ((∃ r, .returned h key r ∈ c.historyAt schedule m) ∨
      (c.stateAt schedule m).get? key = none ∧ .began h ∈ c.historyAt schedule (m + 1)) := by
  obtain ⟨called, hcalled⟩ := hfair.called h hin
  obtain ⟨lonely, hlonely⟩ := hfair.others
  have hflight := fun m (hm : max (max n lonely) (called + 1) ≤ m) =>
    hcrowd.flight_of_called hc hstages hin hcalled (Nat.lt_of_succ_le (by omega : called + 1 ≤ m))
  rcases hflight _ (Nat.le_refl _) with hreturned | hflying
  · exact ⟨_, by omega, Or.inl hreturned⟩
  obtain ⟨m, hle, hpolled⟩ := hfair.polled _ h hin hflying
  rcases hflight m hle with hreturned | hflying
  · exact ⟨m, by omega, Or.inl hreturned⟩
  obtain ⟨f, hf⟩ := Option.ne_none_iff_exists'.1 hflying
  obtain rfl := hidle m (by omega) h hin f hf
  have hfree : (c.stateAt schedule m).Free key.encode := by
    intro j g hg hruns hlock
    have hown := hlonely m (by omega) j g hg hlock
    obtain rfl := hidle m (by omega) j hown g hg
    cases hruns
  obtain ⟨p, hm, hhistory⟩ := hc.moves_at hpolled
  rcases hm.proceeds hf hfree with ⟨v, hreturned⟩ | ⟨hnone, hbegan⟩
  · exact ⟨m + 1, by omega, Or.inl ⟨.ok v, hhistory ▸ List.mem_append_left _ hreturned⟩⟩
  · exact ⟨m, by omega, Or.inr ⟨hnone, hhistory ▸ List.mem_append_left _ hbegan⟩⟩

theorem Crowd.exists_begun (hin : h ∈ crowd) : ∃ n, begun crowd (c.historyAt schedule n) ≠ [] := by
  by_cases hsome : ∃ n, begun crowd (c.historyAt schedule n) ≠ []
  · exact hsome
  have hempty : ∀ n, begun crowd (c.historyAt schedule n) = [] :=
    fun n => Decidable.byContradiction fun hne => hsome ⟨n, hne⟩
  have hbefore : ∀ n, Silent crowd (c.historyAt schedule n) ∧
      ∀ j ∈ crowd, (c.stateAt schedule n).Waits key j := by
    intro n
    cases hstages n with
    | before hb => exact ⟨hb.silent, hb.waits⟩
    | during hd => cases (hempty n).symm.trans hd.begun
    | after ha => cases (hempty n).symm.trans ha.begun
  obtain ⟨m, -, ⟨r, hreturned⟩ | ⟨-, hbegan⟩⟩ :=
    hcrowd.turn_comes (n := 0) hc hstages hfair (fun m _ => (hbefore m).2) hin
  · exact absurd hreturned ((hbefore m).1 h hin key r)
  · have hbegun : h ∈ begun crowd (c.historyAt schedule (m + 1)) :=
      List.mem_filterMap.2 ⟨_, hbegan, if_pos hin⟩
    rw [hempty] at hbegun
    cases hbegun

/-- The one who computes is answered, and returns. -/
theorem Crowd.exists_returned (hin : h ∈ crowd) : ∃ n, ¬ Silent crowd (c.historyAt schedule n) := by
  by_cases hsome : ∃ n, ¬ Silent crowd (c.historyAt schedule n)
  · exact hsome
  have hsilent : ∀ n, Silent crowd (c.historyAt schedule n) :=
    fun n i hi k r hmem => hsome ⟨n, fun hsilent => hsilent i hi k r hmem⟩
  obtain ⟨n, hbegun⟩ := hcrowd.exists_begun hc hstages hfair hin
  obtain ⟨i, rest, hfirst⟩ := List.exists_cons_of_ne_nil hbegun
  have hruns {m : Nat} (hle : n ≤ m) :=
    running_of_begun hstages hsilent hfirst hle
  have hanswer : ∃ m x, n ≤ m ∧
      (c.stateAt schedule m).flight? i = some ⟨i, .load key (some x), .running⟩ := by
    obtain ⟨hi, r, hf⟩ := hruns (Nat.le_refl n)
    rcases r with _ | x
    · obtain ⟨m, x, hle, hanswered⟩ :=
        hfair.answered n i hi (isAsking_iff.2 ⟨_, hf, rfl, rfl⟩)
      obtain ⟨-, r, hg⟩ := hruns hle
      rcases r with _ | y
      · obtain ⟨p, hm, -⟩ := hc.moves_at hanswered
        exact ⟨m + 1, x, by omega, hm.answers hg⟩
      · exact ⟨m, y, hle, hg⟩
    · exact ⟨n, x, Nat.le_refl n, hf⟩
  obtain ⟨m, x, hle, hf⟩ := hanswer
  obtain ⟨hi, -⟩ := hruns hle
  obtain ⟨k, hmk, hpolled⟩ := hfair.polled m i hi (by simp [hf])
  have hg := hcrowd.answered_stays hc hsilent hi hf hmk
  obtain ⟨p, hm, hhistory⟩ := hc.moves_at hpolled
  refine absurd ?_ (hsilent (k + 1) i hi key x)
  rw [hhistory]
  exact List.mem_append_left _ (hm.ends hg)

/-- Where a value has been cached, each of the crowd returns. -/
theorem Crowd.returns (hin : h ∈ crowd) : ∃ n r, .returned h key r ∈ c.historyAt schedule n := by
  obtain ⟨n, hsome⟩ := hcrowd.exists_returned hc hstages hfair hin
  have hafter : ∀ m, n ≤ m → (c.stateAt schedule m).get? key ≠ none ∧
      ∀ j ∈ crowd, (c.stateAt schedule m).Waits key j := by
    intro m hle
    have hnoise : ¬ Silent crowd (c.historyAt schedule m) := fun hsilent =>
      hsome fun i hi k r hmem => hsilent i hi k r ((historyAt_suffix c schedule hle).subset hmem)
    cases hstages m with
    | before hb => exact absurd hb.silent hnoise
    | during hd => exact absurd hd.silent hnoise
    | after ha => exact ⟨by simp [get?, ha.keeps.get?], ha.waits⟩
  obtain ⟨m, hle, ⟨r, hreturned⟩ | ⟨hnone, -⟩⟩ :=
    hcrowd.turn_comes hc hstages hfair (fun m hle => (hafter m hle).2) hin
  · exact ⟨m, r, hreturned⟩
  · exact absurd hnone (hafter m hle).1

end Progress

namespace Crowd

/-- A crowd that is treated fairly comes to its end. -/
theorem exists_done (hc : c.Sound) (hcrowd : c.Crowd schedule key crowd)
    (hfair : c.Fair schedule key crowd) : ∃ n, Done crowd key (c.historyAt schedule n) := by
  by_cases hsome : ∃ n, Done crowd key (c.historyAt schedule n)
  · exact hsome
  have hstages : ∀ n, c.StageAt schedule key crowd n :=
    fun n => hcrowd.stage_at hc fun m _ hdone => hsome ⟨m, hdone⟩
  have hpart : ∀ part : List Nat, (∀ h ∈ part, h ∈ crowd) →
      ∃ n, Done part key (c.historyAt schedule n) := by
    intro part hsub
    induction part with
    | nil => exact ⟨0, fun h hin => by cases hin⟩
    | cons h part ih =>
      obtain ⟨n, hn⟩ := ih fun j hj => hsub j (List.mem_cons_of_mem h hj)
      obtain ⟨m, r, hr⟩ := hcrowd.returns hc hstages hfair (hsub h List.mem_cons_self)
      refine ⟨max n m, fun j hj => ?_⟩
      rcases List.mem_cons.1 hj with rfl | hj
      · exact ⟨r, (historyAt_suffix c schedule (Nat.le_max_right n m)).subset hr⟩
      · obtain ⟨x, hx⟩ := hn j hj
        exact ⟨x, (historyAt_suffix c schedule (Nat.le_max_left n m)).subset hx⟩
  exact hpart crowd fun _ hin => hin

/-- Until everybody has returned, at most one of the crowd has begun, and whoever has returned has
what it computed. -/
theorem begun_le_one (hc : c.Sound) (hcrowd : c.Crowd schedule key crowd)
    (hopen : ∀ m < n, ¬ Done crowd key (c.historyAt schedule m)) :
    (begun crowd (c.historyAt schedule n)).length ≤ 1 ∧
      (Silent crowd (c.historyAt schedule n) ∨
        ∃ v, Served key crowd v (c.historyAt schedule n)) := by
  cases hcrowd.stage_at hc hopen with
  | before hb => simp [hb.begun, hb.silent]
  | during hd => simp [hd.begun, hd.silent]
  | @after h v ha =>
    exact ⟨by simp [ha.begun], Or.inr ⟨v, h, ha.member, ha.begun, ha.answered, ha.returns⟩⟩

theorem exists_served (hc : c.Sound) (hcrowd : c.Crowd schedule key crowd)
    (hfair : c.Fair schedule key crowd) (hcalled : crowd ≠ []) :
    ∃ n v, Served key crowd v (c.historyAt schedule n) ∧
      ∀ h ∈ crowd, .returned h key (.ok v) ∈ c.historyAt schedule n := by
  classical
  have hdone := hcrowd.exists_done hc hfair
  have hserved := (hcrowd.begun_le_one hc fun m => Nat.find_min hdone).2
  have hall := Nat.find_spec hdone
  generalize Nat.find hdone = n at hserved hall
  obtain ⟨h, hin⟩ := List.exists_mem_of_ne_nil crowd hcalled
  rcases hserved with hsilent | ⟨v, i, hi, hone, hsub, hreturns⟩
  · obtain ⟨r, hr⟩ := hall h hin
    exact absurd hr (hsilent h hin key r)
  · refine ⟨n, v, ⟨i, hi, hone, hsub, hreturns⟩, fun j hj => ?_⟩
    obtain ⟨r, hr⟩ := hall j hj
    obtain ⟨-, rfl⟩ := hreturns j hj key r hr
    exact hr

end Crowd

/-- Whatever ran before, no two flights with one lock key compute at a time.  And where a crowd loads
a key that is not cached, and nobody else touches or inserts the key or an alias of the value before
all have returned, at most one of them computes and whoever returns has its value; if they are
treated fairly, one of them does compute, and all return its value. -/
theorem run_single_flight (name : String) (frequency : UInt32) (before : List (Action α)) :
    (∀ i j f g, ((withGcFrequency name frequency).run before).flight? i = some f →
      ((withGcFrequency name frequency).run before).flight? j = some g →
      f.phase = .running → g.phase = .running → f.lockKey = g.lockKey → i = j) ∧
    ∀ schedule key crowd, ((withGcFrequency name frequency).run before).Crowd schedule key crowd →
      (∀ n, (∀ m < n,
          ¬ Done crowd key (((withGcFrequency name frequency).run before).historyAt schedule m)) →
        (begun crowd (((withGcFrequency name frequency).run before).historyAt schedule n)).length ≤
            1 ∧
          (Silent crowd (((withGcFrequency name frequency).run before).historyAt schedule n) ∨
            ∃ v, Served key crowd v
              (((withGcFrequency name frequency).run before).historyAt schedule n))) ∧
      (((withGcFrequency name frequency).run before).Fair schedule key crowd → crowd ≠ [] →
        ∃ n v, Served key crowd v
            (((withGcFrequency name frequency).run before).historyAt schedule n) ∧
          ∀ h ∈ crowd, .returned h key (.ok v) ∈
            ((withGcFrequency name frequency).run before).historyAt schedule n) := by
  have hc : ((withGcFrequency name frequency : EntityCache α).run before).Sound :=
    (sound_withGcFrequency name frequency).run before
  generalize (withGcFrequency name frequency : EntityCache α).run before = c at hc ⊢
  refine ⟨fun i j f g hf hg hfruns hgruns hkey => ?_, fun schedule key crowd hcrowd => ⟨?_, ?_⟩⟩
  · exact hc.toGripped.alone hf hg hfruns hgruns hkey
  · exact fun n hopen => hcrowd.begun_le_one hc hopen
  · exact fun hfair hcalled => hcrowd.exists_served hc hfair hcalled

/-! ### Two loads and an invalidation of another key -/

/-- Two loads of the list of "S", and an invalidation of the list of "T" while the first computes. -/
def pair : Nat → Action IdList
  | 0 => .load 0 (.ofTarget "S")
  | 1 => .load 1 (.ofTarget "S")
  | 2 => .invalidate (.ofTarget "T")
  | 3 => .answerLoad 0 (.ok ⟨"S", ["a"]⟩)
  | 4 => .poll 0
  | _ => .poll 1

def lists : EntityCache IdList := (withGcFrequency "lists" 16).run []

/-- Once both have returned nothing changes. -/
theorem stateAt_pair (n : Nat) : lists.stateAt pair n = lists.stateAt pair (min n 6) := by
  have hsettled : ∀ n, lists.stateAt pair (n + 6) = lists.stateAt pair 6 := by
    intro n
    induction n with
    | zero => rfl
    | succ n ih =>
      have hover : ((lists.stateAt pair 6).act (.poll 1)).2 = lists.stateAt pair 6 := rfl
      calc ((lists.stateAt pair (n + 6)).act (.poll 1)).2
        _ = ((lists.stateAt pair 6).act (.poll 1)).2 := by rw [ih]
        _ = lists.stateAt pair 6 := hover
  rcases Nat.le_total n 6 with hle | hle
  · rw [Nat.min_eq_left hle]
  · rw [Nat.min_eq_right hle, ← Nat.sub_add_cancel hle, hsettled]

theorem pair_cases {P : EntityCache IdList → Action IdList → Prop}
    (hearly : ∀ n < 7, P (lists.stateAt pair n) (pair n)) (n : Nat) :
    P (lists.stateAt pair n) (pair n) := by
  have hlast : pair n = pair (min n 6) := by
    rcases Nat.le_total n 6 with hle | hle
    · rw [Nat.min_eq_left hle]
    · obtain ⟨m, rfl⟩ := Nat.exists_eq_add_of_le' hle
      rw [Nat.min_eq_right hle]
      rfl
  rw [stateAt_pair, hlast]
  exact hearly _ (by omega)

theorem answered_pair {r : Except Error IdList}
    (hanswered : .answered h r ∈ (lists.stateAt pair n).events (pair n)) : r = .ok ⟨"S", ["a"]⟩ := by
  let expected : Event IdList → Bool
    | .answered _ (.ok v) => v = ⟨"S", ["a"]⟩
    | .answered _ (.error _) => false
    | _ => true
  have hevents : ∀ e ∈ (lists.stateAt pair n).events (pair n), expected e = true :=
    pair_cases (P := fun c a => ∀ e ∈ c.events a, expected e = true) (by decide) n
  have hexpected := hevents _ hanswered
  cases r with
  | error e => cases hexpected
  | ok v => exact congrArg Except.ok (of_decide_eq_true hexpected)

theorem watched_pair {k : String} (hk : lists.Watched pair (.ofTarget "S") [0, 1] k) :
    k = (Key.ofTarget "S").encode := by
  rcases hk with hkey | ⟨n, h, -, v, hanswered, halias⟩
  · exact hkey
  · cases answered_pair hanswered
    simpa [aliases, Cacheable.keys] using halias

theorem pair_crowd : lists.Crowd pair (.ofTarget "S") [0, 1] where
  uncached := rfl
  unused := by decide
  fits n := by
    constructor
    case loads =>
      intro h _ i hi
      unfold pair at hi
      split at hi <;> cases hi <;> rfl
    case stores =>
      intro h _ v hstore
      unfold pair at hstore
      split at hstore <;> cases hstore
    case stays =>
      intro h _ hcancel
      unfold pair at hcancel
      split at hcancel <;> cases hcancel
  succeeds n h _ e he := by cases answered_pair he
  untouched n _ k hk := by
    obtain rfl := watched_pair hk
    exact pair_cases (P := fun c a => (Key.ofTarget "S").encode ∉ c.touches a) (by decide) n
  uninserted n _ k _ j hj hout := by
    unfold pair at hj
    split at hj <;> cases hj <;> exact absurd (by decide) hout

theorem pair_fair : lists.Fair pair (.ofTarget "S") [0, 1] where
  called h hin := by
    obtain rfl | rfl : h = 0 ∨ h = 1 := by simpa using hin
    · exact ⟨0, rfl⟩
    · exact ⟨1, rfl⟩
  polled n h hin hflying := by
    obtain rfl | rfl : h = 0 ∨ h = 1 := by simpa using hin
    · have hearly : ∀ m < 7, (lists.stateAt pair m).flight? 0 ≠ none → m ≤ 4 := by decide
      rw [stateAt_pair] at hflying
      have hlast := hearly _ (by omega) hflying
      exact ⟨4, by omega, rfl⟩
    · exact ⟨n + 5, Nat.le_add_right n 5, rfl⟩
  answered n h hin hasking := by
    have hearly : ∀ m < 7, ∀ h ∈ [0, 1], (lists.stateAt pair m).isAsking h = true →
        m ≤ 3 ∧ h = 0 := by decide
    rw [stateAt_pair] at hasking
    obtain ⟨hlast, rfl⟩ := hearly _ (by omega) h hin hasking
    exact ⟨3, _, by omega, rfl⟩
  others := by
    refine ⟨0, fun m _ j f hf _ => ?_⟩
    have hown : ∀ g ∈ (lists.stateAt pair m).flights, g.handle ∈ [0, 1] :=
      pair_cases (P := fun c _ => ∀ g ∈ c.flights, g.handle ∈ [0, 1]) (by decide) m
    exact handle_of_flight? hf ▸ hown f (List.mem_of_find?_eq_some hf)

theorem run_single_flight_pair :
    lists.Crowd pair (.ofTarget "S") [0, 1] ∧ lists.Fair pair (.ofTarget "S") [0, 1] ∧
      ∃ n v, Served (.ofTarget "S") [0, 1] v (lists.historyAt pair n) ∧
        ∀ h ∈ [0, 1], .returned h (.ofTarget "S") (.ok v) ∈ lists.historyAt pair n :=
  ⟨pair_crowd, pair_fair,
    ((run_single_flight "lists" 16 []).2 pair (.ofTarget "S") [0, 1] pair_crowd).2 pair_fair
      (List.cons_ne_nil 0 [1])⟩

end EntityCache

end StatusStore.Cache
