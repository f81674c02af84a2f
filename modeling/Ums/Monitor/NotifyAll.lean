import Ums.Monitor.Client

/-!
# No waiter misses a `notify_all`

A waiter that is blocked, or about to be, noted how many changes it had seen when
its predicate was false. Until its condition flag is set, every `notify_all` for a
change it has not seen is yet to come to it: its author has not begun to go through
the waiters, or has the waiter still ahead of it.

The waiter clears its flag while it holds the mutex it evaluated its predicate with,
so there is no such change yet when it does.
-/

namespace Ums.Monitor.Client

variable {T D : Type} [DecidableEq T] {s s' : State T Unit Unit (Shared D) (Client D)}
  {c k : Client D} {x y : Shared D} {now : Time}

/-- The changes a worker had seen when its predicate was false, while it is about to wait for
more. -/
def seen : Client D → Option Nat
  | .await _ _ _ (.clock n) | .await _ _ _ (.body n) => some n
  | _ => none

/-- `notify_all` has just returned. -/
def returned : Client D → Bool
  | .notified .. => true
  | _ => false

theorem fromFree_quiet {n : Nat} (h : fromFree n k = true) :
    k.mine = n ∧ k.seen = none ∧ k.returned = false := by
  unfold fromFree at h
  split at h
  case h_6 => cases h
  all_goals
    have hn := of_decide_eq_true h
    exact ⟨hn, rfl, rfl⟩

theorem fromHeld_quiet {n : Nat} (h : fromHeld n k = true) :
    k.mine = n ∧ k.seen = none ∧ k.returned = false := by
  unfold fromHeld at h
  split at h
  case h_1 =>
    rw [Bool.and_eq_true] at h
    have hn := of_decide_eq_true h.1
    exact ⟨hn, rfl, rfl⟩
  case h_9 => cases h
  all_goals
    have hn := of_decide_eq_true h
    exact ⟨hn, rfl, rfl⟩

theorem back_quiet (locked : Bool) (n : Nat) :
    (back locked n : Client D).mine = n ∧ (back locked n : Client D).seen = none ∧
      (back locked n : Client D).returned = false := by
  cases locked <;> exact ⟨rfl, rfl, rfl⟩

/-- What a worker does to the changes and to what it knows of them. -/
inductive Progress (c : Client D) (x : Shared D) (k : Client D) : Shared D → Prop
  /-- Nothing. -/
  | quiet (hm : k.mine = c.mine) (hs : k.seen = none) (hr : k.returned = false) : Progress c x k x
  /-- Its predicate is false. -/
  | refused (hm : k.mine = c.mine) (hs : k.seen = some x.version) (hr : k.returned = false) :
      Progress c x k x
  /-- It goes on to wait, having compared the clock. -/
  | early (hm : k.mine = c.mine) (hs : k.seen = c.seen) (hr : k.returned = false)
      (hc : ∃ f, code c = .act f) : Progress c x k x
  /-- It changes the value. -/
  | change {y : Shared D} (hc : ∃ v n, c = .change v n) (hv : y.version = x.version + 1)
      (ha : y.announced = x.announced) (hm : k.mine = y.version) (hs : k.seen = none)
      (hr : k.returned = false) : Progress c x k y
  /-- It comes back from `notify_all`. -/
  | returns (hc : ∃ locked n, c = .notifyAll locked n) (hm : k.mine = c.mine)
      (hs : k.seen = none) : Progress c x k x
  /-- What it announced is recorded. -/
  | record {y : Shared D} (hc : c.returned = true) (hv : y.version = x.version)
      (ha : y.announced = max x.announced c.mine) (hm : k.mine = c.mine) (hs : k.seen = none)
      (hr : k.returned = false) : Progress c x k y

theorem progress_of_jump (hj : Jump code now c x k y) : Progress c x k y := by
  cases c with
  | free n =>
      cases hj with
      | choose hc hk =>
          cases hc
          obtain ⟨h1, h2, h3⟩ := fromFree_quiet hk
          exact .quiet h1 h2 h3
      | _ hc => cases hc
  | held n =>
      cases hj with
      | choose hc hk =>
          cases hc
          obtain ⟨h1, h2, h3⟩ := fromHeld_quiet hk
          exact .quiet h1 h2 h3
      | _ hc => cases hc
  | acquire n => cases hj with | lock hc => cases hc; exact .quiet rfl rfl rfl | _ hc => cases hc
  | tryAcquire n =>
      cases hj with
      | tryYes hc | tryNo hc => cases hc; exact .quiet rfl rfl rfl
      | _ hc => cases hc
  | release n =>
      cases hj with | unlock hc => cases hc; exact .quiet rfl rfl rfl | _ hc => cases hc
  | change v n =>
      cases hj with
      | act hc => cases hc; exact .change ⟨v, n, rfl⟩ rfl rfl rfl rfl rfl
      | _ hc => cases hc
  | await pred deadline n a =>
      cases a with
      | test =>
          cases hj with
          | act hc =>
              cases hc
              simp only
              by_cases hp : pred x.value = true
              · rw [if_pos hp]
                exact .quiet rfl rfl rfl
              · rw [if_neg hp]
                cases deadline <;> exact .refused rfl rfl rfl
          | _ hc => cases hc
      | clock seen =>
          cases hj with
          | act hc =>
              cases hc
              simp only
              split
              · exact .quiet rfl rfl rfl
              · exact .early rfl rfl rfl ⟨_, rfl⟩
          | _ hc => cases hc
      | body seen =>
          cases hj with
          | wait hc =>
              cases hc
              cases deadline <;> exact .quiet rfl rfl rfl
          | _ hc => cases hc
      | after =>
          cases hj with
          | act hc =>
              cases hc
              simp only
              split <;> exact .quiet rfl rfl rfl
          | _ hc => cases hc
      | last =>
          cases hj with
          | act hc => cases hc; exact .quiet rfl rfl rfl
          | _ hc => cases hc
  | timedWait d n =>
      cases hj with
      | act hc =>
          cases hc
          simp only
          split <;> exact .quiet rfl rfl rfl
      | _ hc => cases hc
  | plainWait d n =>
      cases hj with | wait hc => cases hc; exact .quiet rfl rfl rfl | _ hc => cases hc
  | notifyOne locked n =>
      obtain ⟨h1, h2, h3⟩ := back_quiet (D := D) locked n
      cases hj with | notifyOne hc => cases hc; exact .quiet h1 h2 h3 | _ hc => cases hc
  | notifyAll locked n =>
      cases hj with
      | notifyAll hc => cases hc; exact .returns ⟨locked, n, rfl⟩ rfl rfl
      | _ hc => cases hc
  | notified locked n =>
      obtain ⟨h1, h2, h3⟩ := back_quiet (D := D) locked n
      cases hj with
      | act hc => cases hc; exact .record rfl rfl rfl h1 h2 h3
      | _ hc => cases hc
  | sleep locked d n =>
      obtain ⟨h1, h2, h3⟩ := back_quiet (D := D) locked n
      cases hj with | sleep hc => cases hc; exact .quiet h1 h2 h3 | _ hc => cases hc

/-! ## What a waiter is owed -/

/-- Between evaluating its predicate and unlocking the mutex. -/
def Early (p : Phase T) : Prop := p = .start ∨ p = .linked ∨ p = .armed

/-- Past the unlock: blocked, or about to find out whether it has to. -/
def Blocking (p : Phase T) : Prop := p = .released ∨ p = .parked

/-- Every change past the first `n` has yet to be announced to `w`. -/
def Owed (s : State T Unit Unit (Shared D) (Client D)) (w : T) (n : Nat) : Prop :=
  s.data.announced ≤ n ∧
    ∀ u, n < (s.ctl u).mine → (s.ctl u).returned = false ∧
      ∀ rest, (code (s.ctl u)).scans (s.phase u) = some ((), rest) → w ∈ rest

/-- Nothing escapes a waiter that has not been notified. -/
structure Noticed (s : State T Unit Unit (Shared D) (Client D)) : Prop where
  /-- Changes are numbered in their order. -/
  mine : ∀ t, (s.ctl t).mine ≤ s.data.version
  /-- Only changes are announced. -/
  announced : s.data.announced ≤ s.data.version
  /-- Up to its unlock, a waiter has seen every change. -/
  fresh : ∀ t n, (s.ctl t).seen = some n → Early (s.phase t) → n = s.data.version
  /-- From its unlock on, what it has not seen is still on its way to it. -/
  owed : ∀ t n, (s.ctl t).seen = some n → Blocking (s.phase t) → (s.info t).cond = false →
    Owed s t n

omit [DecidableEq T] in
theorem Listed.waiting {t : T} (h : Listed code s) (hp : Blocking (s.phase t)) :
    t ∈ s.waiters () := by
  have hf := h.fits t
  rw [h.mem]
  rcases hp with hp | hp <;> rw [hp] at hf ⊢ <;> cases hc : code (s.ctl t) <;> rw [hc] at hf <;>
    first | rfl | cases hf

omit [DecidableEq T] in
/-- A waiter holds the mutex up to its unlock. -/
theorem holding_early {t : T} {n : Nat} (hs : (s.ctl t).seen = some n) (hp : Early (s.phase t)) :
    Holding code holds s t () = true := by
  have hh : holds (s.ctl t) () = true := by
    cases hc : s.ctl t <;> rw [hc] at hs <;> first | rfl | cases hs
  have ha : (code (s.ctl t)).away (s.phase t) () = false := by
    rcases hp with hp | hp | hp <;> rw [hp] <;> cases code (s.ctl t) <;> rfl
  rw [holding_of_away ha, hh]

/-- **A worker at another control point.** Only a worker that has the waiter behind it announces a
change, and only a worker with the mutex makes one. -/
theorem Noticed.goto {r : State T Unit Unit (Shared D) (Client D)} {t : T} (h : Noticed s)
    (hl : Listed code s) (hg : Guarded code holds s) (hctl : r.ctl = s.ctl)
    (hph : r.phase = s.phase)
    (hcond : ∀ w, (r.info w).cond = false → (s.info w).cond = false)
    (hj : Jump code s.now (s.ctl t) s.data k r.data)
    (hend : ∀ locked n, s.ctl t = .notifyAll locked n → s.phase t = .scanning []) :
    Noticed (r.goto t k) := by
  generalize hd : r.data = y at hj
  have hp := progress_of_jump hj
  have hver : s.data.version ≤ y.version ∧ k.mine ≤ y.version ∧ y.announced ≤ y.version := by
    have hm := h.mine t
    have ha := h.announced
    cases hp with
    | change _ hv ha' hm' => omega
    | record _ hv ha' hm' => omega
    | _ => omega
  refine ⟨fun u => ?_, by rw [State.goto_data, hd]; exact hver.2.2, fun u n hs he => ?_,
    fun w n hs hb hc => ?_⟩
  · by_cases hu : u = t
    · subst hu
      simpa [hd] using hver.2.1
    · have := h.mine u
      simp [hu, hctl, hd]
      omega
  · rw [State.goto_data, hd]
    by_cases hu : u = t
    · subst hu
      simp only [State.goto_ctl, Function.update_self] at hs
      cases hp with
      | refused _ hs' => exact Option.some.inj (hs.symm.trans hs')
      | early _ hs' _ hact =>
          obtain ⟨f, hact⟩ := hact
          have hst := hl.at_start hact fun p hp => by cases p <;> first | rfl | cases hp
          exact h.fresh u n (hs'.symm.trans hs) (Or.inl hst)
      | quiet _ hs' | change _ _ _ _ hs' | returns _ _ hs' | record _ _ _ _ hs' =>
          rw [hs'] at hs
          cases hs
    · simp only [State.goto_ctl, State.goto_phase, Function.update_of_ne hu, hctl, hph] at hs he
      have hn := h.fresh u n hs he
      cases hp with
      | change hc =>
          -- whoever changes the value holds the mutex, and so does this waiter
          obtain ⟨v, m, hc⟩ := hc
          have hmine : Holding code holds s t () = true := by
            rw [Holding, hc]
            rfl
          exact absurd (hg.unique (holding_early hs he) hmine) hu
      | record _ hv => rw [hv, hn]
      | _ => exact hn
  · by_cases hw : w = t
    · subst hw
      rw [State.goto_phase, Function.update_self] at hb
      rcases hb with hb | hb <;> cases hb
    · simp only [State.goto_ctl, State.goto_phase, Function.update_of_ne hw, hctl, hph] at hs hb
      obtain ⟨ha, hu⟩ := h.owed w n hs hb (hcond w hc)
      refine ⟨?_, fun u hlt => ?_⟩
      · rw [State.goto_data, hd]
        cases hp with
        | change _ _ ha' => omega
        | record hr _ ha' =>
            have hle : (s.ctl t).mine ≤ n := by
              by_contra hgt
              have hret := (hu t (by omega)).1
              rw [hr] at hret
              cases hret
            omega
        | _ => exact ha
      · by_cases hut : u = t
        · subst hut
          simp only [State.goto_ctl, State.goto_phase, Function.update_self] at hlt ⊢
          refine ⟨?_, fun rest hr => by simp at hr⟩
          cases hp with
          | returns hc hm =>
              obtain ⟨locked, m, hc⟩ := hc
              have hrest := (hu u (by omega)).2 []
                (by rw [hend locked m hc, hc]; rfl)
              cases hrest
          | quiet _ _ hr | refused _ _ hr | early _ _ hr | change _ _ _ _ _ hr
          | record _ _ _ _ _ hr => exact hr
        · simp only [State.goto_ctl, State.goto_phase, Function.update_of_ne hut, hctl, hph]
            at hlt ⊢
          exact hu u hlt

/-- **A worker inside its command.** -/
theorem Noticed.setPhase {r : State T Unit Unit (Shared D) (Client D)} {t : T} {p : Phase T}
    (h : Noticed s) (hl : Listed code s)
    (hr : r.ctl = s.ctl ∧ r.phase = s.phase ∧ r.data = s.data)
    (hcond : ∀ w, Blocking (Function.update s.phase t p w) → (r.info w).cond = false →
      Blocking (s.phase w) → (s.info w).cond = false)
    (he : Early p → Early (s.phase t))
    (hb : Blocking p → s.phase t = .armed ∨ Blocking (s.phase t))
    (hscan : ∀ rest, (code (s.ctl t)).scans p = some ((), rest) → ∀ w, w ∈ s.waiters () →
      (r.info w).cond = false →
      (∀ l, (code (s.ctl t)).scans (s.phase t) = some ((), l) → w ∈ l) → w ∈ rest) :
    Noticed (r.setPhase t p) := by
  obtain ⟨hctl, hph, hdata⟩ := hr
  refine ⟨fun u => ?_, ?_, fun u n hs hu => ?_, fun w n hs hw hc => ?_⟩
  · simpa [hctl, hdata] using h.mine u
  · simpa [hdata] using h.announced
  · simp only [State.setPhase_ctl, hctl] at hs
    rw [State.setPhase_data, hdata]
    refine h.fresh u n hs ?_
    by_cases hut : u = t
    · subst hut
      exact he (by simpa using hu)
    · simpa [hut, hph] using hu
  · simp only [State.setPhase_ctl, hctl] at hs
    simp only [State.setPhase_phase, hph] at hw
    -- the waiter was blocking before, or has just unlocked the mutex
    have hcases : (w = t ∧ s.phase w = .armed) ∨ Blocking (s.phase w) := by
      by_cases hwt : w = t
      · subst hwt
        rw [Function.update_self] at hw
        exact (hb hw).imp (fun ha => ⟨rfl, ha⟩) id
      · rw [Function.update_of_ne hwt] at hw
        exact Or.inr hw
    rcases hcases with ⟨rfl, ha⟩ | hold
    · have hn := h.fresh w n hs (Or.inr (Or.inr ha))
      refine ⟨by simpa [hdata, hn] using h.announced, fun u hlt => ?_⟩
      have := h.mine u
      simp only [State.setPhase_ctl, hctl] at hlt
      omega
    · obtain ⟨ha, hu⟩ := h.owed w n hs hold (hcond w hw hc hold)
      refine ⟨by simpa [hdata] using ha, fun u hlt => ?_⟩
      simp only [State.setPhase_ctl, hctl, State.setPhase_phase, hph] at hlt ⊢
      refine ⟨(hu u hlt).1, fun rest hrest => ?_⟩
      by_cases hut : u = t
      · subst hut
        rw [Function.update_self] at hrest
        exact hscan rest hrest w (Listed.waiting hl hold) hc (hu u hlt).2
      · rw [Function.update_of_ne hut] at hrest
        exact (hu u hlt).2 rest hrest

theorem notifyWaiter_cond {u w : T} (h : ((s.notifyWaiter u).info w).cond = false) :
    w ≠ u ∧ (s.info w).cond = false := by
  by_cases hw : w = u
  · subst hw
    simp at h
  · exact ⟨hw, by simpa [hw] using h⟩

theorem noticed_step {e : Event T (Client D)} (hs : Step code s e s') (hl : Listed code s)
    (hg : Guarded code holds s) (h : Noticed s) : Noticed s' := by
  have hno : ∀ {t : T} {c : Cmd Unit Unit (Shared D) (Client D)}, code (s.ctl t) = c →
      (∀ v k, c ≠ .notifyAll v k) → ∀ locked n, s.ctl t = .notifyAll locked n →
      s.phase t = .scanning [] := by
    intro t c hc hne locked n ht
    rw [ht] at hc
    exact absurd hc.symm (hne () (.notified locked n))
  -- a phase that is not one of `notify_all` goes through no list
  have hquiet : ∀ {r : State T Unit Unit (Shared D) (Client D)} {t : T} {p : Phase T},
      (∀ l, p ≠ .scanning l) → ∀ rest, (code (s.ctl t)).scans p = some ((), rest) →
      ∀ w, w ∈ s.waiters () → (r.info w).cond = false →
      (∀ l, (code (s.ctl t)).scans (s.phase t) = some ((), l) → w ∈ l) → w ∈ rest := by
    intro r t p hp rest hr
    cases hc : code (s.ctl t) <;> cases p <;> simp [hc, Cmd.scans] at hr hp
  cases hs with
  | choose hc hk =>
      exact h.goto hl hg rfl rfl (fun _ => id) (.choose hc hk) (hno hc (by simp))
  | act hc =>
      exact h.goto (r := { s with data := _ }) hl hg rfl rfl (fun _ => id) (.act hc)
        (hno hc (by simp))
  | lock hc =>
      exact h.goto (r := s.setOwner _ _) hl hg rfl rfl (fun _ => id) (.lock hc) (hno hc (by simp))
  | tryYes hc =>
      exact h.goto (r := s.setOwner _ _) hl hg rfl rfl (fun _ => id) (.tryYes hc)
        (hno hc (by simp))
  | tryNo hc => exact h.goto hl hg rfl rfl (fun _ => id) (.tryNo hc) (hno hc (by simp))
  | unlock hc =>
      exact h.goto (r := s.setOwner _ _) hl hg rfl rfl (fun _ => id) (.unlock hc)
        (hno hc (by simp))
  | unlink hc =>
      exact h.goto (r := s.setWaiters _ _) hl hg rfl rfl (fun _ => id) (.wait hc)
        (hno hc (by simp))
  | awake hc => exact h.goto hl hg rfl rfl (fun _ => id) (.sleep hc) (hno hc (by simp))
  | notifyNone hc => exact h.goto hl hg rfl rfl (fun _ => id) (.notifyOne hc) (hno hc (by simp))
  | notifyOne hc =>
      exact h.goto (r := s.notifyWaiter _) hl hg rfl rfl (fun w hw => (notifyWaiter_cond hw).2)
        (.notifyOne hc) (hno hc (by simp))
  | scanEnd hc hp =>
      exact h.goto (r := s.setScanner _ _) hl hg rfl rfl (fun _ => id) (.notifyAll hc)
        fun _ _ _ => hp
  | link hc hp =>
      exact h.setPhase (r := s.setWaiters _ _) hl ⟨rfl, rfl, rfl⟩ (fun _ _ hw _ => hw)
        (fun _ => Or.inl hp) (by simp [Blocking]) (hquiet (r := s) (by simp))
  | @arm t v m d k hc hp =>
      refine h.setPhase (r := s.setWaitInfo t false d) hl ⟨rfl, rfl, rfl⟩ (fun w hw hi _ => ?_)
        (fun _ => Or.inr (Or.inl hp)) (by simp [Blocking])
        (hquiet (r := s.setWaitInfo t false d) (p := .armed) (by simp))
      by_cases hwt : w = t
      · subst hwt
        simp [Blocking] at hw
      · simpa [hwt] using hi
  | release hc hp =>
      exact h.setPhase (r := s.setOwner _ _) hl ⟨rfl, rfl, rfl⟩ (fun _ _ hw _ => hw)
        (by simp [Early]) (fun _ => Or.inl hp) (hquiet (r := s) (by simp))
  | park hc hp =>
      exact h.setPhase hl ⟨rfl, rfl, rfl⟩ (fun _ _ hw _ => hw) (by simp [Early])
        (fun _ => Or.inr (Or.inl hp)) (hquiet (r := s) (by simp))
  | resume hc hp =>
      exact h.setPhase hl ⟨rfl, rfl, rfl⟩ (fun _ _ hw _ => hw) (by simp [Early])
        (by simp [Blocking])
        (hquiet (r := s) (by simp))
  | relock hc hp =>
      exact h.setPhase (r := s.setOwner _ _) hl ⟨rfl, rfl, rfl⟩ (fun _ _ hw _ => hw)
        (by simp [Early]) (by simp [Blocking]) (hquiet (r := s) (by simp))
  | @doze t d k hc hp =>
      refine h.setPhase (r := s.setWaitInfo t false d) hl ⟨rfl, rfl, rfl⟩ (fun w hw hi _ => ?_)
        (by simp [Early]) (by simp [Blocking])
        (hquiet (r := s.setWaitInfo t false d) (p := .dozing) (by simp))
      by_cases hwt : w = t
      · subst hwt
        simp [Blocking] at hw
      · simpa [hwt] using hi
  | fallAsleep hc hp =>
      exact h.setPhase hl ⟨rfl, rfl, rfl⟩ (fun _ _ hw _ => hw) (by simp [Early])
        (by simp [Blocking])
        (hquiet (r := s) (by simp))
  | @scan t v k hc hp hf =>
      refine h.setPhase (r := s.setScanner v (some t)) hl ⟨rfl, rfl, rfl⟩ (fun _ _ hw _ => hw)
        (by simp [Early]) (by simp [Blocking]) fun rest hr w hw _ _ => ?_
      rw [hc, Cmd.scans] at hr
      cases hr
      exact hw
  | @scanOne t v k u rest hc hp =>
      refine h.setPhase (r := s.notifyWaiter u) hl ⟨rfl, rfl, rfl⟩
        (fun w _ hi _ => (notifyWaiter_cond hi).2) (by simp [Early]) (by simp [Blocking])
        fun l hr w _ hi hold => ?_
      rw [hc, Cmd.scans] at hr
      cases hr
      have hmem := hold (u :: rest) (by rw [hc, hp, Cmd.scans])
      exact (List.mem_cons.mp hmem).resolve_left (notifyWaiter_cond hi).1
  | tick => exact ⟨h.mine, h.announced, h.fresh, h.owed⟩

variable {x₀ : D}

theorem noticed_reachable (h : (machine T x₀).Reachable s) : Noticed s := by
  refine Lib.Machine.Reach.invariant ?_ ?_ h
  · rintro s ⟨now, rfl⟩
    refine ⟨fun t => Nat.zero_le _, Nat.zero_le _, ?_, ?_⟩
    · intro t n hs _
      cases hs
    · intro t n hs _ _
      cases hs
  · intro s e s' hr _ hs hn
    have hg := guarded_reachable disciplined (fun _ _ => rfl) hr
    exact noticed_step (step_of_next hs) (listed_reachable hr) hg hn

/--
**A predicate wait never misses a `notify_all`.** A waiter that is blocked, or past
its unlock and about to block, and has not been notified, had seen every change
whose author has returned from `notify_all` when its predicate was false. When it
clears its own flag it had seen every change there is, so it clears no flag that was
set for a later one.
-/
theorem no_missed_notify_all (h : (machine T x₀).Reachable s) (t : T) (pred : D → Bool)
    (deadline : Option Time) (n seen : Nat) (ht : s.ctl t = .await pred deadline n (.body seen)) :
    (s.phase t = .released ∨ s.phase t = .parked → (s.info t).cond = false →
      s.data.announced ≤ seen ∧ ∀ u, (s.ctl u).returned = true → (s.ctl u).mine ≤ seen) ∧
    (s.phase t = .linked → s.data.announced ≤ seen ∧ ∀ u, (s.ctl u).mine ≤ seen) := by
  have hn := noticed_reachable h
  have hs : (s.ctl t).seen = some seen := by
    rw [ht]
    rfl
  refine ⟨fun hp hc => ?_, fun hp => ?_⟩
  · obtain ⟨ha, hu⟩ := hn.owed t seen hs hp hc
    refine ⟨ha, fun u hr => ?_⟩
    by_contra hlt
    rw [(hu u (by omega)).1] at hr
    cases hr
  · have hv := hn.fresh t seen hs (Or.inr (Or.inl hp))
    rw [hv]
    exact ⟨hn.announced, hn.mine⟩

/-- A worker that is blocked and has seen one change. -/
def blockedOn (t : T) (s : State T Unit Unit (Shared Nat) (Client Nat)) : Bool :=
  match s.ctl t, s.phase t with
  | .await _ none 0 (.body 1), .parked => !(s.info t).cond
  | _, _ => false

/-- A worker waits for the value to become two. It is notified when the value is one, sees that
and blocks again: it has not missed the change, which is announced by then. -/
theorem no_missed_notify_all_run : ∃ s, (machine (Fin 2) 0).Reachable s ∧
    s.phase 0 = .parked ∧ (s.info 0).cond = false ∧ s.data.value = 1 ∧ s.data.announced = 1 := by
  obtain ⟨s, hr, hp⟩ := Lib.Machine.exists_of_run (M := machine (Fin 2) 0)
    (p := fun s => blockedOn 0 s && decide (s.data.value = 1 ∧ 1 ≤ s.data.announced))
    (.init ⟨0, rfl⟩)
    (List.flatten [
      [.choose 0 (.acquire 0), .step 0, .choose 0 (.await (· == 2) none 0 .test)],
      List.replicate 5 (.step 0),
      [.choose 1 (.acquire 0), .step 1, .choose 1 (.change 1 0), .step 1,
        .choose 1 (.release 1), .step 1, .choose 1 (.notifyAll false 1)],
      List.replicate 4 (.step 1), List.replicate 8 (.step 0)])
    (by decide +kernel)
  obtain ⟨hb, hv⟩ := Bool.and_eq_true_iff.mp hp
  obtain ⟨hval, hann⟩ := of_decide_eq_true hv
  unfold blockedOn at hb
  split at hb
  · rename_i pred hc hph
    have hcond : (s.info 0).cond = false := by simpa using hb
    have hle := ((no_missed_notify_all hr 0 pred none 0 1 hc).1 (Or.inr hph) hcond).1
    exact ⟨s, hr, hph, hcond, hval, Nat.le_antisymm hle hann⟩
  · cases hb

end Ums.Monitor.Client
