import Ums.Monitor.Client
import Ums.Monitor.Wake

/-!
# One node and one flag per worker

A worker has a single `m_waiter_node` and a single `m_cond` for all its waits and sleeps. In
any program it is linked exactly from its `add_waiter` to its `remove_waiter`, and whoever
sets its flag finds it linked. The flag it was woken with stays set after `remove_waiter`,
but every wait and every sleep clears it first, and a worker in `sleep_until` is in no list.
-/

namespace Ums.Monitor

variable {T μ γ δ κ : Type} [DecidableEq T] [DecidableEq μ] [DecidableEq γ]
  {code : κ → Cmd μ γ δ κ} {s s' : State T μ γ δ κ} {e : Event T κ} {t u : T} {v w : γ}

/-- The next statement of this worker. -/
def Event.isStep (t : T) : Event T κ → Bool
  | .step u => decide (u = t)
  | _ => false

/-- The step is the `add_waiter` of a worker, into the list of `v`. -/
def addsWaiter (code : κ → Cmd μ γ δ κ) (v : γ) (t : T) (s : State T μ γ δ κ) (e : Event T κ) :
    Bool :=
  e.isStep t &&
    match code (s.ctl t), s.phase t with
    | .wait w _ _ _, .start => decide (w = v)
    | _, _ => false

/-- The step is the `remove_waiter` of a worker, from the list of `v`. -/
def removesWaiter (code : κ → Cmd μ γ δ κ) (v : γ) (t : T) (s : State T μ γ δ κ)
    (e : Event T κ) : Bool :=
  e.isStep t &&
    match code (s.ctl t), s.phase t with
    | .wait w _ _ _, .relocked => decide (w = v)
    | _, _ => false

/-- The worker whose `m_cond` the step sets. -/
def notified (code : κ → Cmd μ γ δ κ) (s : State T μ γ δ κ) : Event T κ → Option T
  | .step t =>
    match code (s.ctl t), s.phase t with
    | .notifyOne v _, _ => (s.waiters v).head?
    | .notifyAll _ _, .scanning (u :: _) => some u
    | _, _ => none
  | _ => none

/-! ## In and out of a list -/

/-- Somebody else's step is not this worker's. -/
theorem isStep_of_ne (h : t ≠ u) : (Event.step t : Event T κ).isStep u = false :=
  decide_eq_false h

/-- **One step of a list**: a worker enters it by its `add_waiter` and leaves it by its
`remove_waiter`. -/
theorem Step.mem_waiters_iff (hs : Step code s e s') (hl : Listed code s) :
    t ∈ s'.waiters v ↔
      addsWaiter code v t s e = true ∨ (t ∈ s.waiters v ∧ removesWaiter code v t s e = false) := by
  -- a step that is neither leaves all lists as they are
  have hsame : s'.waiters = s.waiters → addsWaiter code v t s e = false →
      removesWaiter code v t s e = false → (t ∈ s'.waiters v ↔ addsWaiter code v t s e = true ∨
        (t ∈ s.waiters v ∧ removesWaiter code v t s e = false)) := by
    intro hw ha hr
    rw [hw, ha, hr]
    simp
  have hother : ∀ {q : T}, q ≠ t → e = .step q →
      addsWaiter code v t s e = false ∧ removesWaiter code v t s e = false := by
    rintro q hq rfl
    rw [addsWaiter, removesWaiter, isStep_of_ne hq]
    exact ⟨rfl, rfl⟩
  have hquiet : ∀ {q : T}, e = .step q → s'.waiters = s.waiters →
      (q = t → addsWaiter code v t s e = false ∧ removesWaiter code v t s e = false) →
      (t ∈ s'.waiters v ↔ addsWaiter code v t s e = true ∨
        (t ∈ s.waiters v ∧ removesWaiter code v t s e = false)) := by
    intro q he hw hq
    by_cases hqt : q = t
    · exact hsame hw (hq hqt).1 (hq hqt).2
    · exact hsame hw (hother hqt he).1 (hother hqt he).2
  cases hs with
  | choose | tick => exact hsame rfl rfl rfl
  | act hc | lock hc | tryYes hc | tryNo hc | unlock hc | doze hc | fallAsleep hc | awake hc
  | notifyNone hc | notifyOne hc | scan hc | scanOne hc | scanEnd hc =>
      refine hquiet rfl rfl ?_
      rintro rfl
      simp only [addsWaiter, removesWaiter, hc, Bool.and_false, and_self]
  | arm hc hp | release hc hp | park hc hp | relock hc hp =>
      refine hquiet rfl rfl ?_
      rintro rfl
      simp only [addsWaiter, removesWaiter, hc, hp, Bool.and_false, and_self]
  | resume hc hp =>
      refine hquiet rfl rfl ?_
      rintro rfl
      rcases hp with hp | hp <;>
        simp only [addsWaiter, removesWaiter, hc, hp, Bool.and_false, and_self]
  | @link q w m d k hc hp hf =>
      by_cases hq : q = t
      · subst hq
        have hout : q ∉ s.waiters v := by
          rw [hl.mem, hp, Cmd.linkedOn_start]
          nofun
        by_cases hw : w = v
        · subst hw
          simp [addsWaiter, Event.isStep, hc, hp]
        · have hw' : v ≠ w := Ne.symm hw
          simp [addsWaiter, hc, hp, hw, hw', hout]
      · rw [(hother hq rfl).1, (hother hq rfl).2]
        by_cases hw : v = w
        · subst hw
          simp [Ne.symm hq]
        · simp [hw]
  | @unlink q w m d k hc hp hf =>
      by_cases hq : q = t
      · subst hq
        by_cases hw : w = v
        · subst hw
          have hnodup := hl.nodup w
          simp [addsWaiter, removesWaiter, Event.isStep, hc, hp, hnodup.mem_erase_iff]
        · have hw' : v ≠ w := Ne.symm hw
          simp [addsWaiter, removesWaiter, hc, hp, hw, hw']
      · rw [(hother hq rfl).1, (hother hq rfl).2]
        by_cases hw : v = w
        · subst hw
          simp [List.mem_erase_of_ne (Ne.symm hq)]
        · simp [hw]

omit [DecidableEq μ] in
/-- Who adds itself is in no list yet. -/
theorem not_mem_of_adds (hl : Listed code s) (h : addsWaiter code v t s e = true) :
    t ∉ s.waiters w ∧ removesWaiter code v t s e = false := by
  rw [addsWaiter, Bool.and_eq_true] at h
  have hm := h.2
  split at hm
  · rename_i hc hp
    refine ⟨?_, ?_⟩
    · rw [hl.mem, hp, Cmd.linkedOn_start]
      nofun
    · rw [removesWaiter, hc, hp]
      exact Bool.and_false _
  · cases hm

omit [DecidableEq μ] in
/-- Who removes itself is in the list. -/
theorem mem_of_removes (hl : Listed code s) (h : removesWaiter code v t s e = true) :
    t ∈ s.waiters v := by
  rw [removesWaiter, Bool.and_eq_true] at h
  have hm := h.2
  split at hm
  · rename_i hc hp
    rw [hl.mem, hc, hp]
    exact congrArg some (of_decide_eq_true hm)
  · cases hm

/-- **A run of a list**: a worker is in it when it was added once more than it was removed. -/
theorem count_waiters {ctl : T → κ} {data : δ} (es : List (Event T κ))
    (h : (machine code ctl data).Reachable s) (hr : (machine code ctl data).run s es = some s') :
    (machine code ctl data).count (addsWaiter code v t) s es + (if t ∈ s.waiters v then 1 else 0) =
      (machine code ctl data).count (removesWaiter code v t) s es +
        (if t ∈ s'.waiters v then 1 else 0) := by
  induction es generalizing s with
  | nil =>
      cases Option.some.inj hr
      rfl
  | cons e es ih =>
      obtain ⟨m, hm, hr⟩ := Lib.Machine.run_cons_some hr
      have hrest : ∀ f, (machine code ctl data).count f s (e :: es) =
          (if f s e then 1 else 0) + (machine code ctl data).count f m es := fun f => by
        rw [Lib.Machine.count, hm]
        rfl
      rw [hrest, hrest]
      have hl := listed_reachable h
      have ih := ih (h.tail hm) hr
      have hmem := (step_of_next hm).mem_waiters_iff hl (t := t) (v := v)
      cases ha : addsWaiter code v t s e with
      | true =>
          obtain ⟨hout, hno⟩ := not_mem_of_adds (w := v) hl ha
          rw [ha] at hmem
          rw [if_pos (hmem.mpr (Or.inl rfl))] at ih
          rw [hno, if_neg hout]
          simp only [if_true, Bool.false_eq_true, if_false]
          omega
      | false =>
          cases hrm : removesWaiter code v t s e with
          | true =>
              rw [ha, hrm] at hmem
              have hout : t ∉ m.waiters v := by
                rw [hmem]
                simp
              rw [if_neg hout] at ih
              rw [if_pos (mem_of_removes hl hrm)]
              simp only [if_true, Bool.false_eq_true, if_false]
              omega
          | false =>
              rw [ha, hrm] at hmem
              have hiff : t ∈ m.waiters v ↔ t ∈ s.waiters v := by simpa using hmem
              simp only [hiff] at ih
              simp only [Bool.false_eq_true, if_false]
              omega

/-! ## Who is notified -/

/-- **Whoever sets a flag finds its worker linked.** -/
theorem linked_of_notified (hs : Step code s e s') (hl : Listed code s)
    (h : notified code s e = some u) : (∃ v, u ∈ s.waiters v) ∧ (s'.info u).cond = true := by
  have hnone : ∀ {q : T} {cmd : Cmd μ γ δ κ}, e = .step q → code (s.ctl q) = cmd →
      (∀ v k, cmd ≠ .notifyOne v k) → (∀ v k, cmd ≠ .notifyAll v k) → False := by
    rintro q cmd rfl hc h1 h2
    rw [notified, hc] at h
    cases cmd with
    | notifyOne v k => exact h1 v k rfl
    | notifyAll v k => exact h2 v k rfl
    | _ => cases h
  cases hs with
  | choose | tick => cases h
  | act hc | lock hc | tryYes hc | tryNo hc | unlock hc | link hc | arm hc | release hc | park hc
  | resume hc | relock hc | unlink hc | doze hc | fallAsleep hc | awake hc =>
      exact (hnone rfl hc nofun nofun).elim
  | notifyNone hc _ hw =>
      simp only [notified, hc, hw, List.head?_nil, reduceCtorEq] at h
  | @notifyOne q v k w rest hc _ hw =>
      simp only [notified, hc, hw, List.head?_cons, Option.some.injEq] at h
      subst h
      exact ⟨⟨v, by rw [hw]; exact List.mem_cons_self ..⟩, by simp⟩
  | scan hc hp | scanEnd hc hp => simp only [notified, hc, hp, reduceCtorEq] at h
  | @scanOne q v k w rest hc hp =>
      simp only [notified, hc, hp, Option.some.injEq] at h
      subst h
      -- who is yet to be notified is still in the list
      have hrest := hl.rest v q (w :: rest) (by rw [hc, hp]; rfl)
      exact ⟨⟨v, hrest.subset (List.mem_cons_self ..)⟩, by simp⟩

/-- **Nobody else sets it.** -/
theorem notified_of_cond (hs : Step code s e s') (h : (s.info u).cond = false)
    (h' : (s'.info u).cond = true) : notified code s e = some u := by
  cases hs with
  | @notifyOne q v k w rest hc _ hw =>
      by_cases hu : u = w
      · subst hu
        simp only [notified, hc, hw, List.head?_cons]
      · simp [hu, h] at h'
  | @scanOne q v k w rest hc hp =>
      by_cases hu : u = w
      · subst hu
        simp only [notified, hc, hp]
      · simp [hu, h] at h'
  | @arm q | @doze q =>
      by_cases hu : u = q
      · subst hu
        simp at h'
      · simp [hu, h] at h'
  | _ =>
      have hsame : (s.info u).cond = true := h'
      rw [h] at hsame
      cases hsame

/-! ## Who sleeps -/

/-- A worker in `sleep_until` has its flag clear and its time point set. -/
def Sleeping (code : κ → Cmd μ γ δ κ) (s : State T μ γ δ κ) : Prop :=
  ∀ t d k, code (s.ctl t) = .sleep d k → s.phase t ≠ .start → s.info t = ⟨false, d⟩

section

omit [DecidableEq μ] [DecidableEq γ]

/-- A worker that goes on elsewhere does not sleep. -/
theorem Sleeping.goto {r : State T μ γ δ κ} {q : T} {k : κ} (h : Sleeping code s)
    (hr : r.ctl = s.ctl ∧ r.phase = s.phase)
    (hi : ∀ t, t ≠ q → (∃ d k, code (s.ctl t) = .sleep d k) → r.info t = s.info t) :
    Sleeping code (r.goto q k) := by
  intro t d k' hc hp
  by_cases ht : t = q
  · subst ht
    rw [State.goto_phase, Function.update_self] at hp
    exact absurd rfl hp
  · rw [State.goto_ctl, Function.update_of_ne ht, hr.1] at hc
    rw [State.goto_phase, Function.update_of_ne ht, hr.2] at hp
    rw [State.goto_info, hi t ht ⟨d, k', hc⟩]
    exact h t d k' hc hp

/-- Neither does one inside another command. -/
theorem Sleeping.setPhase {r : State T μ γ δ κ} {q : T} {p : Phase T} (h : Sleeping code s)
    (hr : r.ctl = s.ctl ∧ r.phase = s.phase) (hq : ∀ d k, code (s.ctl q) ≠ .sleep d k)
    (hi : ∀ t, t ≠ q → (∃ d k, code (s.ctl t) = .sleep d k) → r.info t = s.info t) :
    Sleeping code (r.setPhase q p) := by
  intro t d k' hc hp
  rw [State.setPhase_ctl, hr.1] at hc
  by_cases ht : t = q
  · subst ht
    exact absurd hc (hq d k')
  · rw [State.setPhase_phase, Function.update_of_ne ht, hr.2] at hp
    rw [State.setPhase_info, hi t ht ⟨d, k', hc⟩]
    exact h t d k' hc hp

/-- A notification does not reach a sleeper. -/
theorem notifyWaiter_sleep (hl : Listed code s) (hu : u ∈ s.waiters v)
    (ht : ∃ d k, code (s.ctl t) = .sleep d k) : (s.notifyWaiter u).info t = s.info t := by
  have hne : t ≠ u := by
    rintro rfl
    obtain ⟨d, k, hc⟩ := ht
    rw [hl.mem, hc] at hu
    cases hu
  rw [State.notifyWaiter_info, Function.update_of_ne hne]

end

theorem Sleeping.step (hs : Step code s e s') (hl : Listed code s) (h : Sleeping code s) :
    Sleeping code s' := by
  cases hs with
  | choose | tryNo | awake | notifyNone => exact h.goto ⟨rfl, rfl⟩ fun _ _ _ => rfl
  | @act _ f hc =>
      exact h.goto (r := { s with data := (f s.now s.data).1 }) ⟨rfl, rfl⟩ fun _ _ _ => rfl
  | lock | tryYes | unlock =>
      exact h.goto (r := s.setOwner _ _) ⟨rfl, rfl⟩ fun _ _ _ => rfl
  | unlink => exact h.goto (r := s.setWaiters _ _) ⟨rfl, rfl⟩ fun _ _ _ => rfl
  | scanEnd => exact h.goto (r := s.setScanner _ _) ⟨rfl, rfl⟩ fun _ _ _ => rfl
  | @notifyOne q v k w rest hc _ hw =>
      refine h.goto (r := s.notifyWaiter w) ⟨rfl, rfl⟩ fun t _ ht => ?_
      exact notifyWaiter_sleep hl (v := v) (by rw [hw]; exact List.mem_cons_self ..) ht
  | link hc =>
      exact h.setPhase (r := s.setWaiters _ _) ⟨rfl, rfl⟩ (by rw [hc]; nofun) fun _ _ _ => rfl
  | @arm q v m d k hc =>
      refine h.setPhase (r := s.setWaitInfo q false d) ⟨rfl, rfl⟩ (by rw [hc]; nofun) ?_
      intro t ht _
      rw [State.setWaitInfo_info, Function.update_of_ne ht]
  | release hc | relock hc =>
      exact h.setPhase (r := s.setOwner _ _) ⟨rfl, rfl⟩ (by rw [hc]; nofun) fun _ _ _ => rfl
  | park hc | resume hc =>
      exact h.setPhase ⟨rfl, rfl⟩ (by rw [hc]; nofun) fun _ _ _ => rfl
  | scan hc =>
      exact h.setPhase (r := s.setScanner _ _) ⟨rfl, rfl⟩ (by rw [hc]; nofun) fun _ _ _ => rfl
  | @scanOne q v k w rest hc hp =>
      refine h.setPhase (r := s.notifyWaiter w) ⟨rfl, rfl⟩ (by rw [hc]; nofun) fun t _ ht => ?_
      have hrest := hl.rest v q (w :: rest) (by rw [hc, hp]; rfl)
      exact notifyWaiter_sleep hl (hrest.subset (List.mem_cons_self ..)) ht
  | @doze q d k hc hp =>
      intro t d' k' hc' hp'
      rw [State.setPhase_ctl, State.setWaitInfo_ctl] at hc'
      by_cases ht : t = q
      · subst ht
        rw [hc] at hc'
        cases hc'
        rw [State.setPhase_info, State.setWaitInfo_info, Function.update_self]
      · rw [State.setPhase_phase, Function.update_of_ne ht] at hp'
        rw [State.setPhase_info, State.setWaitInfo_info, Function.update_of_ne ht]
        exact h t d' k' hc' hp'
  | @fallAsleep q d k hc hp =>
      intro t d' k' hc' hp'
      by_cases ht : t = q
      · subst ht
        exact h t d' k' hc' (by rw [hp]; nofun)
      · rw [State.setPhase_phase, Function.update_of_ne ht] at hp'
        exact h t d' k' hc' hp'
  | tick => exact h

theorem sleeping_reachable {ctl : T → κ} {data : δ} (h : (machine code ctl data).Reachable s) :
    Sleeping code s := by
  refine Lib.Machine.Reach.invariant ?_ ?_ h
  · rintro s ⟨now, rfl⟩ t d k _ hp
    exact absurd rfl hp
  · intro s e s' hr _ hs hi
    exact hi.step (step_of_next hs) (listed_reachable hr)

/-- What a worker does in `sleep_until`. -/
theorem Sleeping.sleep_cases {d : Time} {k : κ} (h : Sleeping code s)
    (hc : code (s.ctl t) = .sleep d k) (hs : next code s (.step t) = some s') :
    (s'.ctl t = s.ctl t ∧ s'.phase t ≠ .start ∧ s'.info t = ⟨false, d⟩) ∨
      (s'.ctl t = k ∧ s.phase t ≠ .start ∧ s.now ≥ d) := by
  have hst : Step code s (.step t) s' := step_of_next hs
  cases hst with
  | doze hc' =>
      rw [hc] at hc'
      cases hc'
      exact Or.inl ⟨rfl, by simp, by simp⟩
  | fallAsleep hc' hp =>
      refine Or.inl ⟨rfl, by simp, ?_⟩
      exact h t d k hc (by rw [hp]; nofun)
  | awake hc' hp hw =>
      rw [hc] at hc'
      cases hc'
      have hne : s.phase t ≠ .start := by
        rcases hp with hp | hp <;> rw [hp] <;> nofun
      refine Or.inr ⟨by simp, hne, ?_⟩
      -- the flag is clear, so it was the clock
      rw [h t d k hc hne, checkWaitInfo, Bool.false_or] at hw
      exact of_decide_eq_true hw
  | act hc' | lock hc' | tryYes hc' | tryNo hc' | unlock hc' | link hc' | arm hc' | release hc'
  | park hc' | resume hc' | relock hc' | unlink hc' | notifyNone hc' | notifyOne hc' | scan hc'
  | scanOne hc' | scanEnd hc' =>
      rw [hc] at hc'
      cases hc'

/-! ## The interface -/

/--
**The waiters lists are kept in order, and nobody is woken early.** In any program: nobody is in
two lists or twice in one; over any run, a worker was added to a list once more than it was
removed if it is in it now and was not before, and as often if nothing has changed; a step that
sets the `m_cond` of a worker finds it linked, and only such a step turns the flag on; and a
worker in `sleep_until` is in no list, its flag is clear from its first statement on, and it
goes on after the call only when its time point has come.
-/
theorem waiter_discipline {ctl : T → κ} {data : δ} (h : (machine code ctl data).Reachable s) :
    (∀ v, (s.waiters v).Nodup) ∧
    (∀ t v w, t ∈ s.waiters v → t ∈ s.waiters w → v = w) ∧
    (∀ t v es s', (machine code ctl data).run s es = some s' →
      (machine code ctl data).count (addsWaiter code v t) s es +
        (if t ∈ s.waiters v then 1 else 0) =
      (machine code ctl data).count (removesWaiter code v t) s es +
        (if t ∈ s'.waiters v then 1 else 0)) ∧
    (∀ e s' u, (machine code ctl data).next s e = some s' →
      (notified code s e = some u → ∃ v, u ∈ s.waiters v) ∧
      ((s.info u).cond = false → (s'.info u).cond = true → notified code s e = some u)) ∧
    ∀ t d k, code (s.ctl t) = .sleep d k →
      (∀ v, t ∉ s.waiters v) ∧ (s.phase t ≠ .start → s.info t = ⟨false, d⟩) ∧
      ∀ s', (machine code ctl data).next s (.step t) = some s' →
        (s'.ctl t = s.ctl t ∧ s'.phase t ≠ .start) ∨ (s'.ctl t = k ∧ s.now ≥ d) := by
  have hl := listed_reachable h
  refine ⟨hl.nodup, fun t v w hv hw => ?_, fun t v es s' hr => count_waiters es h hr,
    fun e s' u hs => ⟨fun hn => (linked_of_notified (step_of_next hs) hl hn).1,
      notified_of_cond (step_of_next hs)⟩, fun t d k hc => ⟨fun v hv => ?_,
      sleeping_reachable h t d k hc, fun s' hs => ?_⟩⟩
  · rw [hl.mem] at hv hw
    rw [hv] at hw
    exact Option.some.inj hw
  · rw [hl.mem, hc] at hv
    cases hv
  · exact ((sleeping_reachable h).sleep_cases hc hs).imp (fun hin => ⟨hin.1, hin.2.1⟩)
      fun hout => ⟨hout.1, hout.2.2⟩

/-- The worker `t` waits, the worker `u` notifies it, and it returns. -/
def notifiedWait (t u : T) : List (Event T (Client Bool)) := List.flatten [
  [.choose t (.acquire 0), .step t, .choose t (.plainWait Time.max 0)], List.replicate 4 (.step t),
  [.choose u (.notifyOne false 0), .step u], List.replicate 3 (.step t)]

/-- The flag stays set when the worker has left the list. -/
theorem cond_outlives_removal : ¬∀ s, (Client.machine (Fin 2) false).Reachable s →
    ∀ t, (s.info t).cond = true → ∃ v, t ∈ s.waiters v := by
  intro hall
  obtain ⟨s, hr, hp⟩ := Lib.Machine.exists_of_run (M := Client.machine (Fin 2) false)
    (p := fun s => decide ((s.info 1).cond = true ∧ 1 ∉ s.waiters ())) (.init ⟨0, rfl⟩)
    (notifiedWait 1 0) (by decide +kernel)
  obtain ⟨hcond, hout⟩ := of_decide_eq_true hp
  obtain ⟨v, hin⟩ := hall s hr 1 hcond
  exact hout hin

/-- A worker in `sleep` until `d`. -/
def sleepsUntil (t : T) (d : Time) (s : State T Unit Unit (Shared Bool) (Client Bool)) : Bool :=
  match s.ctl t with
  | .sleep true d' 0 => decide (d' = d)
  | _ => false

/-- It sleeps after that, and has to wait for its time point. -/
theorem waiter_discipline_run : ∃ s, (Client.machine (Fin 2) false).Reachable s ∧
    s.phase 1 = .asleep ∧ s.info 1 = ⟨false, 9⟩ ∧ ∀ v, 1 ∉ s.waiters v := by
  obtain ⟨s, hr, hp⟩ := Lib.Machine.exists_of_run (M := Client.machine (Fin 2) false)
    (p := fun s => decide (s.phase 1 = .asleep) && sleepsUntil 1 9 s) (.init ⟨0, rfl⟩)
    (notifiedWait 1 0 ++ [Event.choose 1 (Client.sleep true 9 0), Event.step 1, Event.step 1])
    (by decide +kernel)
  rw [Bool.and_eq_true, decide_eq_true_eq] at hp
  obtain ⟨hphase, hctl⟩ := hp
  unfold sleepsUntil at hctl
  split at hctl
  · rename_i d hc
    obtain rfl := of_decide_eq_true hctl
    obtain ⟨-, -, -, -, hsleep⟩ := waiter_discipline hr
    obtain ⟨hout, hinfo, -⟩ := hsleep 1 9 _ (by rw [hc]; rfl)
    exact ⟨s, hr, hphase, hinfo (by rw [hphase]; simp), hout⟩
  · cases hctl

end Ums.Monitor
