import Ums.Monitor.Basic

/-!
# What a step of a program can do

`Step` lists the outcomes of `next` once, with what each of them found out.
`step_of_next` is the only place where the step function is unfolded.

Most facts about a program only concern the control points and the data. `Jump`
says what a step does to these two, whatever it does to the rest.
-/

namespace Ums.Monitor

variable {T μ γ δ κ : Type} [DecidableEq T] [DecidableEq μ] [DecidableEq γ]
  {code : κ → Cmd μ γ δ κ} {s s' : State T μ γ δ κ}

/-- The outcomes of a step. -/
inductive Step (code : κ → Cmd μ γ δ κ) (s : State T μ γ δ κ) :
    Event T κ → State T μ γ δ κ → Prop
  | choose {t k ok} (hc : code (s.ctl t) = .choose ok) (hk : ok k = true) :
      Step code s (.choose t k) (s.goto t k)
  | act {t f} (hc : code (s.ctl t) = .act f) :
      Step code s (.step t) ({ s with data := (f s.now s.data).1 }.goto t (f s.now s.data).2)
  | lock {t m k} (hc : code (s.ctl t) = .lock m k) (ho : s.owner m = none) :
      Step code s (.step t) ((s.setOwner m (some t)).goto t k)
  | tryYes {t m yes no} (hc : code (s.ctl t) = .tryLock m yes no) (ho : s.owner m = none) :
      Step code s (.step t) ((s.setOwner m (some t)).goto t yes)
  | tryNo {t m yes no} (hc : code (s.ctl t) = .tryLock m yes no) (ho : s.owner m ≠ none) :
      Step code s (.step t) (s.goto t no)
  | unlock {t m k} (hc : code (s.ctl t) = .unlock m k) :
      Step code s (.step t) ((s.setOwner m none).goto t k)
  | link {t v m d k} (hc : code (s.ctl t) = .wait v m d k) (hp : s.phase t = .start)
      (hf : s.scanner v = none) :
      Step code s (.step t) ((s.setWaiters v (s.waiters v ++ [t])).setPhase t .linked)
  | arm {t v m d k} (hc : code (s.ctl t) = .wait v m d k) (hp : s.phase t = .linked) :
      Step code s (.step t) ((s.setWaitInfo t false d).setPhase t .armed)
  | release {t v m d k} (hc : code (s.ctl t) = .wait v m d k) (hp : s.phase t = .armed) :
      Step code s (.step t) ((s.setOwner m none).setPhase t .released)
  | park {t v m d k} (hc : code (s.ctl t) = .wait v m d k) (hp : s.phase t = .released)
      (hw : checkWaitInfo (s.info t) s.now = false) : Step code s (.step t) (s.setPhase t .parked)
  | resume {t v m d k} (hc : code (s.ctl t) = .wait v m d k)
      (hp : s.phase t = .released ∨ s.phase t = .parked)
      (hw : checkWaitInfo (s.info t) s.now = true) : Step code s (.step t) (s.setPhase t .resumed)
  | relock {t v m d k} (hc : code (s.ctl t) = .wait v m d k) (hp : s.phase t = .resumed)
      (ho : s.owner m = none) :
      Step code s (.step t) ((s.setOwner m (some t)).setPhase t .relocked)
  | unlink {t v m d k} (hc : code (s.ctl t) = .wait v m d k) (hp : s.phase t = .relocked)
      (hf : s.scanner v = none) :
      Step code s (.step t) ((s.setWaiters v ((s.waiters v).erase t)).goto t k)
  | doze {t d k} (hc : code (s.ctl t) = .sleep d k) (hp : s.phase t = .start) :
      Step code s (.step t) ((s.setWaitInfo t false d).setPhase t .dozing)
  | fallAsleep {t d k} (hc : code (s.ctl t) = .sleep d k) (hp : s.phase t = .dozing)
      (hw : checkWaitInfo (s.info t) s.now = false) : Step code s (.step t) (s.setPhase t .asleep)
  | awake {t d k} (hc : code (s.ctl t) = .sleep d k)
      (hp : s.phase t = .dozing ∨ s.phase t = .asleep)
      (hw : checkWaitInfo (s.info t) s.now = true) : Step code s (.step t) (s.goto t k)
  | notifyNone {t v k} (hc : code (s.ctl t) = .notifyOne v k) (hf : s.scanner v = none)
      (hl : s.waiters v = []) : Step code s (.step t) (s.goto t k)
  | notifyOne {t v k u rest} (hc : code (s.ctl t) = .notifyOne v k) (hf : s.scanner v = none)
      (hl : s.waiters v = u :: rest) : Step code s (.step t) ((s.notifyWaiter u).goto t k)
  | scan {t v k} (hc : code (s.ctl t) = .notifyAll v k) (hp : s.phase t = .start)
      (hf : s.scanner v = none) :
      Step code s (.step t) ((s.setScanner v (some t)).setPhase t (.scanning (s.waiters v)))
  | scanOne {t v k u rest} (hc : code (s.ctl t) = .notifyAll v k)
      (hp : s.phase t = .scanning (u :: rest)) :
      Step code s (.step t) ((s.notifyWaiter u).setPhase t (.scanning rest))
  | scanEnd {t v k} (hc : code (s.ctl t) = .notifyAll v k) (hp : s.phase t = .scanning []) :
      Step code s (.step t) ((s.setScanner v none).goto t k)
  | tick {d} : Step code s (.tick d) { s with now := s.now + d }

private theorem step_of_waitStep {t : T} {v : γ} {m : μ} {d : Time} {k : κ}
    (hc : code (s.ctl t) = .wait v m d k) (h : waitStep s t v m d k (s.phase t) = some s') :
    Step code s (.step t) s' := by
  cases hp : s.phase t <;> rw [hp] at h <;> simp only [waitStep, reduceCtorEq] at h
  case start =>
    split at h <;> cases h
    exact .link hc hp ‹_›
  case linked =>
    cases h
    exact .arm hc hp
  case armed =>
    cases h
    exact .release hc hp
  case released =>
    cases hw : checkWaitInfo (s.info t) s.now <;> rw [hw] at h <;> cases h
    · exact .park hc hp hw
    · exact .resume hc (Or.inl hp) hw
  case parked =>
    split at h <;> cases h
    exact .resume hc (Or.inr hp) ‹_›
  case resumed =>
    split at h <;> cases h
    exact .relock hc hp ‹_›
  case relocked =>
    split at h <;> cases h
    exact .unlink hc hp ‹_›

private theorem step_of_sleepStep {t : T} {d : Time} {k : κ} (hc : code (s.ctl t) = .sleep d k)
    (h : sleepStep s t d k (s.phase t) = some s') : Step code s (.step t) s' := by
  cases hp : s.phase t <;> rw [hp] at h <;> simp only [sleepStep, reduceCtorEq] at h
  case start =>
    cases h
    exact .doze hc hp
  case dozing =>
    split at h <;> rename_i hw <;> cases h
    · exact .awake hc (Or.inl hp) hw
    · exact .fallAsleep hc hp (by simpa using hw)
  case asleep =>
    split at h <;> cases h
    exact .awake hc (Or.inr hp) ‹_›

private theorem step_of_notifyAllStep {t : T} {v : γ} {k : κ}
    (hc : code (s.ctl t) = .notifyAll v k)
    (h : notifyAllStep s t v k (s.phase t) = some s') : Step code s (.step t) s' := by
  cases hp : s.phase t <;> rw [hp] at h <;> simp only [notifyAllStep, reduceCtorEq] at h
  case start =>
    split at h <;> cases h
    exact .scan hc hp ‹_›
  case scanning rest =>
    cases rest <;> cases h
    · exact .scanEnd hc hp
    · exact .scanOne hc hp

/-- **A step does what one of the outcomes of `Step` says.** -/
theorem step_of_next {e : Event T κ} (h : next code s e = some s') : Step code s e s' := by
  cases e with
  | tick d =>
      cases h
      exact .tick
  | choose t k =>
      simp only [next] at h
      split at h
      · split at h <;> cases h
        exact .choose ‹_› ‹_›
      · cases h
  | step t =>
      simp only [next] at h
      cases hc : code (s.ctl t) <;> rw [hc] at h <;> simp only [cmdStep, reduceCtorEq] at h
      case act f =>
        cases h
        exact .act hc
      case lock m k =>
        split at h <;> cases h
        exact .lock hc ‹_›
      case tryLock m yes no =>
        split at h <;> cases h
        · exact .tryYes hc ‹_›
        · exact .tryNo hc ‹_›
      case unlock m k =>
        cases h
        exact .unlock hc
      case wait v m d k => exact step_of_waitStep hc h
      case sleep d k => exact step_of_sleepStep hc h
      case notifyOne v k =>
        split at h
        · split at h <;> cases h
          · exact .notifyNone hc ‹_› ‹_›
          · exact .notifyOne hc ‹_› ‹_›
        · cases h
      case notifyAll v k => exact step_of_notifyAllStep hc h

/-! ## Who moves -/

/-- The worker that moves in a step. -/
def Event.worker {T κ : Type} : Event T κ → Option T
  | .step t | .choose t _ => some t
  | .tick _ => none

/-- Nobody else moves. -/
theorem Step.ctl_of_ne {e : Event T κ} {t : T} (hs : Step code s e s') (h : e.worker ≠ some t) :
    s'.ctl t = s.ctl t := by
  have hgo : ∀ {r : State T μ γ δ κ} {u : T} {k : κ}, r.ctl = s.ctl → some u ≠ some t →
      (r.goto u k).ctl t = s.ctl t := by
    intro r u k hr hu
    rw [State.goto_ctl, Function.update_of_ne fun he => hu (congrArg some he.symm), hr]
  cases hs with
  | choose | tryNo | awake | notifyNone => exact hgo (r := s) rfl h
  | act => exact hgo (r := { s with data := _ }) rfl h
  | lock | tryYes | unlock => exact hgo (r := s.setOwner _ _) rfl h
  | unlink => exact hgo (r := s.setWaiters _ _) rfl h
  | notifyOne => exact hgo (r := s.notifyWaiter _) rfl h
  | scanEnd => exact hgo (r := s.setScanner _ _) rfl h
  | _ => rfl

/-- A worker that leaves a control point has taken a step there, unless its caller decides. -/
theorem Step.event_eq {e : Event T κ} {t : T} (hs : Step code s e s') (hne : s'.ctl t ≠ s.ctl t)
    (hc : ∀ ok, code (s.ctl t) ≠ .choose ok) : e = .step t := by
  have hw : e.worker = some t := by
    by_contra hn
    exact hne (hs.ctl_of_ne hn)
  cases e with
  | step u =>
      cases hw
      rfl
  | choose u k =>
      cases hw
      cases hs with
      | choose hc' => exact absurd hc' (hc _)
  | tick d => cases hw

/-- A worker in its own code moves by its caller's decision only. -/
theorem next_choose {t : T} {ok : κ → Bool} (h : code (s.ctl t) = .choose ok) :
    next code s (.step t) = none := by
  simp only [next, h, cmdStep]

/-! ## Commands that can be executed -/

omit [DecidableEq μ] [DecidableEq γ] in
theorem State.goto_ctl_self (s : State T μ γ δ κ) (t : T) (k : κ) : (s.goto t k).ctl t = k := by
  rw [goto_ctl, Function.update_self]

theorem next_call {t : T} {k : κ} {ok : κ → Bool} (hc : code (s.ctl t) = .choose ok)
    (hk : ok k = true) : next code s (.choose t k) = some (s.goto t k) := by
  simp only [next, hc, hk, if_true]

theorem next_act {t : T} {k : κ} {x : δ} {f : Time → δ → δ × κ} (hc : code (s.ctl t) = .act f)
    (hf : f s.now s.data = (x, k)) :
    next code s (.step t) = some ({ s with data := x }.goto t k) := by
  simp only [next, hc, cmdStep, hf]

theorem next_lock {t : T} {m : μ} {k : κ} (hc : code (s.ctl t) = .lock m k)
    (ho : s.owner m = none) : next code s (.step t) = some ((s.setOwner m (some t)).goto t k) := by
  simp only [next, hc, cmdStep, ho, if_true]

theorem next_tryLock {t : T} {m : μ} {yes no : κ} (hc : code (s.ctl t) = .tryLock m yes no)
    (ho : s.owner m = none) :
    next code s (.step t) = some ((s.setOwner m (some t)).goto t yes) := by
  simp only [next, hc, cmdStep, ho, if_true]

theorem next_unlock {t : T} {m : μ} {k : κ} (hc : code (s.ctl t) = .unlock m k) :
    next code s (.step t) = some ((s.setOwner m none).goto t k) := by
  simp only [next, hc, cmdStep]

theorem ctl_of_unlock {t : T} {m : μ} {k : κ} (hc : code (s.ctl t) = .unlock m k)
    (h : next code s (.step t) = some s') : s'.ctl t = k := by
  rw [next_unlock hc] at h
  cases h
  exact State.goto_ctl_self ..

/-! ## Control points and data -/

/-- A worker leaves a control point for another one, which may change the data. -/
inductive Jump (code : κ → Cmd μ γ δ κ) (now : Time) : κ → δ → κ → δ → Prop
  | choose {c x k ok} (hc : code c = .choose ok) (hk : ok k = true) : Jump code now c x k x
  | act {c x f} (hc : code c = .act f) : Jump code now c x (f now x).2 (f now x).1
  | lock {c x m k} (hc : code c = .lock m k) : Jump code now c x k x
  | tryYes {c x m yes no} (hc : code c = .tryLock m yes no) : Jump code now c x yes x
  | tryNo {c x m yes no} (hc : code c = .tryLock m yes no) : Jump code now c x no x
  | unlock {c x m k} (hc : code c = .unlock m k) : Jump code now c x k x
  | wait {c x v m d k} (hc : code c = .wait v m d k) : Jump code now c x k x
  | sleep {c x d k} (hc : code c = .sleep d k) : Jump code now c x k x
  | notifyOne {c x v k} (hc : code c = .notifyOne v k) : Jump code now c x k x
  | notifyAll {c x v k} (hc : code c = .notifyAll v k) : Jump code now c x k x

omit [DecidableEq μ] [DecidableEq γ] in
/-- Only `act` changes the data. -/
theorem Jump.act_of_ne {now : Time} {c k : κ} {x y : δ} (hj : Jump code now c x k y) (h : y ≠ x) :
    ∃ f, code c = .act f ∧ y = (f now x).1 := by
  cases hj with
  | act hc => exact ⟨_, hc, rfl⟩
  | _ => exact absurd rfl h

/-- **A step leaves the control points and the data as they are, or one worker jumps.** -/
theorem Step.jump {e : Event T κ} (hs : Step code s e s') :
    (s'.ctl = s.ctl ∧ s'.data = s.data) ∨
      ∃ t, s'.ctl = Function.update s.ctl t (s'.ctl t) ∧
        Jump code s.now (s.ctl t) s.data (s'.ctl t) s'.data := by
  have hgo : ∀ {r : State T μ γ δ κ} {t : T} {k : κ}, r.ctl = s.ctl →
      Jump code s.now (s.ctl t) s.data k r.data →
      (((r.goto t k).ctl = s.ctl ∧ (r.goto t k).data = s.data) ∨
        ∃ u, (r.goto t k).ctl = Function.update s.ctl u ((r.goto t k).ctl u) ∧
          Jump code s.now (s.ctl u) s.data ((r.goto t k).ctl u) (r.goto t k).data) := by
    intro r t k hr hj
    refine Or.inr ⟨t, ?_, ?_⟩
    · rw [State.goto_ctl, Function.update_self, hr]
    · rwa [State.goto_ctl, Function.update_self]
  cases hs with
  | choose hc hk => exact hgo rfl (.choose hc hk)
  | act hc => exact hgo (r := { s with data := _ }) rfl (.act hc)
  | lock hc => exact hgo (r := s.setOwner _ _) rfl (.lock hc)
  | tryYes hc => exact hgo (r := s.setOwner _ _) rfl (.tryYes hc)
  | tryNo hc => exact hgo rfl (.tryNo hc)
  | unlock hc => exact hgo (r := s.setOwner _ _) rfl (.unlock hc)
  | unlink hc => exact hgo (r := s.setWaiters _ _) rfl (.wait hc)
  | awake hc => exact hgo rfl (.sleep hc)
  | notifyNone hc => exact hgo rfl (.notifyOne hc)
  | notifyOne hc => exact hgo (r := s.notifyWaiter _) rfl (.notifyOne hc)
  | scanEnd hc => exact hgo (r := s.setScanner _ _) rfl (.notifyAll hc)
  | _ => exact Or.inl ⟨rfl, rfl⟩

/-- **What every worker knows** it still knows after a step, if the worker that jumps does and the
others do not lose it. -/
theorem Step.forall_ctl {e : Event T κ} {Q : T → κ → δ → Prop} (hs : Step code s e s')
    (hself : ∀ t, Jump code s.now (s.ctl t) s.data (s'.ctl t) s'.data → Q t (s'.ctl t) s'.data)
    (hother : ∀ t u, u ≠ t → Jump code s.now (s.ctl t) s.data (s'.ctl t) s'.data →
      Q u (s.ctl u) s.data → Q u (s.ctl u) s'.data)
    (h : ∀ u, Q u (s.ctl u) s.data) (u : T) : Q u (s'.ctl u) s'.data := by
  rcases hs.jump with ⟨hc, hd⟩ | ⟨t, hc, hj⟩
  · rw [hc, hd]
    exact h u
  · by_cases hu : u = t
    · rw [hu]
      exact hself t hj
    · rw [hc, Function.update_of_ne hu]
      exact hother t u hu hj (h u)

/-- **A worker whose caller decides nothing** stays at its control point, or jumps from one that is
not its caller's. -/
theorem jump_of_next {e : Event T κ} {t : T} (hs : next code s e = some s')
    (he : ∀ k, e ≠ .choose t k) : s'.ctl t = s.ctl t ∨
      ((∀ ok, code (s.ctl t) ≠ .choose ok) ∧
        Jump code s.now (s.ctl t) s.data (s'.ctl t) s'.data) := by
  have hst := step_of_next hs
  by_cases hctl : s'.ctl t = s.ctl t
  · exact Or.inl hctl
  · have hw : e.worker = some t := by
      by_contra hn
      exact hctl (hst.ctl_of_ne hn)
    refine Or.inr ⟨fun ok hc => ?_, ?_⟩
    · cases e with
      | step u =>
          cases hw
          rw [next_choose hc] at hs
          cases hs
      | choose u k =>
          cases hw
          exact he k rfl
      | tick d => cases hw
    · rcases hst.jump with ⟨hc, _⟩ | ⟨u, hc, hj⟩
      · exact absurd (congrFun hc t) hctl
      · by_cases hu : t = u
        · rw [hu]
          exact hj
        · rw [hc, Function.update_of_ne hu] at hctl
          exact absurd rfl hctl

/-- A worker at an `act` jumps when it takes its step. -/
theorem Step.jump_of_act {t : T} {f : Time → δ → δ × κ} (hs : Step code s (.step t) s')
    (hc : code (s.ctl t) = .act f) : Jump code s.now (s.ctl t) s.data (s'.ctl t) s'.data := by
  cases hs with
  | act hc' =>
      rw [State.goto_ctl, Function.update_self]
      exact .act hc'
  | lock hc' | tryYes hc' | tryNo hc' | unlock hc' | link hc' | arm hc' | release hc' | park hc'
  | resume hc' | relock hc' | unlink hc' | doze hc' | fallAsleep hc' | awake hc' | notifyNone hc'
  | notifyOne hc' | scan hc' | scanOne hc' | scanEnd hc' =>
      rw [hc] at hc'
      cases hc'

end Ums.Monitor
