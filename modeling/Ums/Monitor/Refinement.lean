import Ums.Lib.Simulation
import Ums.Monitor.Atomic
import Ums.Monitor.Client

/-!
# The accesses refine the statements

Whatever the workers do one access at a time, they do in `Ums.Monitor` one statement at a
time, with one lemma for each kind of statement.

`check_wait_info` reads `m_cond` before the clock. A worker that is notified in between
parks all the same, where `Ums.Monitor` lets it go on; its scheduler then finds `m_cond`
set, and that is when it goes on there.
-/

namespace Ums.Monitor

open Mutex (SpinPoint LockPoint TryPoint UnlockPoint)

variable {T μ γ δ κ : Type} [DecidableEq T] [DecidableEq μ] [DecidableEq γ]
  {code : κ → Cmd μ γ δ κ} {s s' : Memory T μ γ δ κ} {a : State T μ γ δ κ} {t u : T}

/-! ## Mutexes -/

section

variable {holds : κ → μ → Bool} {m : μ} {next : Place T κ}

section

omit [DecidableEq γ]

/-- An access of an operation of a mutex. -/
theorem Memory.mutexStep_jump {c : Mutex.Ctl T} (hs : s.mutexStep t m c next = some s') :
    ∃ k y, Jump Mutex.code s.now c (s.mutex m) k y ∧
      s' = (pointOf k).elim ((s.setMutex m y).go t next) ((s.setMutex m y).setPoint t) := by
  rw [mutexStep] at hs
  cases hc : Mutex.code c <;> rw [hc] at hs <;> simp only [Cmd.access, Option.map_none,
    Option.map_some, reduceCtorEq] at hs
  cases hs
  exact ⟨_, _, .act hc, rfl⟩

/-- **An access that leaves the mutex to whom it belongs.** -/
theorem Refines.fidget {y : Mutex.Data T} {q : Point} (h : Refines code s a)
    (hy : Mutex.flag.taken y = Mutex.flag.taken (s.mutex m))
    (hn : ∀ u, y.tid = some u → (s.mutex m).tid = some u) (h0 : s.ahead code t = none)
    (hq : (s.stmt code t).ahead q = none)
    (hk : (s.stmt code t).locks q = s.locks code t) (hc : s.point t ≠ .cleared ∧ q ≠ .cleared)
    (hu : ∀ m' next, s.stmt code t = .unlock m' next → q = .unlock .flagStore →
      ((s.setMutex m y).mutex m').tid ≠ some t)
    (ht : q ≠ .lock .threw) : Refines code ((s.setMutex m y).setPoint t q) a := by
  have hm : Alone t s (s.setMutex m y) a a :=
    (Alone.refl t s a).setMutex fun u _ hyu => hn u hyu
  refine h.inside hm ⟨rfl, rfl, rfl⟩ ?_ h0 hq hc hu ht
  exact
    { data := h.shared.data
      now := h.shared.now
      waiters := h.shared.waiters
      mutexes := h.shared.mutexes.keep hy fun u hyu => (h.shared.mutexes m).2 u (hn u hyu)
      spins := (hm.setPoint q).spins ((Memory.locks_setPoint ..).trans hk) h.shared.spins }

/-- **A mutex is taken**, and the worker has something left to do. -/
theorem Refines.takes {y : Mutex.Data T} {q : Point} (h : Refines code s a) (next : Place T κ)
    (hy : Mutex.flag.taken y = true) (hn : y.tid = (s.mutex m).tid) (ho : a.owner m = none)
    (h0 : s.ahead code t = none) (hq : (s.stmt code t).ahead q = some next)
    (hk : (s.stmt code t).locks q = s.locks code t) (hc : s.point t ≠ .cleared ∧ q ≠ .cleared)
    (hu : q ≠ .unlock .flagStore) (ht : q ≠ .lock .threw) :
    Refines code ((s.setMutex m y).setPoint t q) ((a.setOwner m (some t)).go t next) := by
  have hm : Alone t s (s.setMutex m y) a (a.setOwner m (some t)) := by
    have hm := (Alone.refl t s a).setMutex (m := m) (y := y) fun u _ hyu => by rw [← hn, hyu]
    exact ⟨hm.ctl, hm.phase, hm.point, hm.info, hm.tid⟩
  have hctl : a.ctl t = s.ctl t := ((h.each t).stmt_eq h0).1
  refine h.moves ((hm.setPoint q).goes next) ?_ (At.inside ?_ ?_ ?_ ht)
  · refine Common.goes ?_ next
    refine
      { data := h.shared.data
        now := h.shared.now
        waiters := h.shared.waiters
        mutexes := ?_
        spins := (hm.setPoint q).spins ((Memory.locks_setPoint ..).trans hk) h.shared.spins }
    -- nobody held it, so it names nobody
    refine h.shared.mutexes.update hy fun u hyu => ?_
    have hown := (h.shared.mutexes m).2 u (by rw [← hn, hyu])
    rw [ho] at hown
    cases hown
  · have hq' : ((s.setMutex m y).stmt code t).ahead q = some next := hq
    rw [hq']
    cases next with
    | ctl k => simp [State.go, Placed]
    | phase p => simp [State.go, Placed, hctl]
  · rw [State.go_info, Stmt.settled_of_ne hc.2]
    exact (h.each t).info.trans (Stmt.settled_of_ne hc.1 _)
  · exact fun _ _ _ hf => absurd hf hu

omit [DecidableEq μ] in
/-- What is left of a statement has been done. -/
theorem Refines.finish {r : Memory T μ γ δ κ} (h : Refines code s a) (hm : Alone t s r a a)
    (hr : r.ctl = s.ctl ∧ r.phase = s.phase) (hi : a.info t = r.info t)
    (hsh : Common code (r.go t next) a) (h0 : s.ahead code t = some next) :
    Refines code (r.go t next) a := by
  refine h.moves (hm.go next) hsh (At.catchUp ?_ hi)
  have hp := (h.each t).placed
  rwa [h0, ← hr.1, ← hr.2] at hp

end

/-- No control point locks what is held there. -/
def NoRelock (code : κ → Cmd μ γ δ κ) (holds : κ → μ → Bool) : Prop :=
  ∀ c m k, code c = .lock m k → holds c m = false

section

omit [DecidableEq γ]

/-- A worker that locks a mutex does not hold it. -/
theorem holding_of_lock (hl : NoRelock code holds) (hst : a.stmt code t = .lock m next) :
    Holding code holds a t m = false := by
  have hs := (code (a.ctl t)).stands t (a.phase t)
  rw [State.stmt] at hst
  rw [hst] at hs
  rw [Holding]
  generalize hc : code (a.ctl t) = c at hs ⊢
  generalize hp : a.phase t = p at hs ⊢
  cases hs with
  | lock => rw [hl _ _ _ hc, Bool.false_and]
  | relock => simp [Cmd.away]

/-- A worker that unlocks a mutex holds it. -/
theorem holding_of_unlock (hd : Disciplined code holds) (hst : a.stmt code t = .unlock m next) :
    Holding code holds a t m = true := by
  have hk := hd (a.ctl t)
  have hs := (code (a.ctl t)).stands t (a.phase t)
  rw [State.stmt] at hst
  rw [hst] at hs
  rw [Holding]
  generalize code (a.ctl t) = c at hk hs ⊢
  generalize a.phase t = p at hs ⊢
  cases hs with
  | unlock =>
      rw [hk.1]
      rfl
  | release =>
      rw [hk.1]
      rfl

/-- A worker that has locked a mutex holds it, though it has not yet put its name on it. -/
theorem holding_of_locked (hd : Disciplined code holds) (hst : s.stmt code t = .lock m next)
    (hp : Placed (s.ctl t) (s.phase t) (a.ctl t) (a.phase t) (some next)) :
    Holding code holds a t m = true := by
  have hk := hd (s.ctl t)
  have hs := (code (s.ctl t)).stands t (s.phase t)
  rw [Memory.stmt] at hst
  rw [hst] at hs
  rw [Holding]
  generalize hc : code (s.ctl t) = c at hk hs
  generalize s.phase t = p at hs
  cases hs with
  | @lock _ k =>
      have hk : holds k = Function.update (holds (s.ctl t)) m true := hk
      rw [hp.1, hp.2, Cmd.away_start, hk, Function.update_self]
      rfl
  | relock =>
      rw [hp.1, hp.2, hc, hk.1]
      rfl

omit [DecidableEq μ] in
theorem Memory.stmt_quiet (code : κ → Cmd μ γ δ κ) (s : Memory T μ γ δ κ) (t : T) :
    (s.stmt code t).quiet = true :=
  Cmd.stmt_quiet ..

omit [DecidableEq μ] in
theorem quiet_of_lock (hst : s.stmt code t = .lock m next) : next.quiet = true := by
  have hq := s.stmt_quiet code t
  rwa [hst] at hq

omit [DecidableEq μ] in
theorem quiet_of_unlock (hst : s.stmt code t = .unlock m next) : next.quiet = true := by
  have hq := s.stmt_quiet code t
  rwa [hst] at hq

end

/-- **`Mutex::lock`** has its effect when it sets the flag, and does not throw. -/
theorem Refines.lockStep (h : Refines code s a) (hd : Disciplined code holds)
    (hl : NoRelock code holds) (hG : Guarded code holds a) (hst : s.stmt code t = .lock m next)
    (hs : s.lockStep t m next (s.point t) = some s') : Follows code t s a s' := by
  cases hp : s.point t <;> rw [hp] at hs <;> simp only [Memory.lockStep, reduceCtorEq] at hs
  case start =>
    cases hs
    exact Or.inl (h.begins hp (by rw [hst]; rfl) (by rw [hst]; rfl) (by simp) (by simp) (by simp))
  case lock p =>
    have hthrew : p ≠ .threw := fun he => (h.each t).calm (by rw [hp, he])
    have hs' : s.mutexStep t m (.lock { thisTid := t } p) next = some s' := by
      cases p <;> first | exact hs | exact absurd rfl hthrew
    obtain ⟨k, y, hj, rfl⟩ := Memory.mutexStep_jump hs'
    have hlocks : ∀ q, (s.stmt code t).locks (.lock q) = s.locks code t := fun q => by
      rw [Memory.locks, hp, hst]
      rfl
    have hcalm : s.point t ≠ .cleared := by simp [hp]
    -- before the thread id is stored, the worker is where it is in `Ums.Monitor`
    have h0 : p ≠ .tidStore → s.ahead code t = none := fun hne => by
      rw [Memory.ahead, hp, hst]
      cases p <;> first | rfl | exact absurd rfl hne
    cases Mutex.goes_of_jump hj with
    | lockRefused ht =>
        -- it would have to hold the mutex already
        have hown := (h.shared.mutexes m).2 t ht
        rw [hG m t, holding_of_lock hl (((h.each t).stmt_eq (h0 (by simp))).2.trans hst)] at hown
        cases hown
    | lockEnter ht =>
        exact Or.inl (h.fidget rfl (fun _ hu => hu) (h0 (by simp)) (by rw [hst]; rfl) (hlocks _)
          ⟨hcalm, by simp⟩ (fun _ _ _ hf => by cases hf) (by simp))
    | lockOn hl =>
        have htid : y.tid = (s.mutex m).tid := hl.same (g := Mutex.Data.tid) fun _ _ => rfl
        exact Or.inl (h.fidget (by rw [hl.taken, Bool.or_false]) (fun u hu => by rw [← htid, hu])
          (h0 (by simp)) (by rw [hst]; rfl) (hlocks _) ⟨hcalm, by simp⟩
          (fun _ _ _ hf => by cases hf) (by simp))
    | lockTakes hw =>
        have htid : y.tid = (s.mutex m).tid := hw.same (g := Mutex.Data.tid) fun _ _ => rfl
        have hfree : a.owner m = none := by
          cases hw with
          | won hx hy =>
              rw [(h.shared.mutexes m).1] at hx
              exact Option.isNone_iff_eq_none.mp (by simpa using hx)
        refine h.commit _ (h0 (by simp)) ?_ (h.takes next (by rw [hw.taken, Bool.or_true])
          htid hfree (h0 (by simp)) (by rw [hst]; rfl) (hlocks _) ⟨hcalm, by simp⟩ (by simp)
          (by simp))
        rw [hst, State.atomic, if_pos hfree]
    | lockNames =>
        have hahead : s.ahead code t = some next := by
          rw [Memory.ahead, hp, hst]
          rfl
        -- the mutex is its own, and it has put its name on it
        have hown : a.owner m = some t := by
          have hplaced := (h.each t).placed
          rw [hahead] at hplaced
          exact (hG m t).mpr (holding_of_locked hd hst hplaced)
        have hm : Alone t s (s.setMutex m { s.mutex m with tid := some t }) a a :=
          (Alone.refl t s a).setMutex fun u hu he => absurd (Option.some.inj he).symm hu
        refine Or.inl (h.finish hm ⟨rfl, rfl⟩ ?_ ?_ hahead)
        · rw [(h.each t).info, Stmt.settled_of_ne hcalm]
          rfl
        · refine Common.go h.shared.data h.shared.now h.shared.waiters
            (h.shared.mutexes.keep rfl fun u hu => by rw [hown, ← hu]) ?_
          refine (hm.go next).spins ?_ h.shared.spins
          rw [Memory.locks_go _ _ (quiet_of_lock hst), Memory.locks, hp, hst]
          rfl
    | lockThrows => exact absurd rfl hthrew

/-- **`Mutex::try_lock`** has its effect when it sets the flag or finds it set. -/
theorem Refines.tryLockStep {yes no : κ} (h : Refines code s a)
    (hst : s.stmt code t = .tryLock m yes no)
    (hs : s.tryLockStep t m yes no (s.point t) = some s') : Follows code t s a s' := by
  cases hp : s.point t <;> rw [hp] at hs <;> simp only [Memory.tryLockStep, reduceCtorEq] at hs
  case start =>
    cases hs
    exact Or.inl (h.begins hp (by rw [hst]; rfl) (by rw [hst]; rfl) (by simp) (by simp) (by simp))
  case tryLock p =>
    obtain ⟨k, y, hj, rfl⟩ := Memory.mutexStep_jump hs
    have hlocks : ∀ q, (s.stmt code t).locks (.tryLock q) = s.locks code t := fun q => by
      rw [Memory.locks, hp, hst]
      rfl
    have hcalm : s.point t ≠ .cleared := by simp [hp]
    have h0 : ∀ {q}, p = .spin q → s.ahead code t = none := fun he => by
      rw [Memory.ahead, hp, hst, he]
      rfl
    cases Mutex.goes_of_jump hj with
    | tryOn hl =>
        have htid : y.tid = (s.mutex m).tid := hl.same (g := Mutex.Data.tid) fun _ _ => rfl
        exact Or.inl (h.fidget (by rw [hl.taken, Bool.or_false]) (fun u hu => by rw [← htid, hu])
          (h0 rfl) (by rw [hst]; rfl) (hlocks _) ⟨hcalm, by simp⟩ (fun _ _ _ hf => by cases hf)
          (by simp))
    | tryTakes hw =>
        have htid : y.tid = (s.mutex m).tid := hw.same (g := Mutex.Data.tid) fun _ _ => rfl
        have hfree : a.owner m = none := by
          cases hw with
          | won hx hy =>
              rw [(h.shared.mutexes m).1] at hx
              exact Option.isNone_iff_eq_none.mp (by simpa using hx)
        refine h.commit _ (h0 rfl) ?_ (h.takes (.ctl yes) (by rw [hw.taken, Bool.or_true])
          htid hfree (h0 rfl) (by rw [hst]; rfl) (hlocks _) ⟨hcalm, by simp⟩ (by simp) (by simp))
        rw [hst, State.atomic, if_pos hfree]
        rfl
    | @tryFails _ p _ hl =>
        have htid : y.tid = (s.mutex m).tid := hl.same (g := Mutex.Data.tid) fun _ _ => rfl
        -- the flag is set, so somebody holds the mutex
        have hheld : a.owner m ≠ none := fun ho => by
          have ht := Mutex.taken_of_tryFails hj
          rw [(h.shared.mutexes m).1, ho] at ht
          cases ht
        have hm : Alone t s (s.setMutex m y) a a :=
          (Alone.refl t s a).setMutex fun u _ hu => by rw [← htid, hu]
        have hctl := ((h.each t).stmt_eq (h0 rfl)).1
        refine h.commit (a.go t (.ctl no)) (h0 rfl) ?_ ?_
        · rw [hst, State.atomic, if_neg hheld]
          rfl
        · refine h.moves ((hm.setPoint _).goes (.ctl no)) ?_ (At.inside ?_ ?_ ?_ (by simp))
          · refine Common.goes ?_ _
            exact
              { data := h.shared.data
                now := h.shared.now
                waiters := h.shared.waiters
                mutexes := h.shared.mutexes.keep (by rw [hl.taken, Bool.or_false]) fun u hu =>
                  (h.shared.mutexes m).2 u (by rw [← htid, hu])
                spins := (hm.setPoint _).spins ((Memory.locks_setPoint ..).trans (hlocks _))
                  h.shared.spins }
          · have hq : ((s.setMutex m y).stmt code t).ahead (.tryLock (.leave false)) =
                some (.ctl no) := by
              rw [show (s.setMutex m y).stmt code t = s.stmt code t from rfl, hst]
              rfl
            rw [hq]
            simp [State.go, Placed]
          · rw [State.go_info, Stmt.settled_of_ne (by simp)]
            exact (h.each t).info.trans (Stmt.settled_of_ne hcalm _)
          · exact fun _ _ _ hf => by cases hf
    | @tryLeave _ r =>
        have hahead : s.ahead code t = some (.ctl (if r then yes else no)) := by
          rw [Memory.ahead, hp, hst]
          rfl
        have hm : Alone t s (s.setMutex m (s.mutex m)) a a :=
          (Alone.refl t s a).setMutex fun u _ hu => hu
        refine Or.inl (h.finish hm ⟨rfl, rfl⟩ ?_ ?_ hahead)
        · rw [(h.each t).info, Stmt.settled_of_ne hcalm]
          rfl
        · refine Common.go h.shared.data h.shared.now h.shared.waiters
            (h.shared.mutexes.keep rfl (h.shared.mutexes m).2) ?_
          refine (hm.go _).spins ?_ h.shared.spins
          rw [Memory.locks_go _ _ rfl, Memory.locks, hp, hst]
          rfl

/-- **`Mutex::unlock`** has its effect when it clears the flag. -/
theorem Refines.unlockStep (h : Refines code s a) (hd : Disciplined code holds)
    (hG : Guarded code holds a) (hst : s.stmt code t = .unlock m next)
    (hs : s.unlockStep t m next (s.point t) = some s') : Follows code t s a s' := by
  cases hp : s.point t <;> rw [hp] at hs <;> simp only [Memory.unlockStep, reduceCtorEq] at hs
  case start =>
    cases hs
    exact Or.inl (h.begins hp (by rw [hst]; rfl) (by rw [hst]; rfl) (by simp) (by simp) (by simp))
  case unlock p =>
    obtain ⟨k, y, hj, rfl⟩ := Memory.mutexStep_jump hs
    have hlocks : ∀ q, (s.stmt code t).locks (.unlock q) = s.locks code t := fun q => by
      rw [Memory.locks, hp, hst]
      rfl
    have hcalm : s.point t ≠ .cleared := by simp [hp]
    have h0 : s.ahead code t = none := by
      rw [Memory.ahead, hp, hst]
      rfl
    have hown : a.owner m = some t :=
      (hG m t).mpr (holding_of_unlock hd (((h.each t).stmt_eq h0).2.trans hst))
    cases Mutex.goes_of_jump hj with
    | unlockTid =>
        refine Or.inl (h.fidget rfl (fun _ hu => by cases hu) h0 (by rw [hst]; rfl) (hlocks _)
          ⟨hcalm, by simp⟩ (fun m' next' hst' _ => ?_) (by simp))
        obtain rfl : m' = m := by
          rw [hst] at hst'
          cases hst'
          rfl
        rw [Memory.setMutex_mutex, Function.update_self]
        simp
    | unlockFlag =>
        -- the mutex names nobody: not this worker, and nobody else
        have hname : ∀ u, (s.mutex m).tid ≠ some u := fun u hu => by
          have hut := (h.shared.mutexes m).2 u hu
          rw [hown] at hut
          cases hut
          exact (h.each t).unnamed m next hst hp hu
        have hm : Alone t s (s.setMutex m (Mutex.flag.set 0#32 (s.mutex m))) a
            (a.setOwner m none) := by
          have hm := (Alone.refl t s a).setMutex (m := m)
            (y := Mutex.flag.set 0#32 (s.mutex m)) fun u _ hu => hu
          exact ⟨hm.ctl, hm.phase, hm.point, hm.info, hm.tid⟩
        refine h.commit ((a.setOwner m none).go t next) h0 (by rw [hst]; rfl) ?_
        refine h.moves ((hm.go next).goes next) (Common.goes ?_ next) (At.go next ?_ ?_)
        · refine Common.go h.shared.data h.shared.now h.shared.waiters ?_ ?_
          · exact h.shared.mutexes.update (Mutex.Flag.taken_set_zero _) fun u hu =>
              absurd hu (hname u)
          · refine (hm.go next).spins ?_ h.shared.spins
            rw [Memory.locks_go _ _ (quiet_of_unlock hst), Memory.locks, hp, hst]
            rfl
        · exact ((h.each t).stmt_eq h0).1
        · exact (h.each t).info.trans (Stmt.settled_of_ne hcalm _)

end

/-! ## `m_waiters_lock` -/

section

variable {v : γ} {next : Place T κ}

section

omit [DecidableEq μ]

theorem Memory.spinStep_tries {p : SpinPoint} (hs : s.spinStep t v p = some s') :
    (∃ q y, s' = (s.setWaitersLock v y).setPoint t (.spin q) ∧
      Mutex.Flag.Tries spinFlag (s.waitersLock v) y false) ∨
    ∃ y, s' = (s.setWaitersLock v y).setPoint t .inside ∧
      Mutex.Flag.Tries spinFlag (s.waitersLock v) y true := by
  rw [spinStep] at hs
  obtain ⟨f, hc⟩ : ∃ f, spinCode (some p) = .act f := by
    cases p
    · exact ⟨_, rfl⟩
    · exact ⟨_, rfl⟩
  rw [hc] at hs
  cases hs
  have hj : Jump spinCode s.now (some p) (s.waitersLock v) _ _ := .act hc
  have hc' : spinCode (some p) = spinFlag.spinLock some none p := rfl
  rcases Mutex.Flag.spinLock_jump hc' hj with ⟨q, hq, hl⟩ | ⟨hq, hw⟩
  · exact Or.inl ⟨q, _, by simp only [hq, Option.elim_some], hl⟩
  · exact Or.inr ⟨_, by simp only [hq, Option.elim_none], hw⟩

/-- **`Spinlock::lock`** returns when the worker has `m_waiters_lock`. -/
theorem Refines.spinStep {p : SpinPoint} (h : Refines code s a) (hp : s.point t = .spin p)
    (ha : ∀ q, (s.stmt code t).ahead (.spin q) = none) (hin : (s.stmt code t).ahead .inside = none)
    (hk : ∀ q, (s.stmt code t).locks (.spin q) = none)
    (hkin : (s.stmt code t).locks .inside = some v) (hs : s.spinStep t v p = some s') :
    Refines code s' a := by
  have h0 : s.ahead code t = none := by
    rw [Memory.ahead, hp]
    exact ha p
  have hfree : s.locks code t = none := by
    rw [Memory.locks, hp]
    exact hk p
  have hcalm : s.point t ≠ .cleared := by simp [hp]
  have hm : ∀ y, Alone t s (s.setWaitersLock v y) a a := fun y =>
    ⟨fun _ _ => ⟨rfl, rfl⟩, fun _ _ => ⟨rfl, rfl⟩, fun _ _ => rfl, fun _ _ => .same rfl rfl,
      fun _ _ _ hu => hu⟩
  rcases Memory.spinStep_tries hs with ⟨q, y, rfl, hl⟩ | ⟨y, rfl, hw⟩
  · refine h.inside (hm y) ⟨rfl, rfl, rfl⟩ ?_ h0 (ha q) ⟨hcalm, by simp⟩
      (fun _ _ _ hf => by cases hf) (by simp)
    refine ⟨h.shared.data, h.shared.now, h.shared.waiters, h.shared.mutexes, ?_⟩
    refine h.shared.spins.keep (fun u => ?_) (by rw [hl.taken, Bool.or_false])
    by_cases hu : u = t
    · rw [hu, Memory.locks_setPoint, hfree]
      exact hk q
    · exact ((hm y).setPoint _).locks hu
  · refine h.inside (hm y) ⟨rfl, rfl, rfl⟩ ?_ h0 hin ⟨hcalm, by simp⟩
      (fun _ _ _ hf => by cases hf) (by simp)
    refine ⟨h.shared.data, h.shared.now, h.shared.waiters, h.shared.mutexes, ?_⟩
    refine h.shared.spins.acquire (t := t) ?_ (fun u hu => ((hm y).setPoint _).locks hu) hfree ?_
      (by rw [hw.taken, Bool.or_true])
    · cases hw with
      | won hx _ => exact hx
    · rw [Memory.locks_setPoint]
      exact hkin

omit [DecidableEq T] [DecidableEq γ] in
theorem Stmt.quiet_of_ahead {st : Stmt T μ γ δ κ} {p : Point} (hq : st.quiet = true)
    (h : st.ahead p = some next) : next.quiet = true := by
  cases st with
  | lock m n =>
      cases p with
      | lock q =>
          cases q <;> cases h
          exact hq
      | _ => cases h
  | tryLock m yes no =>
      cases p with
      | tryLock q =>
          cases q <;> cases h
          rfl
      | _ => cases h
  | guarded v list notified n =>
      cases p <;> cases h
      exact hq
  | setWaitInfo d n =>
      cases p <;> cases h
      exact hq
  | _ => cases p <;> cases h

omit [DecidableEq γ] in
/-- **Who has `m_waiters_lock`** and does not go through the list is alone. -/
theorem Refines.scanner_none (h : Refines code s a) (hL : Listed code a)
    (hk : s.locks code t = some v) (h1 : (s.stmt code t).locks .start = none) :
    a.scanner v = none := by
  by_contra hne
  obtain ⟨u, hu⟩ := Option.ne_none_iff_exists'.mp hne
  obtain ⟨rest, hr⟩ := (hL.scan v u).mp hu
  obtain ⟨k, hc, hph⟩ : ∃ k, code (a.ctl u) = .notifyAll v k ∧ a.phase u = .scanning rest := by
    cases hc : code (a.ctl u) with
    | notifyAll v' k =>
        rw [hc] at hr
        cases hp : a.phase u <;> rw [hp] at hr <;> cases hr
        exact ⟨k, rfl, rfl⟩
    | _ => rw [hc] at hr; cases hr
  -- a worker that goes through the list in `Ums.Monitor` does so here
  have hscan : (code (s.ctl u)).scans (s.phase u) = some (v, rest) := by
    have hp := (h.each u).placed
    cases ha : s.ahead code u with
    | some next =>
        have hquiet := Stmt.quiet_of_ahead (s.stmt_quiet code u) ha
        rw [ha] at hp
        cases next with
        | ctl k' =>
            rw [hp.2] at hph
            cases hph
        | phase p =>
            rw [hp.2] at hph
            rw [hph] at hquiet
            cases hquiet
    | none =>
        rw [ha] at hp
        obtain ⟨hctl, hq⟩ := hp
        rw [← hctl]
        rcases hq with hq | hq
        · rw [← hq, hr]
        · rw [hph] at hq
          cases hsp : s.phase u <;> rw [hsp] at hq <;> cases hq
          rw [hc]
          rfl
  obtain rfl : u = t :=
    h.shared.spins.unique v u t (Cmd.locks_scans hscan u (s.point u)) hk
  rw [Memory.stmt, Cmd.locks_scans hscan u .start] at h1
  cases h1

/-- At `m_waiters`, whoever is notified. -/
theorem Alone.told (t : T) (s : Memory T μ γ δ κ) (a : State T μ γ δ κ) (o : Option T)
    (l : List T) :
    Alone t s ((o.elim s fun u => s.setCond u true).setWaiters v l) a
      ((o.elim a fun u => a.notifyWaiter u).setWaiters v l) := by
  cases o with
  | none =>
      have h := Alone.refl t s a
      exact ⟨h.ctl, h.phase, h.point, h.info, h.tid⟩
  | some u =>
      have h := (Alone.refl t s a).notify u (fun _ _ => rfl) (fun _ _ => rfl)
      exact ⟨h.ctl, h.phase, h.point, h.info, h.tid⟩

omit [DecidableEq γ] in
/-- Who has been notified knows it at both levels. -/
theorem info_told {w : T} (h : a.info t = s.info t) :
    (a.notifyWaiter w).info t = (s.setCond w true).info t := by
  rw [State.notifyWaiter_info, Memory.setCond_info]
  by_cases hw : t = w
  · rw [← hw, Function.update_self, Function.update_self, h]
  · rw [Function.update_of_ne hw, Function.update_of_ne hw, h]

end

/-- **`add_waiter`, `remove_waiter` and `notify_one`** have their effect inside of their scope. -/
theorem Refines.guardedStep {list : List T → List T} {notified : List T → Option T}
    (h : Refines code s a) (hL : Listed code a)
    (hst : s.stmt code t = .guarded v list notified next)
    (hs : s.guardedStep t v list notified next (s.point t) = some s') : Follows code t s a s' := by
  have hquiet : next.quiet = true := by
    have hq := s.stmt_quiet code t
    rwa [hst] at hq
  cases hp : s.point t <;> rw [hp] at hs <;> simp only [Memory.guardedStep, reduceCtorEq] at hs
  case start =>
    cases hs
    exact Or.inl (h.begins hp (by rw [hst]; rfl) (by rw [hst]; rfl) (by simp) (by simp) (by simp))
  case spin p =>
    exact Or.inl (h.spinStep hp (fun _ => by rw [hst]; rfl) (by rw [hst]; rfl)
      (fun _ => by rw [hst]; rfl) (by rw [hst]; rfl) hs)
  case inside =>
    cases hs
    have h0 : s.ahead code t = none := by
      rw [Memory.ahead, hp, hst]
      rfl
    have hk : s.locks code t = some v := by
      rw [Memory.locks, hp, hst]
      rfl
    have hfree := h.scanner_none hL hk (by rw [hst]; rfl)
    have hm := Alone.told (v := v) t s a (notified (s.waiters v)) (list (s.waiters v))
    have hctl := ((h.each t).stmt_eq h0).1
    have hinfo : a.info t = s.info t :=
      (h.each t).info.trans (Stmt.settled_of_ne (by simp [hp]) _)
    refine h.commit ((((notified (s.waiters v)).elim a fun u =>
      a.notifyWaiter u).setWaiters v (list (s.waiters v))).go t next) h0 ?_ ?_
    · rw [hst, State.atomic, if_pos hfree, h.shared.waiters]
    · generalize list (s.waiters v) = l at hm ⊢
      generalize notified (s.waiters v) = o at hm ⊢
      have hlocks : ((((o.elim s fun u => s.setCond u true).setWaiters v l).setPoint t
          .leave).locks code t) = s.locks code t := by
        rw [Memory.locks_setPoint, hk]
        cases o <;> (rw [Memory.stmt] at hst ⊢; exact congrArg (Stmt.locks · .leave) hst)
      have hahead : (((o.elim s fun u => s.setCond u true).setWaiters v l).stmt code t).ahead
          .leave = some next := by
        cases o <;> (rw [Memory.stmt] at hst ⊢; exact congrArg (Stmt.ahead · .leave) hst)
      refine h.moves ((hm.setPoint .leave).goes next) (Common.goes ?_ next) (At.inside ?_ ?_
        (fun _ _ _ hf => by cases hf) (by simp))
      · have hspins := (hm.setPoint .leave).spins hlocks h.shared.spins
        cases o with
        | none =>
            exact ⟨h.shared.data, h.shared.now, by simp [h.shared.waiters], h.shared.mutexes,
              hspins⟩
        | some u =>
            exact ⟨h.shared.data, h.shared.now, by simp [h.shared.waiters], h.shared.mutexes,
              hspins⟩
      · rw [hahead]
        cases o <;> cases next <;> simp [State.go, Placed, hctl]
      · rw [State.go_info, Stmt.settled_of_ne (by simp)]
        cases o with
        | none => exact hinfo
        | some u => exact info_told hinfo
  case leave =>
    cases hs
    have hahead : s.ahead code t = some next := by
      rw [Memory.ahead, hp, hst]
      rfl
    have hm : Alone t s (s.setWaitersLock v 0#32) a a := by
      have hm := Alone.refl t s a
      exact ⟨hm.ctl, hm.phase, hm.point, hm.info, hm.tid⟩
    refine Or.inl (h.finish hm ⟨rfl, rfl⟩ ?_ ?_ hahead)
    · exact (h.each t).info.trans (Stmt.settled_of_ne (by simp [hp]) _)
    · refine Common.go h.shared.data h.shared.now h.shared.waiters h.shared.mutexes ?_
      refine h.shared.spins.release (fun u hu => (hm.go next).locks hu) ?_
        (Memory.locks_go _ _ hquiet)
      rw [Memory.locks, hp, hst]
      rfl

omit [DecidableEq μ] [DecidableEq γ] in
/-- A worker that begins the loop of `notify_all` or is in it executes that command. -/
theorem Memory.notifyAll_of_stmt
    (hst : s.stmt code t = .enter v ∨ ∃ u rest, s.stmt code t = .notify v u rest) :
    ∃ k, code (s.ctl t) = .notifyAll v k := by
  have hs := (code (s.ctl t)).stands t (s.phase t)
  rw [stmt] at hst
  rcases hst with hst | ⟨u, rest, hst⟩ <;> rw [hst] at hs
  · generalize code (s.ctl t) = c at hs
    generalize s.phase t = p at hs
    cases hs with
    | scan => exact ⟨_, rfl⟩
  · generalize code (s.ctl t) = c at hs
    generalize s.phase t = p at hs
    cases hs with
    | scanOne => exact ⟨_, rfl⟩

/-- **`notify_all`** begins its loop with `m_waiters_lock`. -/
theorem Refines.enterStep (h : Refines code s a) (hL : Listed code a)
    (hst : s.stmt code t = .enter v) (hs : s.enterStep t v (s.point t) = some s') :
    Follows code t s a s' := by
  cases hp : s.point t <;> rw [hp] at hs <;> simp only [Memory.enterStep, reduceCtorEq] at hs
  case start =>
    cases hs
    exact Or.inl (h.begins hp (by rw [hst]; rfl) (by rw [hst]; rfl) (by simp) (by simp) (by simp))
  case spin p =>
    exact Or.inl (h.spinStep hp (fun _ => by rw [hst]; rfl) (by rw [hst]; rfl)
      (fun _ => by rw [hst]; rfl) (by rw [hst]; rfl) hs)
  case inside =>
    cases hs
    have h0 : s.ahead code t = none := by
      rw [Memory.ahead, hp, hst]
      rfl
    have hk : s.locks code t = some v := by
      rw [Memory.locks, hp, hst]
      rfl
    have hfree := h.scanner_none hL hk (by rw [hst]; rfl)
    -- what comes next is the loop, in which it keeps the lock
    have hloop : ∀ l, (s.go t (.phase (.scanning l))).locks code t = some v := fun l => by
      obtain ⟨k, hc⟩ := Memory.notifyAll_of_stmt (Or.inl hst)
      rw [Memory.locks, Memory.stmt]
      refine Cmd.locks_scans (?_ : _ = some (v, l)) t _
      simp [Memory.go, hc, Cmd.scans]
    have hm : Alone t s s a (a.setScanner v (some t)) := by
      have hm := Alone.refl t s a
      exact ⟨hm.ctl, hm.phase, hm.point, hm.info, hm.tid⟩
    refine h.commit ((a.setScanner v (some t)).go t (.phase (.scanning (s.waiters v)))) h0
      ?_ ?_
    · rw [hst, State.atomic, if_pos hfree, h.shared.waiters]
      rfl
    · refine h.moves ((hm.go _).goes _) (Common.goes ?_ _) (At.go _ ?_ ?_)
      · exact Common.go h.shared.data h.shared.now h.shared.waiters h.shared.mutexes
          ((hm.go _).spins ((hloop _).trans hk.symm) h.shared.spins)
      · exact ((h.each t).stmt_eq h0).1
      · exact (h.each t).info.trans (Stmt.settled_of_ne (by simp [hp]) _)

/-- **A waiter is notified** in the loop. -/
theorem Refines.notifyStep {w : T} {rest : List T} (h : Refines code s a)
    (hst : s.stmt code t = .notify v w rest) :
    Follows code t s a ((s.setCond w true).go t (.phase (.scanning rest))) := by
  obtain ⟨h0, hinfo⟩ := (h.each t).plain hst (fun p => by cases p <;> rfl)
    (fun p _ => by cases p <;> rfl)
  have hk : s.locks code t = some v := by
    rw [Memory.locks, hst]
    cases s.point t <;> rfl
  obtain ⟨k, hc⟩ := Memory.notifyAll_of_stmt (Or.inr ⟨w, rest, hst⟩)
  have hm := (Alone.refl t s a).notify w (fun _ _ => rfl) (fun _ _ => rfl)
  refine h.commit ((a.notifyWaiter w).go t (.phase (.scanning rest))) h0
    (by rw [hst]; rfl) ?_
  refine h.moves ((hm.go _).goes _) (Common.goes ?_ _) (At.go _ ((h.each t).stmt_eq h0).1
    (info_told hinfo))
  refine Common.go h.shared.data h.shared.now h.shared.waiters h.shared.mutexes
    ((hm.go _).spins ?_ h.shared.spins)
  rw [hk, Memory.locks, Memory.stmt]
  refine Cmd.locks_scans (?_ : _ = some (v, rest)) t _
  simp [Memory.go, hc, Cmd.scans]

/-- **The loop ends** with `m_waiters_lock` unlocked. -/
theorem Refines.exitStep {k : κ} (h : Refines code s a) (hst : s.stmt code t = .exit v k) :
    Follows code t s a ((s.setWaitersLock v 0#32).go t (.ctl k)) := by
  obtain ⟨h0, hinfo⟩ := (h.each t).plain hst (fun p => by cases p <;> rfl)
    (fun p _ => by cases p <;> rfl)
  have hk : s.locks code t = some v := by
    rw [Memory.locks, hst]
    cases s.point t <;> rfl
  have hm : Alone t s (s.setWaitersLock v 0#32) a (a.setScanner v none) := by
    have hm := Alone.refl t s a
    exact ⟨hm.ctl, hm.phase, hm.point, hm.info, hm.tid⟩
  refine h.commit ((a.setScanner v none).go t (.ctl k)) h0 (by rw [hst]; rfl) ?_
  refine h.moves ((hm.go _).goes _) (Common.goes ?_ _) (At.go _ ((h.each t).stmt_eq h0).1 hinfo)
  exact Common.go h.shared.data h.shared.now h.shared.waiters h.shared.mutexes
    (h.shared.spins.release (fun u hu => (hm.go _).locks hu) hk (Memory.locks_go _ _ rfl))

end

/-! ## `m_wait_info` -/

/-- **`set_wait_info`** has its effect when it clears the condition. -/
theorem Refines.setWaitInfoStep {d : Time} {p : Phase T} (h : Refines code s a)
    (hst : s.stmt code t = .setWaitInfo d p)
    (hs : s.setWaitInfoStep t d p (s.point t) = some s') : Follows code t s a s' := by
  have hquiet : (Place.phase p : Place T κ).quiet = true := by
    have hq := s.stmt_quiet code t
    rwa [hst] at hq
  cases hp : s.point t <;> rw [hp] at hs <;>
    simp only [Memory.setWaitInfoStep, reduceCtorEq] at hs
  case start =>
    cases hs
    have h0 : s.ahead code t = none := by
      rw [Memory.ahead, hp, Stmt.ahead_start]
    have hctl := ((h.each t).stmt_eq h0).1
    have hm : Alone t s (s.setCond t false) a (a.setWaitInfo t false d) :=
      (Alone.refl t s a).setInfo
    refine h.commit ((a.setWaitInfo t false d).go t (.phase p)) h0 (by rw [hst]; rfl) ?_
    refine h.moves ((hm.setPoint .cleared).goes _) (Common.goes ?_ _) (At.inside ?_ ?_
      (fun _ _ _ hf => by cases hf) (by simp))
    · refine ⟨h.shared.data, h.shared.now, h.shared.waiters, h.shared.mutexes, ?_⟩
      refine (hm.setPoint .cleared).spins ?_ h.shared.spins
      rw [Memory.locks_setPoint, show (s.setCond t false).stmt code t = s.stmt code t from rfl,
        Memory.locks, hp, hst]
      rfl
    · rw [show (s.setCond t false).stmt code t = s.stmt code t from rfl, hst]
      simp [Stmt.ahead, State.go, Placed, hctl]
    · rw [show (s.setCond t false).stmt code t = s.stmt code t from rfl, hst]
      simp [Stmt.settled]
  case cleared =>
    cases hs
    have hahead : s.ahead code t = some (.phase p) := by
      rw [Memory.ahead, hp, hst]
      rfl
    have hm : Alone t s (s.setSleep t d) a a := by
      have hm := (Alone.refl t s a).setInfo (w := { s.info t with sleepTimePoint := d })
        (b := a.info t)
      rw [Function.update_eq_self] at hm
      exact hm
    refine Or.inl (h.finish hm ⟨rfl, rfl⟩ ?_ ?_ hahead)
    · rw [(h.each t).info, hst, hp, Memory.setSleep_info, Function.update_self]
      rfl
    · refine Common.go h.shared.data h.shared.now h.shared.waiters h.shared.mutexes ?_
      refine (hm.go _).spins ?_ h.shared.spins
      rw [Memory.locks_go _ _ hquiet, Memory.locks, hp, hst]
      rfl

omit [DecidableEq μ] [DecidableEq γ] in
/-- A worker goes on after a statement that changes nothing. -/
theorem Refines.passes {next : Place T κ} (h : Refines code s a) (h0 : s.ahead code t = none)
    (hk : s.locks code t = none) (hc : s.point t ≠ .cleared) (hq : next.quiet = true) :
    Refines code (s.go t next) (a.go t next) := by
  have hm := Alone.refl t s a
  refine h.moves ((hm.go next).goes next) (Common.goes ?_ next) (At.go next ?_ ?_)
  · exact Common.go h.shared.data h.shared.now h.shared.waiters h.shared.mutexes
      ((hm.go next).spins ((Memory.locks_go _ _ hq).trans hk.symm) h.shared.spins)
  · exact ((h.each t).stmt_eq h0).1
  · exact (h.each t).info.trans (Stmt.settled_of_ne hc _)

/-- **`check_wait_info`** has its effect when it finds one of its two conditions true. -/
theorem Refines.checkStep {yes : Place T κ} {no : Phase T} (h : Refines code s a)
    (hst : s.stmt code t = .check yes no)
    (hs : s.checkStep t yes no (s.point t) = some s') : Follows code t s a s' := by
  have hquiet := s.stmt_quiet code t
  rw [hst, Stmt.quiet, Bool.and_eq_true] at hquiet
  obtain ⟨h0, hinfo⟩ := (h.each t).plain hst (fun p => by cases p <;> rfl)
    (fun p _ => by cases p <;> rfl)
  have hk : s.locks code t = none := by
    rw [Memory.locks, hst]
    cases s.point t <;> rfl
  -- where one of the conditions is true, both levels go on
  have hyes : s.point t ≠ .cleared → checkWaitInfo (s.info t) s.now = true →
      Follows code t s a (s.go t yes) := fun hp hw => by
    refine h.commit _ h0 ?_ (h.passes h0 hk hp hquiet.1)
    rw [hst, State.atomic, hinfo, h.shared.now, if_pos hw]
  cases hp : s.point t <;> rw [hp] at hs <;> simp only [Memory.checkStep, reduceCtorEq] at hs
  case start =>
    cases hs
    by_cases hw : (s.info t).cond = true
    · rw [if_pos hw]
      exact hyes (by simp [hp]) (by rw [checkWaitInfo, hw, Bool.true_or])
    · rw [if_neg hw]
      exact Or.inl (h.begins hp (by rw [hst]; rfl) (by rw [hst]; rfl) (by simp) (by simp)
        (by simp))
  case checked =>
    cases hs
    have hcalm : s.point t ≠ .cleared := by simp [hp]
    by_cases hn : s.now ≥ (s.info t).sleepTimePoint
    · rw [if_pos hn]
      exact hyes hcalm (by rw [checkWaitInfo, decide_eq_true hn, Bool.or_true])
    · rw [if_neg hn]
      by_cases hpark : checkWaitInfo (a.info t) a.now = false ∧ a.phase t ≠ no
      · refine h.commit _ h0 ?_ (h.passes h0 hk hcalm hquiet.2)
        rw [hst, State.atomic, hpark.1, if_neg (by simp), if_neg hpark.2]
        rfl
      · -- it has been notified after all, or it is parked already
        refine Or.inl (h.moves ((Alone.refl t s a).go _) ?_ ?_)
        · exact Common.go h.shared.data h.shared.now h.shared.waiters h.shared.mutexes
            (((Alone.refl t s a).go _).spins ((Memory.locks_go _ _ hquiet.2).trans hk.symm)
              h.shared.spins)
        · have hplaced := (h.each t).placed
          rw [h0] at hplaced
          obtain ⟨hpa, hpq⟩ := Cmd.awake_check (hst : (code (s.ctl t)).stmt t (s.phase t) = _)
          have hphase : a.phase t = no ∨ a.phase t = no.awake := by
            rcases hplaced.2 with hq | hq
            · rw [hq]
              exact hpq
            · rw [hq, hpa]
              exact Or.inr rfl
          refine ⟨?_, ?_, fun m' next' _ hf => ?_, ?_⟩
          · rw [Memory.ahead, Memory.go_point_self, Stmt.ahead_start]
            simp only [Memory.go, Function.update_self]
            exact ⟨hplaced.1, hphase⟩
          · rw [Memory.go_point_self, Stmt.settled_of_ne (by simp), Memory.go_info, hinfo]
          · rw [Memory.go_point_self] at hf
            cases hf
          · rw [Memory.go_point_self]
            simp

/-! ## Runs -/

/-- What a run shows: what the callers decide, that time passes, and the looks at the data. -/
inductive Sight (T δ κ : Type) where
  | choose (t : T) (k : κ)
  | look (t : T) (c : κ) (now : Time) (x : δ)
  | tick (d : Nat)

/-- What a step shows. -/
def sights (code : κ → Cmd μ γ δ κ) (ctl : T → κ) (now : Time) (x : δ) :
    Event T κ → List (Sight T δ κ)
  | .step t =>
    match code (ctl t) with
    | .act _ => [.look t (ctl t) now x]
    | _ => []
  | .choose t k => [.choose t k]
  | .tick d => [.tick d]

omit [DecidableEq T] [DecidableEq μ] [DecidableEq γ] in
theorem sights_step {ctl : T → κ} {now : Time} {x : δ} (h : ∀ f, code (ctl t) ≠ .act f) :
    sights code ctl now x (.step t) = [] := by
  cases hc : code (ctl t) <;> first | exact absurd hc (h _) | simp only [sights, hc]

variable {holds : κ → μ → Bool} {ctl : T → κ} {data : δ}

/-- **An access follows** the statements, unless it is a look at the data. -/
theorem Refines.stmtStep (h : Refines code s a) (hd : Disciplined code holds)
    (hl : NoRelock code holds) (hG : Guarded code holds a) (hL : Listed code a)
    (hact : ∀ f, code (s.ctl t) ≠ .act f) (hs : s.stmtStep t (s.stmt code t) = some s') :
    Follows code t s a s' := by
  cases hst : s.stmt code t <;> rw [hst] at hs <;> simp only [Memory.stmtStep, reduceCtorEq] at hs
  case act f =>
    have hv := (code (s.ctl t)).stands t (s.phase t)
    rw [← Memory.stmt, hst] at hv
    generalize hc : code (s.ctl t) = c at hv
    generalize s.phase t = p at hv
    cases hv with
    | act => exact absurd hc (hact f)
  case lock m next => exact h.lockStep hd hl hG hst hs
  case tryLock m yes no => exact h.tryLockStep hst hs
  case unlock m next => exact h.unlockStep hd hG hst hs
  case guarded v list notified next => exact h.guardedStep hL hst hs
  case enter v => exact h.enterStep hL hst hs
  case notify v u rest =>
    cases hs
    exact h.notifyStep hst
  case exit v k =>
    cases hs
    exact h.exitStep hst
  case setWaitInfo d p => exact h.setWaitInfoStep hst hs
  case check yes no => exact h.checkStep hst hs

omit [DecidableEq μ] [DecidableEq γ] in
/-- A worker goes on with other data, and nothing is locked or unlocked. -/
theorem Refines.acts {k : κ} (h : Refines code s a) (h0 : s.ahead code t = none)
    (hk : s.locks code t = none) (hi : a.info t = s.info t) (x : δ) :
    Refines code ({ s with data := x }.go t (.ctl k)) ({ a with data := x }.go t (.ctl k)) := by
  have hm : Alone t s { s with data := x } a { a with data := x } := by
    have hm := Alone.refl t s a
    exact ⟨hm.ctl, hm.phase, hm.point, hm.info, hm.tid⟩
  refine h.moves ((hm.go _).goes _) (Common.goes ?_ _) (At.go _ ((h.each t).stmt_eq h0).1 hi)
  exact Common.go rfl h.shared.now h.shared.waiters h.shared.mutexes
    ((hm.go _).spins ((Memory.locks_go _ _ rfl).trans hk.symm) h.shared.spins)

/-- **The accesses of a program simulate its statements.** -/
theorem simulates (data : δ) (hd : Disciplined code holds) (hl : NoRelock code holds)
    (h0 : ∀ t m, holds (ctl t) m = false) :
    Lib.Simulates (Memory.machine code ctl data) (fun _ _ => True) (machine code ctl data)
      (Refines code) (fun s => sights code s.ctl s.now s.data)
      (fun a => sights code a.ctl a.now a.data) where
  init := by
    rintro s ⟨now, rfl⟩
    refine ⟨.start ctl data now, ⟨now, rfl⟩, ⟨rfl, rfl, rfl, fun m => ⟨rfl, ?_⟩, ?_⟩, fun t => ?_⟩
    · intro t ht
      cases ht
    · have hnone : ∀ t, (Memory.start ctl data now : Memory T μ γ δ κ).locks code t = none :=
        fun t => Cmd.locks_start rfl t
      refine ⟨fun v => ⟨fun hv => absurd hv Bool.false_ne_true, ?_⟩, fun v t u ht => ?_⟩
      · rintro ⟨t, ht⟩
        rw [hnone] at ht
        cases ht
      · rw [hnone] at ht
        cases ht
    · refine ⟨?_, ?_, ?_, ?_⟩
      · rw [Memory.ahead, show (Memory.start ctl data now : Memory T μ γ δ κ).point t = .start
          from rfl, Stmt.ahead_start]
        exact ⟨rfl, Or.inl rfl⟩
      · exact (Stmt.settled_of_ne (by simp [Memory.start]) _).symm
      · intro m next _ hp
        cases hp
      · simp [Memory.start]
  step := by
    rintro s a e s' - ha h - hs
    have hG : Guarded code holds a := guarded_reachable hd h0 ha
    have hL : Listed code a := listed_reachable ha
    cases e with
    | tick d =>
        cases hs
        refine ⟨[.tick d], { a with now := a.now + d }, rfl, rfl, ?_, fun t => ?_⟩
        · exact ⟨h.shared.data, by rw [h.shared.now], h.shared.waiters, h.shared.mutexes,
            h.shared.spins⟩
        · exact ⟨(h.each t).placed, (h.each t).info, (h.each t).unnamed, (h.each t).calm⟩
    | choose t k =>
        change s.next code (.choose t k) = some s' at hs
        simp only [Memory.next] at hs
        split at hs
        · rename_i ok hc
          split at hs
          · rename_i hk
            cases hs
            have hst : s.stmt code t = .nothing := by
              rw [Memory.stmt, hc]
              rfl
            obtain ⟨hah, hin⟩ := (h.each t).plain hst (fun p => by cases p <;> rfl)
              (fun p _ => by cases p <;> rfl)
            have hlk : s.locks code t = none := by
              rw [Memory.locks, hst]
              cases s.point t <;> rfl
            have hnext : next code a (.choose t k) = some (a.goto t k) :=
              next_call (by rw [((h.each t).stmt_eq hah).1, hc]) hk
            refine ⟨[.choose t k], a.goto t k, ?_, ?_, ?_⟩
            · rw [Lib.Machine.run_singleton]
              exact hnext
            · rw [Lib.Machine.log_singleton hnext]
              rfl
            · have hr := h.acts (k := k) hah hlk hin s.data
              rw [show ({ a with data := s.data } : State T μ γ δ κ) = a from by
                rw [← h.shared.data]] at hr
              exact hr
          · cases hs
        · cases hs
    | step t =>
        by_cases hact : ∃ f, code (s.ctl t) = .act f
        · obtain ⟨f, hc⟩ := hact
          have hst : s.stmt code t = .act f := by
            rw [Memory.stmt, hc]
            rfl
          obtain ⟨hah, hin⟩ := (h.each t).plain hst (fun p => by cases p <;> rfl)
            (fun p _ => by cases p <;> rfl)
          have hlk : s.locks code t = none := by
            rw [Memory.locks, hst]
            cases s.point t <;> rfl
          have hctl := ((h.each t).stmt_eq hah).1
          have hs' : s.stmtStep t (s.stmt code t) = some s' := hs
          rw [hst] at hs'
          cases hs'
          have hnext : next code a (.step t) =
              some ({ a with data := (f s.now s.data).1 }.goto t (f s.now s.data).2) :=
            next_act (by rw [hctl, hc]) (by rw [h.shared.now, h.shared.data])
          refine ⟨[.step t], _, ?_, ?_, h.acts hah hlk hin _⟩
          · rw [Lib.Machine.run_singleton]
            exact hnext
          · rw [Lib.Machine.log_singleton hnext, h.shared.now, h.shared.data]
            simp only [sights, hctl]
        · have hact : ∀ f, code (s.ctl t) ≠ .act f := fun f hc => hact ⟨f, hc⟩
          rcases h.stmtStep hd hl hG hL hact hs with hr | ⟨a', hnext, hctl, hr⟩
          · exact ⟨[], a, rfl, (sights_step hact).symm, hr⟩
          · refine ⟨[.step t], a', ?_, ?_, hr⟩
            · rw [Lib.Machine.run_singleton]
              exact hnext
            · rw [Lib.Machine.log_singleton hnext, sights_step hact,
                sights_step (by rw [hctl]; exact hact)]

/--
**One access at a time is one statement at a time.** A run of accesses shows what a run of
`Ums.Monitor` shows, and ends with the same data, clock and lists of waiters, with the flag
of a mutex set exactly while somebody holds it, and with the workers between two statements
where they are there. No `Mutex::lock` throws.
-/
theorem accesses_refine_statements (hd : Disciplined code holds) (hl : NoRelock code holds)
    (h0 : ∀ t m, holds (ctl t) m = false) {s₀ : Memory T μ γ δ κ} {es : List (Event T κ)}
    (hi : (Memory.machine code ctl data).init s₀)
    (hr : (Memory.machine code ctl data).run s₀ es = some s) :
    ∃ a₀ fs a, (machine code ctl data).init a₀ ∧ (machine code ctl data).run a₀ fs = some a ∧
      (machine code ctl data).log (fun a => sights code a.ctl a.now a.data) a₀ fs =
        (Memory.machine code ctl data).log (fun s => sights code s.ctl s.now s.data) s₀ es ∧
      a.data = s.data ∧ a.now = s.now ∧ a.waiters = s.waiters ∧
      (∀ m, Mutex.flag.taken (s.mutex m) = (a.owner m).isSome) ∧
      (∀ t, s.point t = .start → a.ctl t = s.ctl t) ∧ ∀ t, s.point t ≠ .lock .threw := by
  have hsim := simulates data hd hl h0
  obtain ⟨a₀, ha₀, hR₀⟩ := hsim.init s₀ hi
  obtain ⟨fs, a, hrun, hlog, hR⟩ := hsim.run es (.init hi) (.init ha₀) hR₀
    (Lib.Machine.meets_true ..) hr
  refine ⟨a₀, fs, a, ha₀, hrun, hlog, hR.shared.data, hR.shared.now, hR.shared.waiters,
    fun m => (hR.shared.mutexes m).1, fun t ht => ?_, fun t => (hR.each t).calm⟩
  refine ((hR.each t).stmt_eq ?_).1
  rw [Memory.ahead, ht, Stmt.ahead_start]

theorem Client.noRelock {D : Type} : NoRelock (Client.code (D := D)) Client.holds := by
  intro c m k hc
  cases c with
  | acquire n => rfl
  | await pred d n a => cases a <;> cases hc
  | _ => cases hc

/-- One worker waits for a change, another one makes it and notifies it. -/
theorem accesses_refine_statements_run :
    ∃ s a, (Memory.machine (T := Fin 2) Client.code (fun _ => .free 0)
        ({ value := 0 } : Shared Nat)).Reachable s ∧
      (Client.machine (Fin 2) 0).Reachable a ∧ a.data.value = 1 ∧ a.waiters () = [0] ∧
      s.point 0 = .start ∧ a.ctl 0 = s.ctl 0 ∧ ∀ t, s.point t ≠ .lock .threw := by
  have hi : (Memory.machine (T := Fin 2) Client.code (fun _ => .free 0)
      ({ value := 0 } : Shared Nat)).init (.start (fun _ => .free 0) { value := 0 } 0) := ⟨0, rfl⟩
  obtain ⟨s, hr, hp⟩ := Lib.Machine.exists_run (M := Memory.machine (T := Fin 2) Client.code
      (fun _ => .free 0) ({ value := 0 } : Shared Nat))
    (fun s => decide (s.data.value = 1 ∧ s.waiters () = [0] ∧ s.point 0 = .start))
    (.start (fun _ => .free 0) { value := 0 } 0)
    (List.flatten [
      [.choose 0 (.acquire 0)], List.replicate 5 (.step 0),
      [.choose 0 (.plainWait Time.max 0)], List.replicate 12 (.step 0),
      [.choose 1 (.acquire 0)], List.replicate 5 (.step 1),
      [.choose 1 (.change 1 0)], [.step 1],
      [.choose 1 (.notifyAll true 1)], List.replicate 6 (.step 1)])
    (by decide +kernel)
  obtain ⟨hv, hw, hpt⟩ := of_decide_eq_true hp
  obtain ⟨a₀, fs, a, ha₀, hrun, -, hdata, -, hwaiters, -, hctl, hcalm⟩ :=
    accesses_refine_statements Client.disciplined Client.noRelock (fun _ _ => rfl) hi hr
  refine ⟨s, a, Lib.Machine.reachable_of_run (.init hi) _ hr,
    Lib.Machine.reachable_of_run (.init ha₀) _ hrun, ?_, ?_, hpt, hctl 0 hpt, hcalm⟩
  · rw [hdata, hv]
  · rw [hwaiters, hw]

/-! ## Invariants -/

/-- Only looks at the data and decisions of callers change `g`. -/
def Carries {α : Type} (code : κ → Cmd μ γ δ κ) (g : κ → α) : Prop :=
  ∀ now c x k y, Jump code now c x k y → (∀ ok, code c ≠ .choose ok) →
    (∀ f, code c ≠ .act f) → g k = g c

omit [DecidableEq μ] [DecidableEq γ] in
/-- A worker that is ahead carries the same along. -/
theorem At.carries {α : Type} {g : κ → α} (hg : Carries code g) (h : At code s a t) :
    g (a.ctl t) = g (s.ctl t) := by
  have hp := h.placed
  cases ha : s.ahead code t with
  | none =>
      rw [ha] at hp
      rw [hp.1]
  | some next =>
      rw [ha] at hp
      cases next with
      | phase p => rw [hp.1]
      | ctl k =>
          have hs := (code (s.ctl t)).stands t (s.phase t)
          rw [Memory.ahead, Memory.stmt] at ha
          rw [hp.1]
          generalize hc : code (s.ctl t) = c at hs ha
          generalize s.phase t = p at hs ha
          generalize c.stmt t p = st at hs ha
          generalize s.point t = q at ha
          -- the statements that leave the command once they have had their effect
          cases hs with
          | lock =>
              cases q with
              | lock r =>
                  cases r <;> cases ha
                  exact hg 0 _ s.data _ s.data (.lock hc) (by simp [hc]) (by simp [hc])
              | _ => cases ha
          | relock =>
              cases q with
              | lock r => cases r <;> cases ha
              | _ => cases ha
          | tryLock =>
              cases q with
              | tryLock r =>
                  cases r with
                  | spin r => cases ha
                  | leave r =>
                      cases ha
                      cases r
                      · exact hg 0 _ s.data _ s.data (.tryNo hc) (by simp [hc]) (by simp [hc])
                      · exact hg 0 _ s.data _ s.data (.tryYes hc) (by simp [hc]) (by simp [hc])
              | _ => cases ha
          | unlink =>
              cases q <;> cases ha
              exact hg 0 _ s.data _ s.data (.wait hc) (by simp [hc]) (by simp [hc])
          | notifyOne =>
              cases q <;> cases ha
              exact hg 0 _ s.data _ s.data (.notifyOne hc) (by simp [hc]) (by simp [hc])
          | _ => cases q <;> cases ha

/-- **What holds of the statements holds of the accesses**, if it is about the data and what the
workers carry along. -/
theorem Memory.invariant {α : Type} {g : κ → α} {P : (T → α) → δ → Prop}
    (hd : Disciplined code holds) (hl : NoRelock code holds)
    (h0 : ∀ t m, holds (ctl t) m = false) (hg : Carries code g)
    (hP : ∀ a, (Monitor.machine code ctl data).Reachable a → P (fun t => g (a.ctl t)) a.data)
    (hs : (Memory.machine code ctl data).Reachable s) : P (fun t => g (s.ctl t)) s.data := by
  obtain ⟨a, ha, hR⟩ := (simulates data hd hl h0).reach hs
  have hc : (fun t => g (a.ctl t)) = fun t => g (s.ctl t) :=
    funext fun t => (hR.each t).carries hg
  rw [← hc, ← hR.shared.data]
  exact hP a ha

/-- **No `Mutex::lock` throws.** -/
theorem Memory.calm (hd : Disciplined code holds) (hl : NoRelock code holds)
    (h0 : ∀ t m, holds (ctl t) m = false) (hs : (Memory.machine code ctl data).Reachable s)
    (t : T) : s.point t ≠ .lock .threw := by
  obtain ⟨a, -, hR⟩ := (simulates data hd hl h0).reach hs
  exact (hR.each t).calm

end Ums.Monitor
