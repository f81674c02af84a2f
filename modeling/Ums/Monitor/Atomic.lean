import Ums.Monitor.Access

/-!
# What the accesses amount to

A step of `Ums.Monitor` is a statement in one piece (`cmdStep_eq_atomic`). `Refines` relates
the workers that do one access at a time to workers that do one statement at a time.

A statement has its effect at one of its accesses: `lock` and `try_lock` at the exchange
that sets the flag, `unlock` where it clears it, what is done with `m_waiters_lock` anywhere
between the two, and `set_wait_info` at `clear_cond`. A worker that has had the effect and
not yet finished is ahead in `Ums.Monitor`.
-/

namespace Ums.Monitor

open Mutex (SpinPoint LockPoint TryPoint UnlockPoint)

variable {T μ γ δ κ : Type} [DecidableEq T] [DecidableEq μ] [DecidableEq γ]
  {code : κ → Cmd μ γ δ κ} {s s' : Memory T μ γ δ κ} {a : State T μ γ δ κ} {t u : T}

/-! ## A statement in one piece -/

namespace State

/-- Continue a worker after a statement. -/
def go (a : State T μ γ δ κ) (t : T) : Place T κ → State T μ γ δ κ
  | .ctl k => a.goto t k
  | .phase p => a.setPhase t p

/-- The statement that a worker is at. -/
def stmt (code : κ → Cmd μ γ δ κ) (a : State T μ γ δ κ) (t : T) : Stmt T μ γ δ κ :=
  (code (a.ctl t)).stmt t (a.phase t)

/-- A statement in one piece. -/
def atomic (a : State T μ γ δ κ) (t : T) : Stmt T μ γ δ κ → Option (State T μ γ δ κ)
  | .nothing => none
  | .act f => some ({ a with data := (f a.now a.data).1 }.goto t (f a.now a.data).2)
  | .lock m next =>
    if a.owner m = none then some ((a.setOwner m (some t)).go t next) else none
  | .tryLock m yes no =>
    if a.owner m = none then some ((a.setOwner m (some t)).goto t yes) else some (a.goto t no)
  | .unlock m next => some ((a.setOwner m none).go t next)
  | .guarded v list notified next =>
    if a.scanner v = none then
      let told := (notified (a.waiters v)).elim a fun u => a.notifyWaiter u
      some ((told.setWaiters v (list (a.waiters v))).go t next)
    else none
  | .enter v =>
    if a.scanner v = none then
      some ((a.setScanner v (some t)).setPhase t (.scanning (a.waiters v)))
    else none
  | .notify _ u rest => some ((a.notifyWaiter u).setPhase t (.scanning rest))
  | .exit v k => some ((a.setScanner v none).goto t k)
  | .setWaitInfo d next => some ((a.setWaitInfo t false d).setPhase t next)
  | .check yes no =>
    if checkWaitInfo (a.info t) a.now then some (a.go t yes)
    else if a.phase t = no then none
    else some (a.setPhase t no)

end State

/-- **A step of `Ums.Monitor` is a statement in one piece.** -/
theorem cmdStep_eq_atomic (a : State T μ γ δ κ) (t : T) (c : Cmd μ γ δ κ) :
    cmdStep a t c = a.atomic t (c.stmt t (a.phase t)) := by
  cases c with
  | wait v m d k =>
      cases hp : a.phase t <;>
        simp only [cmdStep, waitStep, hp, Cmd.stmt, State.atomic, State.go, reduceCtorEq,
          Option.elim_none, if_false, if_true]
      case released => split <;> rfl
  | sleep d k =>
      cases hp : a.phase t <;>
        simp only [cmdStep, sleepStep, hp, Cmd.stmt, State.atomic, State.go, reduceCtorEq,
          if_false, if_true]
  | notifyOne v k =>
      -- the list stays as it is
      have hself : ∀ {b : State T μ γ δ κ}, b.waiters = a.waiters →
          b.setWaiters v (a.waiters v) = b := fun hb => by
        rw [← hb, State.setWaiters, Function.update_eq_self]
      simp only [cmdStep, Cmd.stmt, State.atomic, State.go, id_eq]
      cases hw : a.waiters v with
      | nil =>
          rw [hw] at hself
          rw [List.head?_nil, Option.elim_none, hself rfl]
      | cons u l =>
          rw [hw] at hself
          rw [List.head?_cons, Option.elim_some, hself (State.notifyWaiter_waiters ..)]
  | notifyAll v k =>
      cases hp : a.phase t with
      | scanning rest => cases rest <;> simp [cmdStep, notifyAllStep, hp, Cmd.stmt, State.atomic]
      | _ => simp [cmdStep, notifyAllStep, hp, Cmd.stmt, State.atomic]
  | _ => rfl

theorem next_eq_atomic (a : State T μ γ δ κ) (t : T) :
    next code a (.step t) = a.atomic t (a.stmt code t) :=
  cmdStep_eq_atomic a t _

/-! ## Who is ahead, and who has `m_waiters_lock` -/

/-- Where the worker goes on once it has done what is left of a statement that has had its
effect. -/
def Stmt.ahead : Stmt T μ γ δ κ → Point → Option (Place T κ)
  | .lock _ next, .lock .tidStore => some next
  | .tryLock _ yes no, .tryLock (.leave result) => some (.ctl (if result then yes else no))
  | .guarded _ _ _ next, .leave => some next
  | .setWaitInfo _ p, .cleared => some (.phase p)
  | _, _ => none

/-- The condition variable whose `m_waiters_lock` the worker has. -/
def Stmt.locks : Stmt T μ γ δ κ → Point → Option γ
  | .guarded v .., .inside | .guarded v .., .leave | .enter v, .inside => some v
  | .notify v .., _ | .exit v _, _ => some v
  | _, _ => none

/-- `m_wait_info` once `set_wait_info` is done. -/
def Stmt.settled : Stmt T μ γ δ κ → Point → WaitInfo → WaitInfo
  | .setWaitInfo d _, .cleared, w => { w with sleepTimePoint := d }
  | _, _, w => w

/-- A worker that is parked tests what it has tested before. -/
def Phase.awake : Phase T → Phase T
  | .parked => .released
  | .asleep => .dozing
  | p => p

/-- Not in the loop of `notify_all`. -/
def Place.quiet : Place T κ → Bool
  | .phase (.scanning _) => false
  | _ => true

/-- Whatever the statement is, it leads out of the loop of `notify_all`, or it is part of it. -/
def Stmt.quiet : Stmt T μ γ δ κ → Bool
  | .lock _ next | .unlock _ next | .guarded _ _ _ next => next.quiet
  | .setWaitInfo _ p => (Place.phase p : Place T κ).quiet
  | .check yes no => yes.quiet && (Place.phase no : Place T κ).quiet
  | _ => true

section

omit [DecidableEq T] [DecidableEq μ] [DecidableEq γ]

@[simp] theorem Stmt.ahead_start (st : Stmt T μ γ δ κ) : st.ahead .start = none := by
  cases st <;> rfl

theorem Stmt.settled_of_ne {st : Stmt T μ γ δ κ} {p : Point} (h : p ≠ .cleared) (w : WaitInfo) :
    st.settled p w = w := by
  cases st <;> cases p <;> first | rfl | exact absurd rfl h

/-- A notification does not depend on the rest. -/
theorem Stmt.settled_cond (st : Stmt T μ γ δ κ) (p : Point) (w : WaitInfo) :
    st.settled p { w with cond := true } = { st.settled p w with cond := true } := by
  cases st <;> cases p <;> rfl

@[simp] theorem Phase.awake_awake (p : Phase T) : p.awake.awake = p.awake := by
  cases p <;> rfl

end

section

omit [DecidableEq μ] [DecidableEq γ]

@[simp] theorem Cmd.stmt_awake (c : Cmd μ γ δ κ) (t : T) (p : Phase T) :
    c.stmt t p.awake = c.stmt t p := by
  cases c <;> cases p <;> rfl

/-- Only inside the loop of `notify_all` does a worker begin a statement with `m_waiters_lock`. -/
theorem Cmd.locks_start {c : Cmd μ γ δ κ} {p : Phase T} (h : (Place.phase p : Place T κ).quiet)
    (t : T) : (c.stmt t p).locks .start = none := by
  cases c with
  | notifyAll v k =>
      cases p with
      | scanning rest => cases h
      | _ => rfl
  | _ => cases p <;> rfl

/-- Who is in the loop of `notify_all` has `m_waiters_lock`. -/
theorem Cmd.locks_scans {c : Cmd μ γ δ κ} {p : Phase T} {v : γ} {rest : List T}
    (h : c.scans p = some (v, rest)) (t : T) (q : Point) : (c.stmt t p).locks q = some v := by
  cases c with
  | notifyAll v' k =>
      cases p with
      | scanning l =>
          cases h
          cases rest <;> cases q <;> rfl
      | _ => cases h
  | _ => cases h

end

/-- The commands and phases that each statement belongs to. -/
inductive Cmd.Stands (t : T) : Cmd μ γ δ κ → Phase T → Stmt T μ γ δ κ → Prop
  | nothing {c p} : Stands t c p .nothing
  | act {f p} : Stands t (.act f) p (.act f)
  | lock {m k p} : Stands t (.lock m k) p (.lock m (.ctl k))
  | tryLock {m yes no p} : Stands t (.tryLock m yes no) p (.tryLock m yes no)
  | unlock {m k p} : Stands t (.unlock m k) p (.unlock m (.ctl k))
  | link {v m d k} :
      Stands t (.wait v m d k) .start
        (.guarded v (fun l => l ++ [t]) (fun _ => none) (.phase .linked))
  | arm {v m d k} : Stands t (.wait v m d k) .linked (.setWaitInfo d .armed)
  | release {v m d k} : Stands t (.wait v m d k) .armed (.unlock m (.phase .released))
  | resume {v m d k} :
      Stands t (.wait v m d k) .released (.check (.phase .resumed) .parked)
  | awake {v m d k} : Stands t (.wait v m d k) .parked (.check (.phase .resumed) .parked)
  | relock {v m d k} : Stands t (.wait v m d k) .resumed (.lock m (.phase .relocked))
  | unlink {v m d k} :
      Stands t (.wait v m d k) .relocked
        (.guarded v (fun l => l.erase t) (fun _ => none) (.ctl k))
  | doze {d k} : Stands t (.sleep d k) .start (.setWaitInfo d .dozing)
  | dozing {d k} : Stands t (.sleep d k) .dozing (.check (.ctl k) .asleep)
  | asleep {d k} : Stands t (.sleep d k) .asleep (.check (.ctl k) .asleep)
  | notifyOne {v k p} : Stands t (.notifyOne v k) p (.guarded v id List.head? (.ctl k))
  | scan {v k} : Stands t (.notifyAll v k) .start (.enter v)
  | scanOne {v k u rest} :
      Stands t (.notifyAll v k) (.scanning (u :: rest)) (.notify v u rest)
  | scanEnd {v k} : Stands t (.notifyAll v k) (.scanning []) (.exit v k)

section

omit [DecidableEq μ] [DecidableEq γ]

theorem Cmd.stands (c : Cmd μ γ δ κ) (t : T) (p : Phase T) : c.Stands t p (c.stmt t p) := by
  cases c with
  | notifyAll v k =>
      cases p with
      | scanning rest => cases rest <;> constructor
      | _ => constructor
  | _ => cases p <;> constructor

theorem Cmd.stmt_quiet (c : Cmd μ γ δ κ) (t : T) (p : Phase T) : (c.stmt t p).quiet = true := by
  have hs := c.stands t p
  generalize c.stmt t p = st at hs ⊢
  cases hs <;> rfl

/-- A worker about to test `check_wait_info` parks to do so again. -/
theorem Cmd.awake_check {c : Cmd μ γ δ κ} {p no : Phase T} {yes : Place T κ}
    (h : c.stmt t p = .check yes no) : p.awake = no.awake ∧ (p = no ∨ p = no.awake) := by
  have hs := c.stands t p
  rw [h] at hs
  cases hs with
  | resume | dozing => exact ⟨rfl, Or.inr rfl⟩
  | awake | asleep => exact ⟨rfl, Or.inl rfl⟩

end

/-! ## The relation -/

/-- The flag of a mutex says whether somebody holds it, and its thread id names nobody else. -/
def Locked (mutex : μ → Mutex.Data T) (owner : μ → Option T) : Prop :=
  ∀ m, Mutex.flag.taken (mutex m) = (owner m).isSome ∧
    ∀ t, (mutex m).tid = some t → owner m = some t

omit [DecidableEq T] in
theorem Locked.update {x : μ → Mutex.Data T} {o : μ → Option T} {m : μ} {y : Mutex.Data T}
    {w : Option T} (h : Locked x o) (hf : Mutex.flag.taken y = w.isSome)
    (ht : ∀ t, y.tid = some t → w = some t) :
    Locked (Function.update x m y) (Function.update o m w) := by
  intro m'
  by_cases hm : m' = m
  · subst hm
    simpa only [Function.update_self] using ⟨hf, ht⟩
  · simpa only [Function.update_of_ne hm] using h m'

omit [DecidableEq T] in
/-- The holder stays the same. -/
theorem Locked.keep {x : μ → Mutex.Data T} {o : μ → Option T} {m : μ} {y : Mutex.Data T}
    (h : Locked x o) (hf : Mutex.flag.taken y = Mutex.flag.taken (x m))
    (ht : ∀ t, y.tid = some t → o m = some t) : Locked (Function.update x m y) o := by
  have hu := h.update (m := m) (w := o m) (hf.trans (h m).1) ht
  rwa [Function.update_eq_self] at hu

/-- A flag of `m_waiters_lock` is set while one worker has the lock. -/
structure Spins (lock : γ → BitVec 32) (locks : T → Option γ) : Prop where
  /-- It says whether there is one. -/
  flag : ∀ v, spinFlag.taken (lock v) = true ↔ ∃ t, locks t = some v
  /-- There is one at most. -/
  unique : ∀ v t u, locks t = some v → locks u = some v → t = u

namespace Spins

variable {x : γ → BitVec 32} {l l' : T → Option γ} {v : γ} {y : BitVec 32}

omit [DecidableEq T] in
/-- Nobody acquires or releases a lock. -/
theorem keep (h : Spins x l) (hl : ∀ u, l' u = l u)
    (hy : spinFlag.taken y = spinFlag.taken (x v)) : Spins (Function.update x v y) l' := by
  obtain rfl : l' = l := funext hl
  refine ⟨fun v' => ?_, h.unique⟩
  by_cases hv : v' = v
  · rw [hv, Function.update_self, hy]
    exact h.flag v
  · rw [Function.update_of_ne hv]
    exact h.flag v'

omit [DecidableEq T] [DecidableEq γ] in
theorem same (h : Spins x l) (hl : ∀ u, l' u = l u) : Spins x l' := by
  obtain rfl : l' = l := funext hl
  exact h

theorem acquire (h : Spins x l) (hx : spinFlag.taken (x v) = false)
    (hl : ∀ u, u ≠ t → l' u = l u) (h0 : l t = none) (h1 : l' t = some v)
    (hy : spinFlag.taken y = true) : Spins (Function.update x v y) l' := by
  have hfree : ∀ u, l u ≠ some v := fun u hu => by
    rw [(h.flag v).mpr ⟨u, hu⟩] at hx
    cases hx
  refine ⟨fun v' => ?_, fun v' u w hu hw => ?_⟩
  · by_cases hv : v' = v
    · rw [hv, Function.update_self]
      exact ⟨fun _ => ⟨t, h1⟩, fun _ => hy⟩
    · rw [Function.update_of_ne hv, h.flag]
      constructor
      · rintro ⟨u, hu⟩
        have hut : u ≠ t := fun he => by
          rw [he, h0] at hu
          cases hu
        exact ⟨u, (hl u hut).trans hu⟩
      · rintro ⟨u, hu⟩
        have hut : u ≠ t := fun he => by
          rw [he, h1] at hu
          exact hv (Option.some.inj hu).symm
        exact ⟨u, (hl u hut).symm.trans hu⟩
  · by_cases hut : u = t <;> by_cases hwt : w = t
    · rw [hut, hwt]
    · rw [hut, h1] at hu
      cases hu
      exact absurd ((hl w hwt).symm.trans hw) (hfree w)
    · rw [hwt, h1] at hw
      cases hw
      exact absurd ((hl u hut).symm.trans hu) (hfree u)
    · exact h.unique v' u w ((hl u hut).symm.trans hu) ((hl w hwt).symm.trans hw)

theorem release (h : Spins x l) (hl : ∀ u, u ≠ t → l' u = l u) (h0 : l t = some v)
    (h1 : l' t = none) : Spins (Function.update x v 0#32) l' := by
  have hback : ∀ {u w}, l' u = some w → l u = some w := fun {u w} hu => by
    by_cases hut : u = t
    · rw [hut, h1] at hu
      cases hu
    · exact (hl u hut).symm.trans hu
  refine ⟨fun v' => ?_, fun v' u w hu hw => h.unique v' u w (hback hu) (hback hw)⟩
  by_cases hv : v' = v
  · rw [hv, Function.update_self]
    refine ⟨fun hz => absurd hz (by decide), ?_⟩
    rintro ⟨u, hu⟩
    rw [h.unique v u t (hback hu) h0, h1] at hu
    cases hu
  · rw [Function.update_of_ne hv, h.flag]
    constructor
    · rintro ⟨u, hu⟩
      have hut : u ≠ t := fun he => by
        rw [he, h0] at hu
        exact hv (Option.some.inj hu).symm
      exact ⟨u, (hl u hut).trans hu⟩
    · rintro ⟨u, hu⟩
      exact ⟨u, hback hu⟩

end Spins

namespace Memory

/-- Where a worker is ahead to. -/
def ahead (code : κ → Cmd μ γ δ κ) (s : Memory T μ γ δ κ) (t : T) : Option (Place T κ) :=
  (s.stmt code t).ahead (s.point t)

/-- The condition variable whose `m_waiters_lock` a worker has. -/
def locks (code : κ → Cmd μ γ δ κ) (s : Memory T μ γ δ κ) (t : T) : Option γ :=
  (s.stmt code t).locks (s.point t)

end Memory

/-- Where a worker is in `Ums.Monitor` that is in the phase `p` of its command at `c`. -/
def Placed (c : κ) (p : Phase T) (b : κ) (q : Phase T) : Option (Place T κ) → Prop
  | some (.ctl k) => b = k ∧ q = .start
  | some (.phase r) => b = c ∧ q = r
  | none => b = c ∧ (q = p ∨ q = p.awake)

/-- What the two levels share. -/
structure Common (code : κ → Cmd μ γ δ κ) (s : Memory T μ γ δ κ) (a : State T μ γ δ κ) :
    Prop where
  data : a.data = s.data
  now : a.now = s.now
  waiters : a.waiters = s.waiters
  mutexes : Locked s.mutex a.owner
  spins : Spins s.waitersLock (s.locks code)

/-- What they say of a worker. -/
structure At (code : κ → Cmd μ γ δ κ) (s : Memory T μ γ δ κ) (a : State T μ γ δ κ) (t : T) :
    Prop where
  placed : Placed (s.ctl t) (s.phase t) (a.ctl t) (a.phase t) (s.ahead code t)
  info : a.info t = (s.stmt code t).settled (s.point t) (s.info t)
  /-- It has taken its name off a mutex before it clears the flag. -/
  unnamed : ∀ m next, s.stmt code t = .unlock m next → s.point t = .unlock .flagStore →
    (s.mutex m).tid ≠ some t
  /-- It does not throw. -/
  calm : s.point t ≠ .lock .threw

/-- **The accesses so far, seen as statements.** -/
structure Refines (code : κ → Cmd μ γ δ κ) (s : Memory T μ γ δ κ) (a : State T μ γ δ κ) :
    Prop where
  shared : Common code s a
  each : ∀ t, At code s a t

/-! ## One worker moves -/

namespace Memory

omit [DecidableEq μ] [DecidableEq γ]

@[simp] theorem go_info (s : Memory T μ γ δ κ) (t : T) (next : Place T κ) :
    (s.go t next).info = s.info := by
  cases next <;> rfl

@[simp] theorem go_mutex (s : Memory T μ γ δ κ) (t : T) (next : Place T κ) :
    (s.go t next).mutex = s.mutex := by
  cases next <;> rfl

@[simp] theorem go_waitersLock (s : Memory T μ γ δ κ) (t : T) (next : Place T κ) :
    (s.go t next).waitersLock = s.waitersLock := by
  cases next <;> rfl

@[simp] theorem go_waiters (s : Memory T μ γ δ κ) (t : T) (next : Place T κ) :
    (s.go t next).waiters = s.waiters := by
  cases next <;> rfl

@[simp] theorem go_data (s : Memory T μ γ δ κ) (t : T) (next : Place T κ) :
    (s.go t next).data = s.data := by
  cases next <;> rfl

@[simp] theorem go_now (s : Memory T μ γ δ κ) (t : T) (next : Place T κ) :
    (s.go t next).now = s.now := by
  cases next <;> rfl

@[simp] theorem go_point_self (s : Memory T μ γ δ κ) (t : T) (next : Place T κ) :
    (s.go t next).point t = .start := by
  cases next <;> exact Function.update_self ..

theorem go_of_ne (s : Memory T μ γ δ κ) (next : Place T κ) (h : u ≠ t) :
    (s.go t next).ctl u = s.ctl u ∧ (s.go t next).phase u = s.phase u ∧
      (s.go t next).point u = s.point u := by
  cases next <;> simp [go, Function.update_of_ne h]

end Memory

namespace State

omit [DecidableEq μ] [DecidableEq γ]

@[simp] theorem go_info (a : State T μ γ δ κ) (t : T) (next : Place T κ) :
    (a.go t next).info = a.info := by
  cases next <;> rfl

@[simp] theorem go_owner (a : State T μ γ δ κ) (t : T) (next : Place T κ) :
    (a.go t next).owner = a.owner := by
  cases next <;> rfl

@[simp] theorem go_waiters (a : State T μ γ δ κ) (t : T) (next : Place T κ) :
    (a.go t next).waiters = a.waiters := by
  cases next <;> rfl

@[simp] theorem go_data (a : State T μ γ δ κ) (t : T) (next : Place T κ) :
    (a.go t next).data = a.data := by
  cases next <;> rfl

@[simp] theorem go_now (a : State T μ γ δ κ) (t : T) (next : Place T κ) :
    (a.go t next).now = a.now := by
  cases next <;> rfl

theorem go_of_ne (a : State T μ γ δ κ) (next : Place T κ) (h : u ≠ t) :
    (a.go t next).ctl u = a.ctl u ∧ (a.go t next).phase u = a.phase u := by
  cases next <;> simp [go, Function.update_of_ne h]

end State

/-- What becomes of a worker's `m_wait_info` at the two levels when another one moves. -/
inductive Told (w w' b b' : WaitInfo) : Prop
  | same (hw : w' = w) (hb : b' = b)
  | notified (hw : w' = { w with cond := true }) (hb : b' = { b with cond := true })

/-- Only `t` moves, at both levels. -/
structure Alone (t : T) (s s' : Memory T μ γ δ κ) (a a' : State T μ γ δ κ) : Prop where
  ctl : ∀ u, u ≠ t → s'.ctl u = s.ctl u ∧ a'.ctl u = a.ctl u
  phase : ∀ u, u ≠ t → s'.phase u = s.phase u ∧ a'.phase u = a.phase u
  point : ∀ u, u ≠ t → s'.point u = s.point u
  info : ∀ u, u ≠ t → Told (s.info u) (s'.info u) (a.info u) (a'.info u)
  tid : ∀ m u, u ≠ t → (s'.mutex m).tid = some u → (s.mutex m).tid = some u

namespace Alone

variable {a' : State T μ γ δ κ}

section

omit [DecidableEq μ] [DecidableEq γ]

omit [DecidableEq T] in
theorem refl (t : T) (s : Memory T μ γ δ κ) (a : State T μ γ δ κ) : Alone t s s a a where
  ctl _ _ := ⟨rfl, rfl⟩
  phase _ _ := ⟨rfl, rfl⟩
  point _ _ := rfl
  info _ _ := .same rfl rfl
  tid _ _ _ h := h

theorem setPoint (h : Alone t s s' a a') (q : Point) : Alone t s (s'.setPoint t q) a a' where
  ctl := h.ctl
  phase := h.phase
  point u hu := by
    rw [Memory.setPoint_point, Function.update_of_ne hu]
    exact h.point u hu
  info := h.info
  tid := h.tid

theorem go (h : Alone t s s' a a') (next : Place T κ) : Alone t s (s'.go t next) a a' where
  ctl u hu := ⟨(Memory.go_of_ne s' next hu).1.trans (h.ctl u hu).1, (h.ctl u hu).2⟩
  phase u hu := ⟨(Memory.go_of_ne s' next hu).2.1.trans (h.phase u hu).1, (h.phase u hu).2⟩
  point u hu := (Memory.go_of_ne s' next hu).2.2.trans (h.point u hu)
  info u hu := by
    rw [Memory.go_info]
    exact h.info u hu
  tid m u hu := by
    rw [Memory.go_mutex]
    exact h.tid m u hu

/-- It goes on in `Ums.Monitor`. -/
theorem goes (h : Alone t s s' a a') (next : Place T κ) : Alone t s s' a (a'.go t next) where
  ctl u hu := ⟨(h.ctl u hu).1, (State.go_of_ne a' next hu).1.trans (h.ctl u hu).2⟩
  phase u hu := ⟨(h.phase u hu).1, (State.go_of_ne a' next hu).2.trans (h.phase u hu).2⟩
  point := h.point
  info u hu := by
    rw [State.go_info]
    exact h.info u hu
  tid := h.tid

/-- A worker is notified. -/
theorem notify (h : Alone t s s' a a') (w : T)
    (hs : ∀ u, u ≠ t → s'.info u = s.info u) (ha : ∀ u, u ≠ t → a'.info u = a.info u) :
    Alone t s (s'.setCond w true) a (a'.notifyWaiter w) where
  ctl := h.ctl
  phase := h.phase
  point := h.point
  info u hu := by
    rw [Memory.setCond_info, State.notifyWaiter_info]
    by_cases hw : u = w
    · subst hw
      rw [Function.update_self, Function.update_self, hs u hu, ha u hu]
      exact .notified rfl rfl
    · rw [Function.update_of_ne hw, Function.update_of_ne hw]
      exact .same (hs u hu) (ha u hu)
  tid := h.tid

/-- Its own `m_wait_info` is its own business. -/
theorem setInfo (h : Alone t s s' a a') {w b : WaitInfo} :
    Alone t s { s' with info := Function.update s'.info t w } a
      { a' with info := Function.update a'.info t b } where
  ctl := h.ctl
  phase := h.phase
  point := h.point
  info u hu := by
    simp only [Function.update_of_ne hu]
    exact h.info u hu
  tid := h.tid

theorem stmt (h : Alone t s s' a a') (hu : u ≠ t) : s'.stmt code u = s.stmt code u := by
  rw [Memory.stmt, Memory.stmt, (h.ctl u hu).1, (h.phase u hu).1]

theorem locks (h : Alone t s s' a a') (hu : u ≠ t) : s'.locks code u = s.locks code u := by
  rw [Memory.locks, Memory.locks, h.stmt hu, h.point u hu]

/-- The others are where they were. -/
theorem at_ (h : Alone t s s' a a') (hu : u ≠ t) (hat : At code s a u) : At code s' a' u where
  placed := by
    rw [Memory.ahead, h.stmt hu, h.point u hu, (h.ctl u hu).1, (h.ctl u hu).2, (h.phase u hu).1,
      (h.phase u hu).2]
    exact hat.placed
  info := by
    rw [h.stmt hu, h.point u hu]
    cases h.info u hu with
    | same hw hb => rw [hw, hb, hat.info]
    | notified hw hb => rw [hw, hb, hat.info, Stmt.settled_cond]
  unnamed m next hst hp hn := by
    rw [h.stmt hu] at hst
    rw [h.point u hu] at hp
    exact hat.unnamed m next hst hp (h.tid m u hu hn)
  calm := by
    rw [h.point u hu]
    exact hat.calm

end

omit [DecidableEq T] [DecidableEq γ] in
theorem setMutex (h : Alone t s s' a a') {m : μ} {y : Mutex.Data T}
    (hy : ∀ u, u ≠ t → y.tid = some u → (s'.mutex m).tid = some u) :
    Alone t s (s'.setMutex m y) a a' where
  ctl := h.ctl
  phase := h.phase
  point := h.point
  info := h.info
  tid m' u hu hm := by
    refine h.tid m' u hu ?_
    by_cases he : m' = m
    · subst he
      rw [Memory.setMutex_mutex, Function.update_self] at hm
      exact hy u hu hm
    · rwa [Memory.setMutex_mutex, Function.update_of_ne he] at hm

end Alone

omit [DecidableEq μ] [DecidableEq γ] in
/-- **One worker moves** and the rest stays as it is. -/
theorem Refines.moves {a' : State T μ γ δ κ} (h : Refines code s a) (hm : Alone t s s' a a')
    (hsh : Common code s' a') (hat : At code s' a' t) : Refines code s' a' where
  shared := hsh
  each u := by
    by_cases hu : u = t
    · rw [hu]
      exact hat
    · exact hm.at_ hu (h.each u)

/-! ## Where the moving worker is -/

section

omit [DecidableEq μ] [DecidableEq γ]

/-- It begins its next statement at both levels. -/
theorem At.go {r : Memory T μ γ δ κ} {b : State T μ γ δ κ} (next : Place T κ)
    (hc : b.ctl t = r.ctl t) (hi : b.info t = r.info t) :
    At code (r.go t next) (b.go t next) t where
  placed := by
    rw [Memory.ahead, Memory.go_point_self, Stmt.ahead_start]
    cases next with
    | ctl k => simp [Memory.go, State.go, Placed]
    | phase p => simp [Memory.go, State.go, Placed, hc]
  info := by
    rw [Memory.go_point_self, Stmt.settled_of_ne (by simp), Memory.go_info, State.go_info, hi]
  unnamed m next' _ hp := by
    rw [Memory.go_point_self] at hp
    cases hp
  calm := by
    rw [Memory.go_point_self]
    simp

/-- It begins the statement that it is ahead to. -/
theorem At.catchUp {r : Memory T μ γ δ κ} {b : State T μ γ δ κ} {next : Place T κ}
    (hp : Placed (r.ctl t) (r.phase t) (b.ctl t) (b.phase t) (some next))
    (hi : b.info t = r.info t) : At code (r.go t next) b t where
  placed := by
    rw [Memory.ahead, Memory.go_point_self, Stmt.ahead_start]
    cases next with
    | ctl k =>
        simp only [Memory.go, Function.update_self]
        exact ⟨hp.1, Or.inl hp.2⟩
    | phase p =>
        simp only [Memory.go, Function.update_self]
        exact ⟨hp.1, Or.inl hp.2⟩
  info := by
    rw [Memory.go_point_self, Stmt.settled_of_ne (by simp), Memory.go_info, hi]
  unnamed m next' _ hq := by
    rw [Memory.go_point_self] at hq
    cases hq
  calm := by
    rw [Memory.go_point_self]
    simp

/-- It goes on inside its statement. -/
theorem At.inside {r : Memory T μ γ δ κ} {b : State T μ γ δ κ} {q : Point}
    (hp : Placed (r.ctl t) (r.phase t) (b.ctl t) (b.phase t) ((r.stmt code t).ahead q))
    (hi : b.info t = (r.stmt code t).settled q (r.info t))
    (hu : ∀ m next, r.stmt code t = .unlock m next → q = .unlock .flagStore →
      (r.mutex m).tid ≠ some t)
    (hq : q ≠ .lock .threw) : At code (r.setPoint t q) b t where
  placed := by
    rw [Memory.ahead, Memory.setPoint_point, Function.update_self]
    exact hp
  info := by
    rw [Memory.setPoint_point, Function.update_self]
    exact hi
  unnamed m next hst hpt := by
    rw [Memory.setPoint_point, Function.update_self] at hpt
    exact hu m next hst hpt
  calm := by
    rw [Memory.setPoint_point, Function.update_self]
    exact hq

theorem Memory.locks_setPoint (r : Memory T μ γ δ κ) (t : T) (q : Point) :
    (r.setPoint t q).locks code t = (r.stmt code t).locks q := by
  rw [locks, setPoint_point, Function.update_self]
  rfl

theorem Memory.locks_go (r : Memory T μ γ δ κ) (t : T) {next : Place T κ}
    (h : next.quiet = true) : (r.go t next).locks code t = none := by
  rw [locks, go_point_self, stmt]
  refine Cmd.locks_start ?_ t
  cases next with
  | ctl k =>
      simp only [go, Function.update_self]
      rfl
  | phase p =>
      simp only [go, Function.update_self]
      exact h

/-- A worker that is not ahead is at the same statement in `Ums.Monitor`. -/
theorem At.stmt_eq (h : At code s a t) (h0 : s.ahead code t = none) :
    a.ctl t = s.ctl t ∧ a.stmt code t = s.stmt code t := by
  have hp := h.placed
  rw [h0] at hp
  obtain ⟨hc, hq⟩ := hp
  refine ⟨hc, ?_⟩
  rw [State.stmt, Memory.stmt, hc]
  rcases hq with hq | hq <;> rw [hq]
  rw [Cmd.stmt_awake]

/-- In a statement that is one access a worker is never ahead. -/
theorem At.plain {st : Stmt T μ γ δ κ} (h : At code s a t) (hst : s.stmt code t = st)
    (ha : ∀ p, st.ahead p = none) (hw : ∀ p w, st.settled p w = w) :
    s.ahead code t = none ∧ a.info t = s.info t := by
  constructor
  · rw [Memory.ahead, hst, ha]
  · rw [h.info, hst, hw]

end

/-- What the memory becomes is matched by nothing or by one step. -/
def Follows (code : κ → Cmd μ γ δ κ) (t : T) (s : Memory T μ γ δ κ) (a : State T μ γ δ κ)
    (s' : Memory T μ γ δ κ) : Prop :=
  Refines code s' a ∨
    ∃ a', next code a (.step t) = some a' ∧ a.ctl t = s.ctl t ∧ Refines code s' a'

/-- A statement has its effect. -/
theorem Refines.commit (h : Refines code s a) (a' : State T μ γ δ κ)
    (h0 : s.ahead code t = none) (ha : a.atomic t (s.stmt code t) = some a')
    (hr : Refines code s' a') : Follows code t s a s' := by
  obtain ⟨hctl, hst⟩ := (h.each t).stmt_eq h0
  refine Or.inr ⟨a', ?_, hctl, hr⟩
  rw [next_eq_atomic, hst, ha]

section

omit [DecidableEq μ] [DecidableEq γ]

/-- **Nothing happens** but that a worker goes on inside its statement. -/
theorem Refines.inside {r : Memory T μ γ δ κ} {q : Point} (h : Refines code s a)
    (hm : Alone t s r a a) (hr : r.ctl = s.ctl ∧ r.phase = s.phase ∧ r.info = s.info)
    (hsh : Common code (r.setPoint t q) a) (h0 : s.ahead code t = none)
    (hq : (s.stmt code t).ahead q = none) (hc : s.point t ≠ .cleared ∧ q ≠ .cleared)
    (hu : ∀ m next, s.stmt code t = .unlock m next → q = .unlock .flagStore →
      (r.mutex m).tid ≠ some t)
    (ht : q ≠ .lock .threw) : Refines code (r.setPoint t q) a := by
  obtain ⟨h1, h2, h3⟩ := hr
  have hst : r.stmt code t = s.stmt code t := by
    rw [Memory.stmt, Memory.stmt, h1, h2]
  refine h.moves (hm.setPoint q) hsh (At.inside ?_ ?_ ?_ ht)
  · rw [hst, hq, h1, h2, ← h0]
    exact (h.each t).placed
  · rw [Stmt.settled_of_ne hc.2, h3, (h.each t).info, Stmt.settled_of_ne hc.1]
  · rw [hst]
    exact hu

/-- Nobody gets or lets go of `m_waiters_lock`. -/
theorem Alone.spins {a' : State T μ γ δ κ} (hm : Alone t s s' a a')
    (hl : s'.locks code t = s.locks code t) (h : Spins s.waitersLock (s.locks code)) :
    Spins s.waitersLock (s'.locks code) :=
  h.same fun u => by
    by_cases hu : u = t
    · rw [hu, hl]
    · exact hm.locks hu

/-- Going on changes nothing that is shared. -/
theorem Common.go {r : Memory T μ γ δ κ} {b : State T μ γ δ κ} {next : Place T κ}
    (hd : b.data = r.data) (hn : b.now = r.now) (hw : b.waiters = r.waiters)
    (hl : Locked r.mutex b.owner) (hx : Spins r.waitersLock ((r.go t next).locks code)) :
    Common code (r.go t next) b where
  data := by rw [hd, Memory.go_data]
  now := by rw [hn, Memory.go_now]
  waiters := by rw [hw, Memory.go_waiters]
  mutexes := by
    rw [Memory.go_mutex]
    exact hl
  spins := by
    rw [Memory.go_waitersLock]
    exact hx

theorem Common.goes {b : State T μ γ δ κ} (h : Common code s b) (next : Place T κ) :
    Common code s (b.go t next) where
  data := by rw [State.go_data, h.data]
  now := by rw [State.go_now, h.now]
  waiters := by rw [State.go_waiters, h.waiters]
  mutexes := by
    rw [State.go_owner]
    exact h.mutexes
  spins := h.spins

/-- A worker begins a statement. -/
theorem Refines.begins {q : Point} (h : Refines code s a) (hp : s.point t = .start)
    (hq : (s.stmt code t).ahead q = none)
    (hk : (s.stmt code t).locks q = (s.stmt code t).locks .start) (hc : q ≠ .cleared)
    (hu : q ≠ .unlock .flagStore) (ht : q ≠ .lock .threw) :
    Refines code (s.setPoint t q) a := by
  refine h.inside (Alone.refl t s a) ⟨rfl, rfl, rfl⟩ ?_ ?_ hq ⟨by simp [hp], hc⟩
    (fun _ _ _ hf => absurd hf hu) ht
  · exact
      { data := h.shared.data
        now := h.shared.now
        waiters := h.shared.waiters
        mutexes := h.shared.mutexes
        spins := ((Alone.refl t s a).setPoint q).spins
          (by rw [Memory.locks_setPoint, Memory.locks, hp, hk]) h.shared.spins }
  · rw [Memory.ahead, hp, Stmt.ahead_start]

end

end Ums.Monitor
