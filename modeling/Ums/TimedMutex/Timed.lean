import Ums.Monitor.Elapsed
import Ums.Monitor.Section

/-!
# `Timed_mutex`

One mutex, one condition variable and the flag `m_locked`, with every operation as the
source writes it. What follows a wait in the same critical section belongs to its last
step.

A worker may call any operation at any time, whether it owns the lock or not, and
`unlock` too. It carries along whether it owns the lock.
-/

namespace Ums.TimedMutex

open Monitor

/-- The statements of `lock` and of `try_lock_until_internal`. -/
inductive LockPoint where
  /-- About to lock `m_mtx`. -/
  | enter
  /-- In the wait, and whether it has found the lock taken before. -/
  | wait (again : Bool) (a : Await Unit)
  /-- About to unlock `m_mtx` on return. -/
  | leave (result : Bool)
  deriving DecidableEq

/-- The statements of `try_lock`. -/
inductive TryPoint where
  /-- About to try to lock `m_mtx`. -/
  | enter
  /-- Testing `m_locked`. -/
  | test
  /-- About to unlock `m_mtx` on return. -/
  | leave (result : Bool)
  deriving DecidableEq

/-- The statements of `unlock`. -/
inductive UnlockPoint where
  /-- About to lock `m_mtx`. -/
  | enter
  /-- `m_locked = false`. -/
  | clear
  /-- About to unlock `m_mtx`. -/
  | leave
  /-- `m_cv.notify_one`. -/
  | notify
  deriving DecidableEq

/-- Where a worker is, and whether it owns the lock. -/
inductive Ctl where
  /-- In its own code. -/
  | idle (owns : Bool)
  /-- In `lock`. -/
  | lock (owns : Bool) (p : LockPoint)
  /-- In `try_lock`. -/
  | tryLock (owns : Bool) (p : TryPoint)
  /-- In `try_lock_until_internal`. -/
  | tryLockUntil (d : Time) (owns : Bool) (p : LockPoint)
  /-- In `unlock`. -/
  | unlock (owns : Bool) (p : UnlockPoint)
  deriving DecidableEq

namespace Ctl

/-- What a worker may call. -/
def calls (o : Bool) : Ctl → Bool
  | .lock o' .enter | .tryLock o' .enter | .tryLockUntil _ o' .enter | .unlock o' .enter =>
    decide (o' = o)
  | _ => false

/-- Where the worker is in its wait for the lock. -/
def waits : Ctl → Option (Bool × Await Unit)
  | .lock _ (.wait again a) | .tryLockUntil _ _ (.wait again a) => some (again, a)
  | _ => none

/-- The worker, inside `unlock`, has yet to perform its `notify_one`. -/
def notifies : Ctl → Bool
  | .unlock _ .leave | .unlock _ .notify => true
  | _ => false

end Ctl

/-- A command of this program; the data is `m_locked`. -/
abbrev Command := Cmd Unit Unit Bool Ctl

/-- `lock`. -/
def lockCode (o : Bool) : LockPoint → Command
  | .enter => .lock () (.lock o (.wait false .test))
  | .wait _ a =>
    a.codeWith () () (fun locked => !locked) none (fun _ => ()) (fun b => .lock o (.wait true b))
      (fun _ _ => (true, .lock true (.leave true)))
  | .leave _ => .unlock () (.idle o)

/-- `try_lock`. -/
def tryLockCode (o : Bool) : TryPoint → Command
  | .enter => .tryLock () (.tryLock o .test) (.idle o)
  | .test =>
    .act fun _ locked =>
      if !locked then (true, .tryLock true (.leave true)) else (locked, .tryLock o (.leave false))
  | .leave _ => .unlock () (.idle o)

/-- `try_lock_until_internal`, which forgets what the wait has returned and tests again. -/
def tryLockUntilCode (d : Time) (o : Bool) : LockPoint → Command
  | .enter => .lock () (.tryLockUntil d o (.wait false .test))
  | .wait _ a =>
    a.codeWith () () (fun locked => !locked) (some d) (fun _ => ())
      (fun b => .tryLockUntil d o (.wait true b))
      (fun _ locked =>
        if !locked then (true, .tryLockUntil d true (.leave true))
        else (locked, .tryLockUntil d o (.leave false)))
  | .leave _ => .unlock () (.idle o)

/-- `unlock`. -/
def unlockCode (o : Bool) : UnlockPoint → Command
  | .enter => .lock () (.unlock o .clear)
  | .clear => .act fun _ _ => (false, .unlock false .leave)
  | .leave => .unlock () (.unlock o .notify)
  | .notify => .notifyOne () (.idle o)

/-- The program. -/
def code : Ctl → Command
  | .idle o => .choose (Ctl.calls o)
  | .lock o p => lockCode o p
  | .tryLock o p => tryLockCode o p
  | .tryLockUntil d o p => tryLockUntilCode d o p
  | .unlock o p => unlockCode o p

/-- Where `m_mtx` is held. -/
def holds : Ctl → Unit → Bool
  | .idle _, _ => false
  | .lock _ .enter, _ | .tryLock _ .enter, _ | .tryLockUntil _ _ .enter, _ => false
  | .unlock _ .enter, _ | .unlock _ .notify, _ => false
  | _, _ => true

/-- A timed mutex that nobody holds, used by the workers `T`. -/
abbrev machine (T : Type) [DecidableEq T] :
    Lib.Machine (State T Unit Unit Bool Ctl) (Event T Ctl) :=
  Monitor.machine code (fun _ => .idle false) false

theorem disciplined : Disciplined code holds := by
  have hset : ∀ (f : Unit → Bool) (b : Bool), Function.update f () b = fun _ => b := fun f b =>
    funext fun m => Function.update_self ..
  intro c
  cases c with
  | idle o =>
      intro k hk
      funext m
      unfold Ctl.calls at hk
      split at hk <;> first | rfl | cases hk
  | lock o p =>
      cases p with
      | enter => exact (hset _ _).symm
      | wait again a =>
          rw [code, lockCode]
          refine a.keepsWith holds _ ?_ ?_ ?_
          · rfl
          · exact fun _ => rfl
          · exact fun _ _ => rfl
      | leave => exact ⟨rfl, (hset _ _).symm⟩
  | tryLock o p =>
      cases p with
      | enter => exact ⟨(hset _ _).symm, rfl⟩
      | test =>
          intro _ x
          cases x <;> rfl
      | leave => exact ⟨rfl, (hset _ _).symm⟩
  | tryLockUntil d o p =>
      cases p with
      | enter => exact (hset _ _).symm
      | wait again a =>
          rw [code, tryLockUntilCode]
          refine a.keepsWith holds _ ?_ ?_ ?_
          · rfl
          · exact fun _ => rfl
          · intro _ x
            cases x <;> rfl
      | leave => exact ⟨rfl, (hset _ _).symm⟩
  | unlock o p =>
      cases p with
      | enter => exact (hset _ _).symm
      | clear => exact fun _ _ => rfl
      | leave => exact ⟨rfl, (hset _ _).symm⟩
      | notify => rfl

/-! ## What a statement does -/

/-- What a statement does: where it leads, and what becomes of `m_locked`. -/
inductive Goes (now : Time) (x : Bool) : Ctl → Ctl → Bool → Prop
  /-- A call begins. -/
  | calls {o k} (hk : k.calls o = true) : Goes now x (.idle o) k x
  | lockEnter {o} : Goes now x (.lock o .enter) (.lock o (.wait false .test)) x
  | lockOn {o g a b} : Goes now x (.lock o (.wait g a)) (.lock o (.wait true b)) x
  | lockTakes {o g a} : Goes now x (.lock o (.wait g a)) (.lock true (.leave true)) true
  | lockLeave {o r} : Goes now x (.lock o (.leave r)) (.idle o) x
  | tryEnter {o} : Goes now x (.tryLock o .enter) (.tryLock o .test) x
  /-- Somebody else has `m_mtx`. -/
  | tryBusy {o} : Goes now x (.tryLock o .enter) (.idle o) x
  | tryTakes {o} (hx : x = false) : Goes now x (.tryLock o .test) (.tryLock true (.leave true)) true
  | tryFails {o} (hx : x = true) : Goes now x (.tryLock o .test) (.tryLock o (.leave false)) x
  | tryLeave {o r} : Goes now x (.tryLock o (.leave r)) (.idle o) x
  | untilEnter {d o} :
      Goes now x (.tryLockUntil d o .enter) (.tryLockUntil d o (.wait false .test)) x
  | untilOn {d o g a b} (hb : b = .last → d ≤ now) :
      Goes now x (.tryLockUntil d o (.wait g a)) (.tryLockUntil d o (.wait true b)) x
  | untilTakes {d o g a} (hx : x = false) :
      Goes now x (.tryLockUntil d o (.wait g a)) (.tryLockUntil d true (.leave true)) true
  /-- The lock is taken after the deadline. -/
  | untilFails {d o g} (hx : x = true) :
      Goes now x (.tryLockUntil d o (.wait g .last)) (.tryLockUntil d o (.leave false)) x
  | untilLeave {d o r} : Goes now x (.tryLockUntil d o (.leave r)) (.idle o) x
  | unlockEnter {o} : Goes now x (.unlock o .enter) (.unlock o .clear) x
  | unlockClear {o} : Goes now x (.unlock o .clear) (.unlock false .leave) false
  | unlockLeave {o} : Goes now x (.unlock o .leave) (.unlock o .notify) x
  | unlockNotify {o} : Goes now x (.unlock o .notify) (.idle o) x

variable {c k : Ctl} {x y o : Bool} {now d : Time}

theorem goes_of_lock {p : LockPoint} (hj : Jump code now (.lock o p) x k y) :
    Goes now x (.lock o p) k y := by
  cases p with
  | enter => cases hj with | _ hc => cases hc <;> exact .lockEnter
  | wait g a =>
      have hcode : code (.lock o (.wait g a)) = lockCode o (.wait g a) := rfl
      rw [lockCode] at hcode
      cases Await.goes hcode hj with
      | ends he =>
          cases he
          exact .lockTakes
      | on b hk hy =>
          rw [hk, hy]
          exact .lockOn
  | leave => cases hj with | _ hc => cases hc <;> exact .lockLeave

theorem goes_of_tryLock {p : TryPoint} (hj : Jump code now (.tryLock o p) x k y) :
    Goes now x (.tryLock o p) k y := by
  cases p with
  | enter =>
      cases hj with
      | tryYes hc =>
          cases hc
          exact .tryEnter
      | tryNo hc =>
          cases hc
          exact .tryBusy
      | _ hc => cases hc
  | test =>
      cases hj with
      | act hc =>
          cases hc
          cases x with
          | false => exact .tryTakes rfl
          | true => exact .tryFails rfl
      | _ hc => cases hc
  | leave => cases hj with | _ hc => cases hc <;> exact .tryLeave

theorem goes_of_tryLockUntil {p : LockPoint} (hj : Jump code now (.tryLockUntil d o p) x k y) :
    Goes now x (.tryLockUntil d o p) k y := by
  cases p with
  | enter => cases hj with | _ hc => cases hc <;> exact .untilEnter
  | wait g a =>
      have hcode : code (.tryLockUntil d o (.wait g a)) = tryLockUntilCode d o (.wait g a) := rfl
      rw [tryLockUntilCode] at hcode
      rcases Await.late hcode hj with ⟨b, rfl, rfl, hlate⟩ | ⟨he, ha⟩
      · exact .untilOn hlate
      · cases x with
        | false =>
            cases he
            exact .untilTakes rfl
        | true =>
            cases he
            rcases ha with ⟨-, ht⟩ | rfl
            · cases ht
            · exact .untilFails rfl
  | leave => cases hj with | _ hc => cases hc <;> exact .untilLeave

/-- **Every statement does one of these things.** -/
theorem goes_of_jump (hj : Jump code now c x k y) : Goes now x c k y := by
  cases c with
  | idle o =>
      cases hj with
      | choose hc hk =>
          cases hc
          exact .calls hk
      | _ hc => cases hc
  | lock o p => exact goes_of_lock hj
  | tryLock o p => exact goes_of_tryLock hj
  | tryLockUntil d o p => exact goes_of_tryLockUntil hj
  | unlock o p =>
      cases p with
      | enter => cases hj with | _ hc => cases hc <;> exact .unlockEnter
      | clear => cases hj with | _ hc => cases hc <;> exact .unlockClear
      | leave => cases hj with | _ hc => cases hc <;> exact .unlockLeave
      | notify => cases hj with | _ hc => cases hc <;> exact .unlockNotify

/-! ## Nobody sleeps beside a free lock -/

/-- Nothing is known of `m_locked`. -/
abbrev Known (_ : Ctl) (_ : Bool) : Prop := True

theorem contends : Contends code holds () () Known (fun locked => locked = false) Ctl.waits where
  await c g a hc := by
    cases c with
    | lock o p =>
        cases p with
        | wait again b =>
            cases hc
            refine ⟨fun locked => !locked, none, fun b => .lock o (.wait true b),
              fun _ _ => (true, .lock true (.leave true)), rfl, fun _ => rfl, fun _ _ => rfl, ?_⟩
            rintro x rfl
            rfl
        | _ => cases hc
    | tryLockUntil d o p =>
        cases p with
        | wait again b =>
            cases hc
            refine ⟨fun locked => !locked, some d, fun b => .tryLockUntil d o (.wait true b),
              fun _ locked => if !locked then (true, .tryLockUntil d true (.leave true))
                else (locked, .tryLockUntil d o (.leave false)), rfl, fun _ => rfl, ?_, ?_⟩
            · intro r x
              cases x <;> rfl
            · -- a freed mutex is acquired, also after the deadline
              rintro x rfl
              rfl
        | _ => cases hc
    | _ => cases hc
  fresh {now c x k y g a} hj hc hk := by
    cases goes_of_jump hj with
    | calls hcall =>
        unfold Ctl.calls at hcall
        split at hcall <;> first | cases hk | cases hcall
    | lockEnter | untilEnter =>
        cases hk
        rfl
    | lockOn | untilOn => cases hc
    | _ => cases hk
  only c m' d k hc hn := by
    cases c with
    | idle o => cases hc
    | lock o p | tryLockUntil d o p => cases p <;> first | cases hc | cases hn
    | tryLock o p | unlock o p => cases p <;> cases hc
  guarded c hc := by
    unfold Ctl.waits at hc
    split at hc
    · rfl
    · rfl
    · exact absurd rfl hc
  takes {now c x k y} hj _ hc hk := by
    cases goes_of_jump hj with
    | lockTakes | untilTakes => nofun
    | untilFails hx =>
        rw [hx]
        nofun
    | lockOn | untilOn => cases hk
    | _ => exact absurd rfl hc

/-- `m_locked` is only changed with `m_mtx`. -/
theorem holds_of_jump (hj : Jump code now c x k y) (hne : y ≠ x) : holds c () = true := by
  cases goes_of_jump hj with
  | lockTakes | tryTakes | untilTakes | unlockClear => rfl
  | _ => exact absurd rfl hne

/-- The flag is cleared by `unlock` only, which then owes a notification. -/
theorem notifies_of_frees (hj : Jump code now c x k y) (hf : y = false) (hn : x ≠ false) :
    k.notifies = true := by
  cases goes_of_jump hj with
  | unlockClear => rfl
  | lockTakes | tryTakes | untilTakes => cases hf
  | _ => exact absurd hf hn

/-- A notification is owed until it is performed. -/
theorem notifies_of_jump (hj : Jump code now c x k y) (hc : c.notifies = true) :
    k.notifies = true ∨ code c = .notifyOne () k := by
  cases goes_of_jump hj with
  | unlockLeave => exact Or.inl rfl
  | unlockNotify => exact Or.inr rfl
  | _ => cases hc

variable {T : Type} [DecidableEq T] {s : State T Unit Unit Bool Ctl} {t : T}

/-- **Nobody sleeps beside a free timed mutex** without a wakeup on its way. -/
theorem awaited (h : (machine T).Reachable s) (hf : s.data = false) (ha : Asleep code s () t) :
    (∃ u, (s.ctl u).notifies = true) ∨
      ∃ u, u ≠ t ∧ (Roused code s () u ∨ retests Ctl.waits (s.ctl u) = true) :=
  contends.not_stranded
    (contends.relay (fun hj hne => holds_of_jump hj hne)
      (fun hj _ hf hn => notifies_of_frees hj hf hn) fun hj hc => notifies_of_jump hj hc)
    disciplined (fun _ _ => rfl) (fun _ _ _ => trivial) h ha hf

end Ums.TimedMutex
