import Ums.Monitor.Elapsed
import Ums.TimedMutex.Timed
import Ums.Mutex.Count

/-!
# `Recursive_timed_mutex`

One mutex, one condition variable, `m_tid` and `m_locks_count`. The statements between
a lock of `m_mtx`, a wait and an unlock are one step.

A worker knows its own thread id, and carries along how often it holds the lock: its
successful acquisitions minus its unlocks. It may call any operation at any time, but
unlocks only what it holds.
-/

namespace Ums.RecursiveTimedMutex

open Monitor

variable {T : Type}

/-- `m_tid` and `m_locks_count`. -/
structure Data (T : Type) where
  /-- `m_tid`. -/
  tid : Option T := none
  /-- `m_locks_count`. -/
  locksCount : BitVec 32 := 0#32

/-- A worker as it calls the operations. -/
structure Caller (T : Type) where
  /-- `this_tid`. -/
  thisTid : T
  /-- Its successful acquisitions minus its unlocks. -/
  depth : Nat := 0
  deriving DecidableEq

/-- How an acquisition ends. -/
inductive Outcome where
  /-- It succeeds. -/
  | acquired
  /-- It returns `false`. -/
  | failed
  /-- It throws `resource_unavailable_try_again`. -/
  | threw
  deriving DecidableEq

/-- The statements of `lock` and of `try_lock_until_internal`. -/
inductive LockPoint where
  /-- About to lock `m_mtx`. -/
  | enter
  /-- Comparing `m_tid` with its own. -/
  | test
  /-- In the wait, and whether it has found the lock taken before. -/
  | wait (again : Bool) (a : Await Unit)
  /-- About to unlock `m_mtx` on return. -/
  | leave (o : Outcome)
  deriving DecidableEq

/-- The statements of `try_lock`. -/
inductive TryPoint where
  /-- About to try to lock `m_mtx`. -/
  | enter
  /-- Testing `m_locks_count` and `m_tid`. -/
  | test
  /-- About to unlock `m_mtx` on return. -/
  | leave (o : Outcome)
  /-- About to return `false` without `m_mtx`. -/
  | fail
  deriving DecidableEq

/-- The statements of `unlock`. -/
inductive UnlockPoint where
  /-- About to lock `m_mtx`. -/
  | enter
  /-- `rmtx_dec_lc`, and what depends on it. -/
  | dec
  /-- About to unlock `m_mtx` on return. -/
  | leave
  /-- `lock.unlock`. -/
  | release
  /-- `m_cv.notify_one`. -/
  | notify
  deriving DecidableEq

/-- Where a worker is. -/
inductive Ctl (T : Type) where
  /-- In its own code. -/
  | idle (h : Caller T)
  /-- In `lock`. -/
  | lock (h : Caller T) (p : LockPoint)
  /-- In `try_lock`. -/
  | tryLock (h : Caller T) (p : TryPoint)
  /-- In `try_lock_until_internal`. -/
  | tryLockUntil (d : Time) (h : Caller T) (p : LockPoint)
  /-- In `unlock`. -/
  | unlock (h : Caller T) (p : UnlockPoint)
  deriving DecidableEq

namespace Ctl

/-- The worker. -/
def caller : Ctl T → Caller T
  | .idle h | .lock h _ | .tryLock h _ | .tryLockUntil _ h _ | .unlock h _ => h

/-- How often the worker holds the lock. -/
def depth (c : Ctl T) : Nat := c.caller.depth

/-- What a worker may call. -/
def calls [DecidableEq T] (h : Caller T) : Ctl T → Bool
  | .lock h' .enter | .tryLock h' .enter | .tryLockUntil _ h' .enter => decide (h' = h)
  | .unlock h' .enter => decide (h' = h) && decide (0 < h.depth)
  | _ => false

/-- Where the worker is in its wait for the lock. -/
def waits : Ctl T → Option (Bool × Await Unit)
  | .lock _ (.wait again a) | .tryLockUntil _ _ (.wait again a) => some (again, a)
  | _ => none

/-- The worker, inside `unlock`, has yet to perform its `notify_one`. -/
def notifies : Ctl T → Bool
  | .unlock _ .release | .unlock _ .notify => true
  | _ => false

end Ctl

/-- A command of this program. -/
abbrev Command (T : Type) := Cmd Unit Unit (Data T) (Ctl T)

section

variable [DecidableEq T]

/-- `rmtx_inc_lc`, and the return that follows it. -/
def inc (h : Caller T) (x : Data T) (ret : Caller T → Outcome → Ctl T) (refusal : Outcome) :
    Data T × Ctl T :=
  if (rmtxIncLc x.locksCount).2 then
    ({ x with locksCount := (rmtxIncLc x.locksCount).1 },
      ret { h with depth := h.depth + 1 } .acquired)
  else ({ x with locksCount := (rmtxIncLc x.locksCount).1 }, ret h refusal)

/-- `lock`. -/
def lockCode (h : Caller T) : LockPoint → Command T
  | .enter => .lock () (.lock h .test)
  | .test =>
    .act fun _ x =>
      if x.tid ≠ some h.thisTid then (x, .lock h (.wait false .test))
      else inc h x (fun h o => .lock h (.leave o)) .threw
  | .wait _ a =>
    a.codeWith () () (fun x => x.locksCount == 0#32) none (fun _ => ())
      (fun b => .lock h (.wait true b))
      (fun _ x => inc h { x with tid := some h.thisTid } (fun h o => .lock h (.leave o)) .threw)
  | .leave _ => .unlock () (.idle h)

/-- `try_lock`. -/
def tryLockCode (h : Caller T) : TryPoint → Command T
  | .enter => .tryLock () (.tryLock h .test) (.tryLock h .fail)
  | .test =>
    .act fun _ x =>
      if x.locksCount = 0#32 ∨ x.tid = some h.thisTid then
        if (rmtxIncLc x.locksCount).2 then
          ({ tid := some h.thisTid, locksCount := (rmtxIncLc x.locksCount).1 },
            .tryLock { h with depth := h.depth + 1 } (.leave .acquired))
        else ({ x with locksCount := (rmtxIncLc x.locksCount).1 }, .tryLock h (.leave .failed))
      else (x, .tryLock h (.leave .failed))
  | .leave _ => .unlock () (.idle h)
  | .fail => .act fun _ x => (x, .idle h)

/-- `try_lock_until_internal`, which forgets what the wait has returned and tests again. -/
def tryLockUntilCode (d : Time) (h : Caller T) : LockPoint → Command T
  | .enter => .lock () (.tryLockUntil d h .test)
  | .test =>
    .act fun _ x =>
      if x.tid = some h.thisTid then inc h x (fun h o => .tryLockUntil d h (.leave o)) .failed
      else (x, .tryLockUntil d h (.wait false .test))
  | .wait _ a =>
    a.codeWith () () (fun x => x.locksCount == 0#32) (some d) (fun _ => ())
      (fun b => .tryLockUntil d h (.wait true b))
      (fun _ x =>
        if x.locksCount = 0#32 then
          ({ tid := some h.thisTid, locksCount := (rmtxIncLc x.locksCount).1 },
            .tryLockUntil d { h with depth := h.depth + 1 } (.leave .acquired))
        else (x, .tryLockUntil d h (.leave .failed)))
  | .leave _ => .unlock () (.idle h)

/-- `unlock`. -/
def unlockCode (h : Caller T) : UnlockPoint → Command T
  | .enter => .lock () (.unlock h .dec)
  | .dec =>
    .act fun _ x =>
      if rmtxDecLc x.locksCount = 0#32 then
        ({ tid := none, locksCount := rmtxDecLc x.locksCount },
          .unlock { h with depth := h.depth - 1 } .release)
      else ({ x with locksCount := rmtxDecLc x.locksCount },
        .unlock { h with depth := h.depth - 1 } .leave)
  | .leave => .unlock () (.idle h)
  | .release => .unlock () (.unlock h .notify)
  | .notify => .notifyOne () (.idle h)

/-- The program. -/
def code : Ctl T → Command T
  | .idle h => .choose (Ctl.calls h)
  | .lock h p => lockCode h p
  | .tryLock h p => tryLockCode h p
  | .tryLockUntil d h p => tryLockUntilCode d h p
  | .unlock h p => unlockCode h p

/-- Where `m_mtx` is held. -/
def holds : Ctl T → Unit → Bool
  | .idle _, _ => false
  | .lock _ .enter, _ | .tryLockUntil _ _ .enter, _ => false
  | .tryLock _ .enter, _ | .tryLock _ .fail, _ => false
  | .unlock _ .enter, _ | .unlock _ .notify, _ => false
  | _, _ => true

/-- A recursive timed mutex that nobody holds, used by the workers `T`. -/
abbrev machine (T : Type) [DecidableEq T] :
    Lib.Machine (State T Unit Unit (Data T) (Ctl T)) (Event T (Ctl T)) :=
  Monitor.machine code (fun t => .idle { thisTid := t }) {}

omit [DecidableEq T] in
theorem holds_inc {h : Caller T} {x : Data T} {ret : Caller T → Outcome → Ctl T} {o : Outcome}
    {m : Unit} (hr : ∀ h o, holds (ret h o) m = true) : holds (inc h x ret o).2 m = true := by
  unfold inc
  split
  · exact hr _ _
  · exact hr _ _

theorem disciplined : Disciplined (code (T := T)) holds := by
  have hset : ∀ (f : Unit → Bool) (b : Bool), Function.update f () b = fun _ => b := fun f b =>
    funext fun m => Function.update_self ..
  intro c
  cases c with
  | idle h =>
      intro k hk
      funext m
      unfold Ctl.calls at hk
      split at hk <;> first | rfl | cases hk
  | lock h p =>
      cases p with
      | enter => exact (hset _ _).symm
      | test =>
          intro _ x
          simp only
          split
          · rfl
          · exact funext fun m => holds_inc fun _ _ => rfl
      | wait again a =>
          rw [code, lockCode]
          refine a.keepsWith holds _ ?_ ?_ ?_
          · rfl
          · exact fun _ => rfl
          · exact fun _ x => funext fun m => holds_inc fun _ _ => rfl
      | leave => exact ⟨rfl, (hset _ _).symm⟩
  | tryLock h p =>
      cases p with
      | enter => exact ⟨(hset _ _).symm, rfl⟩
      | test =>
          intro _ x
          simp only
          split
          · split <;> rfl
          · rfl
      | leave => exact ⟨rfl, (hset _ _).symm⟩
      | fail => exact fun _ _ => rfl
  | tryLockUntil d h p =>
      cases p with
      | enter => exact (hset _ _).symm
      | test =>
          intro _ x
          simp only
          split
          · exact funext fun m => holds_inc fun _ _ => rfl
          · rfl
      | wait again a =>
          rw [code, tryLockUntilCode]
          refine a.keepsWith holds _ ?_ ?_ ?_
          · rfl
          · exact fun _ => rfl
          · intro _ x
            split <;> rfl
      | leave => exact ⟨rfl, (hset _ _).symm⟩
  | unlock h p =>
      cases p with
      | enter => exact (hset _ _).symm
      | dec =>
          intro _ x
          simp only
          split <;> rfl
      | leave | release => exact ⟨rfl, (hset _ _).symm⟩
      | notify => rfl

/-! ## What a statement does -/

/-- What a statement does: where it leads, and what becomes of the owner and the counter. -/
inductive Goes (now : Time) (x : Data T) : Ctl T → Ctl T → Data T → Prop
  /-- A call begins. -/
  | calls {h k} (hk : k.calls h = true) : Goes now x (.idle h) k x
  | lockEnter {h} : Goes now x (.lock h .enter) (.lock h .test) x
  | lockWait {h} (ht : x.tid ≠ some h.thisTid) :
      Goes now x (.lock h .test) (.lock h (.wait false .test)) x
  /-- The caller holds the lock, and acquires it once more. -/
  | lockAgain {h} (ht : x.tid = some h.thisTid) (hn : (rmtxIncLc x.locksCount).2 = true) :
      Goes now x (.lock h .test) (.lock { h with depth := h.depth + 1 } (.leave .acquired))
        { tid := some h.thisTid, locksCount := (rmtxIncLc x.locksCount).1 }
  /-- The caller holds the lock as often as it may. -/
  | lockFull {h} (ht : x.tid = some h.thisTid) (hn : ¬(rmtxIncLc x.locksCount).2 = true) :
      Goes now x (.lock h .test) (.lock h (.leave .threw))
        { x with locksCount := (rmtxIncLc x.locksCount).1 }
  | lockOn {h g a b} (hu : a.untimed = true → b.untimed = true) :
      Goes now x (.lock h (.wait g a)) (.lock h (.wait true b)) x
  /-- `lock` acquires the lock at the end of its wait, without a deadline only when it is free. -/
  | lockTakes {h g a} (h0 : a.untimed = true → x.locksCount = 0#32)
      (hn : (rmtxIncLc x.locksCount).2 = true) :
      Goes now x (.lock h (.wait g a))
        (.lock { h with depth := h.depth + 1 } (.leave .acquired))
        { tid := some h.thisTid, locksCount := (rmtxIncLc x.locksCount).1 }
  /-- It throws there, as if the caller held the lock as often as it may. -/
  | lockThrows {h g a} (h0 : a.untimed = true → x.locksCount = 0#32)
      (hn : ¬(rmtxIncLc x.locksCount).2 = true) :
      Goes now x (.lock h (.wait g a)) (.lock h (.leave .threw))
        { tid := some h.thisTid, locksCount := (rmtxIncLc x.locksCount).1 }
  | lockLeave {h o} : Goes now x (.lock h (.leave o)) (.idle h) x
  | tryEnter {h} : Goes now x (.tryLock h .enter) (.tryLock h .test) x
  | tryBusy {h} : Goes now x (.tryLock h .enter) (.tryLock h .fail) x
  | tryTakes {h} (hf : x.locksCount = 0#32 ∨ x.tid = some h.thisTid)
      (hn : (rmtxIncLc x.locksCount).2 = true) :
      Goes now x (.tryLock h .test) (.tryLock { h with depth := h.depth + 1 } (.leave .acquired))
        { tid := some h.thisTid, locksCount := (rmtxIncLc x.locksCount).1 }
  | tryFull {h} (hn : ¬(rmtxIncLc x.locksCount).2 = true) :
      Goes now x (.tryLock h .test) (.tryLock h (.leave .failed))
        { x with locksCount := (rmtxIncLc x.locksCount).1 }
  | tryFails {h} : Goes now x (.tryLock h .test) (.tryLock h (.leave .failed)) x
  | tryLeave {h o} : Goes now x (.tryLock h (.leave o)) (.idle h) x
  /-- `try_lock` returns without `m_mtx`. -/
  | tryReturns {h} : Goes now x (.tryLock h .fail) (.idle h) x
  | untilEnter {d h} : Goes now x (.tryLockUntil d h .enter) (.tryLockUntil d h .test) x
  | untilAgain {d h} (ht : x.tid = some h.thisTid) (hn : (rmtxIncLc x.locksCount).2 = true) :
      Goes now x (.tryLockUntil d h .test)
        (.tryLockUntil d { h with depth := h.depth + 1 } (.leave .acquired))
        { tid := some h.thisTid, locksCount := (rmtxIncLc x.locksCount).1 }
  | untilFull {d h} (ht : x.tid = some h.thisTid) (hn : ¬(rmtxIncLc x.locksCount).2 = true) :
      Goes now x (.tryLockUntil d h .test) (.tryLockUntil d h (.leave .failed))
        { x with locksCount := (rmtxIncLc x.locksCount).1 }
  | untilWait {d h} (ht : x.tid ≠ some h.thisTid) :
      Goes now x (.tryLockUntil d h .test) (.tryLockUntil d h (.wait false .test)) x
  | untilOn {d h g a b} (hb : b = .last → d ≤ now) :
      Goes now x (.tryLockUntil d h (.wait g a)) (.tryLockUntil d h (.wait true b)) x
  /-- `try_lock_until_internal` acquires the lock, whatever the wait has returned. -/
  | untilTakes {d h g a} (h0 : x.locksCount = 0#32) :
      Goes now x (.tryLockUntil d h (.wait g a))
        (.tryLockUntil d { h with depth := h.depth + 1 } (.leave .acquired))
        { tid := some h.thisTid, locksCount := (rmtxIncLc x.locksCount).1 }
  | untilFails {d h g} (h0 : x.locksCount ≠ 0#32) :
      Goes now x (.tryLockUntil d h (.wait g .last)) (.tryLockUntil d h (.leave .failed)) x
  | untilLeave {d h o} : Goes now x (.tryLockUntil d h (.leave o)) (.idle h) x
  | unlockEnter {h} : Goes now x (.unlock h .enter) (.unlock h .dec) x
  /-- `unlock` gives the lock up. -/
  | unlockLast {h} (h0 : rmtxDecLc x.locksCount = 0#32) :
      Goes now x (.unlock h .dec) (.unlock { h with depth := h.depth - 1 } .release)
        { tid := none, locksCount := rmtxDecLc x.locksCount }
  /-- The caller still holds the lock. -/
  | unlockDec {h} (h0 : rmtxDecLc x.locksCount ≠ 0#32) :
      Goes now x (.unlock h .dec) (.unlock { h with depth := h.depth - 1 } .leave)
        { x with locksCount := rmtxDecLc x.locksCount }
  | unlockLeave {h} : Goes now x (.unlock h .leave) (.idle h) x
  | unlockRelease {h} : Goes now x (.unlock h .release) (.unlock h .notify) x
  | unlockNotify {h} : Goes now x (.unlock h .notify) (.idle h) x

section

variable {c k : Ctl T} {x y : Data T} {now d : Time} {h : Caller T}

theorem goes_of_lock {p : LockPoint} (hj : Jump code now (.lock h p) x k y) :
    Goes now x (.lock h p) k y := by
  cases p with
  | enter => cases hj with | _ hc => cases hc <;> exact .lockEnter
  | test =>
      cases hj with
      | act hc =>
          cases hc
          simp only
          split
          · exact .lockWait ‹_›
          · rename_i ht
            have ht : x.tid = some h.thisTid := by simpa using ht
            unfold inc
            split
            · simp only [ht]
              exact .lockAgain ht ‹_›
            · exact .lockFull ht ‹_›
      | _ hc => cases hc
  | wait g a =>
      have hcode : code (.lock h (.wait g a)) = lockCode h (.wait g a) := rfl
      rw [lockCode] at hcode
      cases Await.goes hcode hj with
      | ends he ht ha =>
          have h0 : a.untimed = true → x.locksCount = 0#32 := by
            intro hu
            rcases ha with htest | hlast
            · simpa using ht htest
            · rw [hlast] at hu
              cases hu
          unfold inc at he
          split at he
          · cases he
            exact .lockTakes h0 ‹_›
          · cases he
            exact .lockThrows h0 ‹_›
      | on b hk hy _ hu =>
          rw [hk, hy]
          exact .lockOn (hu rfl)
  | leave => cases hj with | _ hc => cases hc <;> exact .lockLeave

theorem goes_of_tryLock {p : TryPoint} (hj : Jump code now (.tryLock h p) x k y) :
    Goes now x (.tryLock h p) k y := by
  cases p with
  | enter =>
      cases hj with
      | tryYes hc =>
          cases hc
          exact .tryEnter
      | tryNo hc =>
          cases hc
          exact .tryBusy
      | _ hc => cases hc
  | test =>
      cases hj with
      | act hc =>
          cases hc
          simp only
          split
          · split
            · exact .tryTakes ‹_› ‹_›
            · exact .tryFull ‹_›
          · exact .tryFails
      | _ hc => cases hc
  | leave => cases hj with | _ hc => cases hc <;> exact .tryLeave
  | fail => cases hj with | _ hc => cases hc <;> exact .tryReturns

theorem goes_of_tryLockUntil {p : LockPoint} (hj : Jump code now (.tryLockUntil d h p) x k y) :
    Goes now x (.tryLockUntil d h p) k y := by
  cases p with
  | enter => cases hj with | _ hc => cases hc <;> exact .untilEnter
  | test =>
      cases hj with
      | act hc =>
          cases hc
          simp only
          split
          · rename_i ht
            unfold inc
            split
            · simp only [ht]
              exact .untilAgain ht ‹_›
            · exact .untilFull ht ‹_›
          · exact .untilWait ‹_›
      | _ hc => cases hc
  | wait g a =>
      have hcode : code (.tryLockUntil d h (.wait g a)) = tryLockUntilCode d h (.wait g a) := rfl
      rw [tryLockUntilCode] at hcode
      rcases Await.late hcode hj with ⟨b, rfl, rfl, hlate⟩ | ⟨he, ha⟩
      · exact .untilOn hlate
      · by_cases h0 : x.locksCount = 0#32
        · rw [if_pos h0] at he
          cases he
          exact .untilTakes h0
        · rw [if_neg h0] at he
          cases he
          rcases ha with ⟨-, ht⟩ | rfl
          · exact absurd (by simpa using ht) h0
          · exact .untilFails h0
  | leave => cases hj with | _ hc => cases hc <;> exact .untilLeave

theorem goes_of_unlock {p : UnlockPoint} (hj : Jump code now (.unlock h p) x k y) :
    Goes now x (.unlock h p) k y := by
  cases p with
  | enter => cases hj with | _ hc => cases hc <;> exact .unlockEnter
  | dec =>
      cases hj with
      | act hc =>
          cases hc
          simp only
          split
          · exact .unlockLast ‹_›
          · exact .unlockDec ‹_›
      | _ hc => cases hc
  | leave => cases hj with | _ hc => cases hc <;> exact .unlockLeave
  | release => cases hj with | _ hc => cases hc <;> exact .unlockRelease
  | notify => cases hj with | _ hc => cases hc <;> exact .unlockNotify

/-- **Every statement does one of these things.** -/
theorem goes_of_jump (hj : Jump code now c x k y) : Goes now x c k y := by
  cases c with
  | idle h =>
      cases hj with
      | choose hc hk =>
          cases hc
          exact .calls hk
      | _ hc => cases hc
  | lock h p => exact goes_of_lock hj
  | tryLock h p => exact goes_of_tryLock hj
  | tryLockUntil d h p => exact goes_of_tryLockUntil hj
  | unlock h p => exact goes_of_unlock hj

end

/-! ## What it does to the owner and the counter -/

namespace Ctl

/-- The worker is in an acquisition that has not succeeded, and perhaps never will. -/
def acquiring : Ctl T → Bool
  | .lock _ (.leave .acquired) | .tryLock _ (.leave .acquired)
  | .tryLockUntil _ _ (.leave .acquired) => false
  | .lock .. | .tryLock .. | .tryLockUntil .. => true
  | _ => false

/-- The worker is about to return from an acquisition that has failed. -/
def failed : Ctl T → Bool
  | .lock _ (.leave .failed) | .lock _ (.leave .threw)
  | .tryLock _ (.leave .failed) | .tryLock _ (.leave .threw) | .tryLock _ .fail
  | .tryLockUntil _ _ (.leave .failed) | .tryLockUntil _ _ (.leave .threw) => true
  | _ => false

/-- The worker is in its own code. -/
def isIdle : Ctl T → Bool
  | .idle _ => true
  | _ => false

/-- The worker is about to return from an acquisition that has succeeded. -/
def succeeded : Ctl T → Bool
  | .lock _ (.leave .acquired) | .tryLock _ (.leave .acquired)
  | .tryLockUntil _ _ (.leave .acquired) => true
  | _ => false

end Ctl

/-- What a worker knows before its next statement. -/
def Ready : Ctl T → Prop
  | .lock _ (.wait _ a) => a.untimed = true
  | .unlock h .enter | .unlock h .dec => 0 < h.depth
  | _ => True

/-- What a statement does to the owner, the counter and the depths. -/
inductive Change (c : Ctl T) (x : Data T) (k : Ctl T) : Data T → Prop
  /-- Nothing. -/
  | quiet (hh : k.caller = c.caller) (hk : k.succeeded = false) : Change c x k x
  /-- The worker acquires the lock. -/
  | acquire (hf : x.tid = some c.caller.thisTid ∨ x.locksCount = 0#32)
      (hn : x.locksCount.toNat + 1 < 2 ^ 32 - 1)
      (hh : k.caller = { c.caller with depth := c.caller.depth + 1 }) (hk : k.succeeded = true) :
      Change c x k { tid := some c.caller.thisTid, locksCount := x.locksCount + 1#32 }
  /-- The worker unlocks it. -/
  | release (ha : c.acquiring = false) (hd : 0 < c.caller.depth)
      (hh : k.caller = { c.caller with depth := c.caller.depth - 1 }) (hk : k.succeeded = false)
      (hn : rmtxDecLc x.locksCount = 0#32 → k.notifies = true) :
      Change c x k { tid := if rmtxDecLc x.locksCount = 0#32 then none else x.tid,
                     locksCount := rmtxDecLc x.locksCount }

variable {c k : Ctl T} {x y : Data T} {now : Time}

section

omit [DecidableEq T]

/-- A caller that is counted in acquires the lock. -/
theorem change_of_counts (hb : x.locksCount.toNat < 2 ^ 32 - 1)
    (hf : x.tid = some c.caller.thisTid ∨ x.locksCount = 0#32)
    (hn : (rmtxIncLc x.locksCount).2 = true)
    (hh : k.caller = { c.caller with depth := c.caller.depth + 1 }) (hk : k.succeeded = true) :
    Change c x k { tid := some c.caller.thisTid, locksCount := (rmtxIncLc x.locksCount).1 } := by
  obtain ⟨hlt, he⟩ := rmtxIncLc_counts hb hn
  rw [he]
  exact .acquire hf hlt hh hk

/-- At the limit nothing changes. -/
theorem change_of_full (hb : x.locksCount.toNat < 2 ^ 32 - 1)
    (hn : ¬(rmtxIncLc x.locksCount).2 = true) (hh : k.caller = c.caller)
    (hk : k.succeeded = false) :
    Change c x k { x with locksCount := (rmtxIncLc x.locksCount).1 } := by
  rw [(rmtxIncLc_full hb hn).2]
  exact .quiet hh hk

/-- A free lock can be acquired. -/
theorem counts_of_free (h0 : x.locksCount = 0#32) : (rmtxIncLc x.locksCount).2 = true := by
  rw [h0]
  rfl

end

theorem calls_quiet {h : Caller T} (hk : k.calls h = true) :
    k.caller = h ∧ k.succeeded = false ∧ Ready k := by
  unfold Ctl.calls at hk
  split at hk
  case h_4 =>
    simp only [Bool.and_eq_true, decide_eq_true_eq] at hk
    obtain ⟨rfl, hd⟩ := hk
    exact ⟨rfl, rfl, hd⟩
  case h_5 => cases hk
  all_goals
    have hh := of_decide_eq_true hk
    exact ⟨hh, rfl, trivial⟩

/-- **Every statement makes one of the changes**, and leaves its worker with what it has to know. -/
theorem change_of_jump (hj : Jump code now c x k y) (hb : x.locksCount.toNat < 2 ^ 32 - 1)
    (hr : Ready c) : Change c x k y ∧ Ready k := by
  cases goes_of_jump hj with
  | calls hk =>
      obtain ⟨hh, hs, hr'⟩ := calls_quiet hk
      exact ⟨.quiet hh hs, hr'⟩
  | lockWait => exact ⟨.quiet rfl rfl, rfl⟩
  | lockAgain ht hn | untilAgain ht hn =>
      exact ⟨change_of_counts hb (Or.inl ht) hn rfl rfl, trivial⟩
  | lockFull ht hn | untilFull ht hn => exact ⟨change_of_full hb hn rfl rfl, trivial⟩
  | lockOn hu => exact ⟨.quiet rfl rfl, hu hr⟩
  | lockTakes h0 hn => exact ⟨change_of_counts hb (Or.inr (h0 hr)) hn rfl rfl, trivial⟩
  | lockThrows h0 hn => exact absurd (counts_of_free (h0 hr)) hn
  | tryTakes hf hn => exact ⟨change_of_counts hb hf.symm hn rfl rfl, trivial⟩
  | tryFull hn => exact ⟨change_of_full hb hn rfl rfl, trivial⟩
  | untilTakes h0 =>
      exact ⟨change_of_counts hb (Or.inr h0) (counts_of_free h0) rfl rfl, trivial⟩
  | unlockEnter => exact ⟨.quiet rfl rfl, hr⟩
  | @unlockLast h h0 =>
      have hch := Change.release (c := .unlock h .dec) (x := x)
        (k := .unlock { h with depth := h.depth - 1 } .release) rfl hr rfl rfl fun _ => rfl
      rw [if_pos h0] at hch
      exact ⟨hch, trivial⟩
  | @unlockDec h h0 =>
      have hch := Change.release (c := .unlock h .dec) (x := x)
        (k := .unlock { h with depth := h.depth - 1 } .leave) rfl hr rfl rfl
        fun he => absurd he h0
      rw [if_neg h0] at hch
      exact ⟨hch, trivial⟩
  | _ => exact ⟨.quiet rfl rfl, trivial⟩

omit [DecidableEq T] in
theorem Change.thisTid (h : Change c x k y) : k.caller.thisTid = c.caller.thisTid := by
  cases h with
  | quiet hh | acquire _ _ hh | release _ _ hh => rw [hh]

/-! ## The owner and its depth -/

variable {s s' : State T Unit Unit (Data T) (Ctl T)} {t u : T} {e : Event T (Ctl T)}

/-- `m_tid` and `m_locks_count` say who holds the lock, and how often. -/
structure Owned (s : State T Unit Unit (Data T) (Ctl T)) : Prop where
  /-- Everybody knows its own thread id. -/
  me : ∀ t, (s.ctl t).caller.thisTid = t
  /-- The counter is below its limit. -/
  bound : s.data.locksCount.toNat < 2 ^ 32 - 1
  /-- There is no owner exactly when the counter is zero. -/
  free : s.data.tid = none ↔ s.data.locksCount = 0#32
  /-- The counter is the depth of the owner. -/
  count : ∀ t, s.data.tid = some t → s.data.locksCount.toNat = (s.ctl t).depth
  /-- Nobody else holds the lock. -/
  others : ∀ t, s.data.tid ≠ some t → (s.ctl t).depth = 0
  /-- Everybody knows what it has to know. -/
  ready : ∀ t, Ready (s.ctl t)

/-- A worker that holds the lock is the owner. -/
theorem Owned.tid_of_depth (h : Owned s) (hd : 0 < (s.ctl t).depth) : s.data.tid = some t := by
  by_contra hn
  rw [h.others t hn] at hd
  omega

omit [DecidableEq T] in
/-- Whoever acquires the lock is the owner already, or there is none. -/
theorem Owned.acquirable (h : Owned s)
    (hf : s.data.tid = some (s.ctl t).caller.thisTid ∨ s.data.locksCount = 0#32) :
    (s.data.tid = some t ∨ s.data.tid = none) ∧
      s.data.locksCount.toNat = (s.ctl t).depth ∧ ∀ u, u ≠ t → (s.ctl u).depth = 0 := by
  rw [h.me t] at hf
  rcases hf with ht | h0
  · refine ⟨Or.inl ht, h.count t ht, fun u hu => h.others u ?_⟩
    rw [ht]
    exact fun he => hu (Option.some.inj he).symm
  · have hn := h.free.mpr h0
    refine ⟨Or.inr hn, ?_, fun u _ => h.others u (by rw [hn]; nofun)⟩
    rw [h.others t (by rw [hn]; nofun), h0]
    rfl

/-- **One change** keeps the owner and the counter true. -/
theorem Owned.change (h : Owned s) (hc : s'.ctl = Function.update s.ctl t (s'.ctl t))
    (hch : Change (s.ctl t) s.data (s'.ctl t) s'.data)
    (hme : ∀ u, (s'.ctl u).caller.thisTid = u) (hready : ∀ u, Ready (s'.ctl u)) : Owned s' := by
  have hother : ∀ u, u ≠ t → s'.ctl u = s.ctl u := fun u hu => by
    rw [hc, Function.update_of_ne hu]
  generalize hd : s'.data = y at hch
  generalize hk : s'.ctl t = k at hch
  cases hch with
  | quiet hh hs =>
      have hdepth : ∀ u, (s'.ctl u).depth = (s.ctl u).depth := fun u => by
        by_cases hu : u = t
        · rw [hu, hk, Ctl.depth, Ctl.depth, hh]
        · rw [hother u hu]
      refine ⟨hme, ?_, ?_, fun u hu => ?_, fun u hu => ?_, hready⟩
      · rw [hd]
        exact h.bound
      · rw [hd]
        exact h.free
      · rw [hd] at hu ⊢
        rw [hdepth, h.count u hu]
      · rw [hd] at hu
        rw [hdepth, h.others u hu]
  | acquire hf hn hh hs =>
      -- the counter was the depth of the caller, and is again
      obtain ⟨_, hcount, hzero⟩ := h.acquirable hf
      have hsucc := toNat_succ h.bound
      rw [h.me t] at hd
      refine ⟨hme, ?_, ?_, fun u hu => ?_, fun u hu => ?_, hready⟩
      · rw [hd, hsucc]
        exact hn
      · rw [hd, eq_zero_iff_toNat, hsucc]
        simp
      · rw [hd] at hu ⊢
        cases hu
        rw [hsucc, hcount, hk, Ctl.depth, Ctl.depth, hh]
      · rw [hd] at hu
        have hut : u ≠ t := fun he => hu (by rw [he])
        rw [hother u hut, hzero u hut]
  | release _ hpos hh hs _ =>
      -- the caller is the owner, so its depth is the counter before and after
      have ht := h.tid_of_depth hpos
      have hcount := h.count t ht
      have hpos' : 0 < s.data.locksCount.toNat := by
        rw [hcount]
        exact hpos
      have hdec := toNat_rmtxDecLc hpos'
      have hbound : (rmtxDecLc s.data.locksCount).toNat < 2 ^ 32 - 1 := by
        have := h.bound
        omega
      have hdepth : (s'.ctl t).depth = (rmtxDecLc s.data.locksCount).toNat := by
        rw [hk, Ctl.depth, hh]
        rw [Ctl.depth] at hcount
        simp only
        omega
      have hothers : ∀ u, u ≠ t → (s'.ctl u).depth = 0 := fun u hu => by
        rw [hother u hu]
        refine h.others u ?_
        rw [ht]
        exact fun he => hu (Option.some.inj he).symm
      rw [ht] at hd
      by_cases h0 : rmtxDecLc s.data.locksCount = 0#32
      · rw [if_pos h0] at hd
        refine ⟨hme, ?_, ?_, fun u hu => ?_, fun u hu => ?_, hready⟩
        · rw [hd]
          exact hbound
        · rw [hd]
          simp [h0]
        · rw [hd] at hu
          cases hu
        · by_cases hut : u = t
          · rw [hut, hdepth, h0]
            rfl
          · exact hothers u hut
      · rw [if_neg h0] at hd
        refine ⟨hme, ?_, ?_, fun u hu => ?_, fun u hu => ?_, hready⟩
        · rw [hd]
          exact hbound
        · rw [hd]
          simp [h0]
        · rw [hd] at hu ⊢
          cases hu
          rw [hdepth]
        · rw [hd] at hu
          exact hothers u fun he => hu (by rw [he])

theorem Owned.step (hs : Step code s e s') (h : Owned s) : Owned s' := by
  have hchange : ∀ t, Jump code s.now (s.ctl t) s.data (s'.ctl t) s'.data →
      Change (s.ctl t) s.data (s'.ctl t) s'.data ∧ Ready (s'.ctl t) := fun t hj =>
    change_of_jump hj h.bound (h.ready t)
  have hme : ∀ u, (s'.ctl u).caller.thisTid = u := by
    refine hs.forall_ctl (Q := fun u (c : Ctl T) _ => c.caller.thisTid = u) (fun t hj => ?_)
      (fun _ _ _ _ hme => hme) h.me
    rw [(hchange t hj).1.thisTid, h.me]
  have hready : ∀ u, Ready (s'.ctl u) :=
    hs.forall_ctl (Q := fun _ c _ => Ready c) (fun t hj => (hchange t hj).2)
      (fun _ _ _ _ hr => hr) h.ready
  rcases hs.jump with ⟨hc, hd⟩ | ⟨t, hc, hj⟩
  · refine ⟨hme, ?_, ?_, fun u hu => ?_, fun u hu => ?_, hready⟩
    · rw [hd]
      exact h.bound
    · rw [hd]
      exact h.free
    · rw [hd] at hu ⊢
      rw [hc]
      exact h.count u hu
    · rw [hd] at hu
      rw [hc]
      exact h.others u hu
  · exact h.change hc (hchange t hj).1 hme hready

theorem owned_reachable (h : (machine T).Reachable s) : Owned s := by
  refine Lib.Machine.Reach.invariant ?_ ?_ h
  · rintro s ⟨now, rfl⟩
    exact ⟨fun _ => rfl, Nat.zero_lt_succ _, by simp [State.start], nofun, fun _ _ => rfl,
      fun _ => trivial⟩
  · intro s e s' _ _ hs hi
    exact hi.step (step_of_next hs)

/-! ## An acquisition that fails -/

/-- A worker inside an acquisition that has not succeeded has come there from its own code. -/
theorem acquiring_of_jump (hj : Jump code now c x k y) (hk : k.acquiring = true) :
    c.acquiring = true ∨ c.isIdle = true := by
  cases goes_of_jump hj with
  | calls => exact Or.inr rfl
  | lockLeave | tryLeave | untilLeave | unlockEnter | unlockLast | unlockDec | unlockLeave
  | unlockRelease | unlockNotify => cases hk
  | _ => exact Or.inl rfl

/-- Nobody gets into an acquisition but by calling it. -/
theorem acquiring_of_next (hs : next code s e = some s') (he : ∀ k, e ≠ .choose t k)
    (ha : (s'.ctl t).acquiring = true) : (s.ctl t).acquiring = true := by
  rcases jump_of_next hs he with hc | ⟨hno, hj⟩
  · rwa [hc] at ha
  · rcases acquiring_of_jump hj ha with hin | hidle
    · exact hin
    · cases hc : s.ctl t with
      | idle h => exact absurd (by rw [hc]; rfl) (hno (Ctl.calls h))
      | _ =>
          rw [hc] at hidle
          cases hidle

omit [DecidableEq T] in
theorem acquiring_of_failed (h : c.failed = true) : c.acquiring = true := by
  unfold Ctl.failed at h
  split at h <;> first | rfl | cases h

omit [DecidableEq T] in
theorem not_succeeded (h : c.acquiring = true) : c.succeeded = false := by
  by_contra hs
  unfold Ctl.succeeded at hs
  split at hs <;> first | cases h | exact hs rfl

/-- **A step of an acquisition changes nothing, or it succeeds.** -/
theorem acquiring_step (ho : Owned s) (hs : next code s (.step t) = some s')
    (hc : (s.ctl t).acquiring = true) : s'.data = s.data ∨ (s'.ctl t).succeeded = true := by
  by_cases hd : s'.data = s.data
  · exact Or.inl hd
  · obtain ⟨u, f, he, _, hj, _⟩ := (step_of_next hs).jump_of_data hd
    cases he
    obtain ⟨hch, _⟩ := change_of_jump hj ho.bound (ho.ready t)
    generalize s'.ctl t = k at hch hj ⊢
    generalize s'.data = y at hch hd hj ⊢
    -- a worker that unlocks is not in an acquisition
    cases hch with
    | quiet => exact absurd rfl hd
    | acquire _ _ _ hk => exact Or.inr hk
    | release hno =>
        rw [hc] at hno
        cases hno

/-- No step of an acquisition that fails in the end changes anything. -/
theorem failed_run (es : List (Event T (Ctl T))) (h : (machine T).Reachable s)
    (hr : (machine T).run s es = some s') (hf : (s'.ctl t).failed = true)
    (he : ∀ e ∈ es, ∀ k, e ≠ .choose t k) :
    (machine T).Meets
      (fun q e => e = .step t → ∀ q', (machine T).next q e = some q' → q'.data = q.data) s es := by
  -- what has failed in the end has been inside the acquisition all along
  obtain ⟨_, hmeets⟩ := Lib.Machine.meets_of_back (A := fun s => (s.ctl t).acquiring = true)
    (fun _ _ _ _ he hn ha => acquiring_of_next hn he ha) es h hr he (acquiring_of_failed hf)
  refine hmeets.mono fun q e hq => ?_
  rintro rfl q' hn
  obtain ⟨hreach, ha, hkeep⟩ := hq
  refine (acquiring_step (owned_reachable hreach) hn ha).resolve_right fun hs => ?_
  rw [not_succeeded (hkeep q' hn)] at hs
  cases hs

/-- A step that completes an acquisition is one of a worker that may have the lock. -/
theorem succeeded_step (ho : Owned s) (hs : next code s e = some s')
    (hn : (s.ctl t).succeeded = false) (hk : (s'.ctl t).succeeded = true) :
    (s.data.tid = some t ∨ s.data.tid = none) ∧ s'.data.tid = some t ∧
      (s'.ctl t).depth = (s.ctl t).depth + 1 := by
  cases (step_of_next hs).moves t with
  | stays hc | inside hc =>
      rw [hc, hn] at hk
      cases hk
  | jumps hj =>
      obtain ⟨hch, _⟩ := change_of_jump hj ho.bound (ho.ready t)
      generalize s'.ctl t = k at hch hk ⊢
      generalize s'.data = y at hch ⊢
      cases hch with
      | quiet _ hno | release _ _ _ hno =>
          rw [hk] at hno
          cases hno
      | acquire hf _ hh =>
          refine ⟨(ho.acquirable hf).1, congrArg some (ho.me t), ?_⟩
          rw [Ctl.depth, Ctl.depth, hh]

/--
**The recursive timed mutex is a reentrant lock.** There is no owner exactly when the counter is
zero, and otherwise the counter is the number of acquisitions of the owner minus its
unlocks, and nobody else has any; the counter stays below its limit. An acquisition
succeeds only if the caller is the owner or there is none, and one that fails, in
whatever way, has changed neither the owner nor the counter.
-/
theorem reentrant_timed_lock (h : (machine T).Reachable s) :
    (s.data.tid = none ↔ s.data.locksCount = 0#32) ∧
    (∀ t, s.data.tid = some t → s.data.locksCount.toNat = (s.ctl t).depth ∧
      ∀ u, u ≠ t → (s.ctl u).depth = 0) ∧
    (s.data.tid = none → ∀ u, (s.ctl u).depth = 0) ∧
    s.data.locksCount.toNat < 2 ^ 32 - 1 ∧
    (∀ e s' t, (machine T).next s e = some s' → (s.ctl t).succeeded = false →
      (s'.ctl t).succeeded = true → (s.data.tid = some t ∨ s.data.tid = none) ∧
        s'.data.tid = some t ∧ (s'.ctl t).depth = (s.ctl t).depth + 1) ∧
    (∀ es s' t, (machine T).run s es = some s' → (∀ e ∈ es, ∀ k, e ≠ .choose t k) →
      (s.ctl t).acquiring = true → (s'.ctl t).failed = true →
      (machine T).Meets (fun q e =>
        e = .step t → ∀ q', (machine T).next q e = some q' → q'.data = q.data) s es) := by
  have ho := owned_reachable h
  refine ⟨ho.free, fun t ht => ⟨ho.count t ht, fun u hu => ho.others u ?_⟩,
    fun hn u => ho.others u (by rw [hn]; nofun), ho.bound,
    fun e s' t hs hn hk => succeeded_step ho hs hn hk,
    fun es s' t hr he _ hf => failed_run es h hr hf he⟩
  rw [ht]
  exact fun he => hu (Option.some.inj he).symm

/-- The owner has the lock twice, and another worker's time is over. -/
theorem reentrant_timed_lock_run : ∃ s, (machine (Fin 2)).Reachable s ∧
    s.data.locksCount.toNat = 2 ∧ (s.ctl 0).depth = 2 ∧ (s.ctl 1).depth = 0 ∧
    (s.ctl 1).failed = true := by
  obtain ⟨s, hr, hp⟩ := Lib.Machine.exists_of_run (M := machine (Fin 2))
    (p := fun s => decide (s.data.tid = some 0 ∧ s.data.locksCount.toNat = 2 ∧
      (s.ctl 1).failed = true)) (.init ⟨0, rfl⟩)
    (List.flatten [
      [.choose 0 (.lock { thisTid := 0 } .enter)], List.replicate 4 (.step 0),
      [.choose 0 (.tryLock { thisTid := 0, depth := 1 } .enter)], List.replicate 3 (.step 0),
      [.choose 1 (.tryLockUntil 0 { thisTid := 1 } .enter)], List.replicate 5 (.step 1)])
    (by decide +kernel)
  obtain ⟨ht, hn, hf⟩ := of_decide_eq_true hp
  obtain ⟨hd, hother⟩ := (reentrant_timed_lock hr).2.1 0 ht
  exact ⟨s, hr, hn, by rw [← hd, hn], hother 1 (by decide), hf⟩

/-! ## Nobody sleeps beside a free lock -/

/-- What a worker knows of the counter, and of itself. -/
structure Known (c : Ctl T) (x : Data T) : Prop where
  /-- The counter is below its limit. -/
  bound : x.locksCount.toNat < 2 ^ 32 - 1
  /-- What it has found out. -/
  ready : Ready c

theorem known_reachable (h : (machine T).Reachable s) (t : T) : Known (s.ctl t) s.data :=
  ⟨(owned_reachable h).bound, (owned_reachable h).ready t⟩

omit [DecidableEq T] in
/-- Counting in a caller does not leave the counter at zero. -/
theorem inc_not_free (hb : x.locksCount.toNat < 2 ^ 32 - 1) :
    (rmtxIncLc x.locksCount).1 ≠ 0#32 := by
  rw [ne_eq, eq_zero_iff_toNat]
  by_cases hn : (rmtxIncLc x.locksCount).2 = true
  · rw [(rmtxIncLc_counts hb hn).2, toNat_succ hb]
    omega
  · obtain ⟨he, hsame⟩ := rmtxIncLc_full hb hn
    rw [hsame]
    omega

omit [DecidableEq T] in
theorem waits_inc {h : Caller T} {ret : Caller T → Outcome → Ctl T} {o : Outcome}
    (hr : ∀ h o, (ret h o).waits = none) : (inc h x ret o).2.waits = none := by
  unfold inc
  split
  · exact hr _ _
  · exact hr _ _

theorem contends : Contends (code (T := T)) holds () () Known
    (fun x => x.locksCount = 0#32) Ctl.waits where
  await c g a hc := by
    cases c with
    | lock h p =>
        cases p with
        | wait again b =>
            cases hc
            refine ⟨fun x => x.locksCount == 0#32, none, fun b => .lock h (.wait true b),
              fun _ x =>
                inc h { x with tid := some h.thisTid } (fun h o => .lock h (.leave o)) .threw,
              rfl, fun _ => rfl, fun _ _ => waits_inc fun _ _ => rfl, ?_⟩
            intro x hx
            simpa using hx
        | _ => cases hc
    | tryLockUntil d h p =>
        cases p with
        | wait again b =>
            cases hc
            refine ⟨fun x => x.locksCount == 0#32, some d,
              fun b => .tryLockUntil d h (.wait true b),
              fun _ x =>
                if x.locksCount = 0#32 then
                  ({ tid := some h.thisTid, locksCount := (rmtxIncLc x.locksCount).1 },
                    .tryLockUntil d { h with depth := h.depth + 1 } (.leave .acquired))
                else (x, .tryLockUntil d h (.leave .failed)), rfl, fun _ => rfl, ?_, ?_⟩
            · intro r x
              simp only
              split <;> rfl
            · intro x hx
              simpa using hx
        | _ => cases hc
    | _ => cases hc
  fresh {now c x k y g a} hj hc hk := by
    cases goes_of_jump hj with
    | calls hcall =>
        unfold Ctl.calls at hcall
        split at hcall <;> first | cases hk | cases hcall
    | lockWait | untilWait =>
        cases hk
        rfl
    | lockOn | untilOn => cases hc
    | _ => cases hk
  only c m' d k hc hn := by
    cases c with
    | idle h => cases hc
    | lock h p | tryLockUntil d h p => cases p <;> first | cases hc | cases hn
    | tryLock h p | unlock h p => cases p <;> cases hc
  guarded c hc := by
    unfold Ctl.waits at hc
    split at hc
    · rfl
    · rfl
    · exact absurd rfl hc
  takes {now c x k y} hj hkn hc hk := by
    cases goes_of_jump hj with
    | lockTakes | lockThrows | untilTakes => exact inc_not_free hkn.bound
    | untilFails h0 => exact h0
    | lockOn | untilOn => cases hk
    | _ => exact absurd rfl hc

/-- The owner and the counter are only changed with `m_mtx`. -/
theorem holds_of_jump (hj : Jump code now c x k y) (hne : y ≠ x) : holds c () = true := by
  cases goes_of_jump hj with
  | lockAgain | lockFull | lockTakes | lockThrows | tryTakes | tryFull | untilAgain | untilFull
  | untilTakes | unlockLast | unlockDec => rfl
  | _ => exact absurd rfl hne

/-- The lock is freed by `unlock` only, which then owes a notification. -/
theorem notifies_of_frees (hj : Jump code now c x k y) (hk : Known c x)
    (hf : y.locksCount = 0#32) (hn : x.locksCount ≠ 0#32) : k.notifies = true := by
  obtain ⟨hch, _⟩ := change_of_jump hj hk.bound hk.ready
  cases hch with
  | quiet => exact absurd hf hn
  | acquire =>
      rw [eq_zero_iff_toNat, toNat_succ hk.bound] at hf
      omega
  | release _ _ _ _ ho => exact ho hf

/-- A notification is owed until it is performed. -/
theorem notifies_of_jump (hj : Jump code now c x k y) (hc : c.notifies = true) :
    k.notifies = true ∨ code c = .notifyOne () k := by
  cases goes_of_jump hj with
  | unlockRelease => exact Or.inl rfl
  | unlockNotify => exact Or.inr rfl
  | _ => cases hc

/-- **Nobody sleeps beside a free recursive timed mutex** without a wakeup on its way. -/
theorem awaited (h : (machine T).Reachable s) (hf : s.data.locksCount = 0#32)
    (ha : Asleep code s () t) :
    (∃ u, (s.ctl u).notifies = true) ∨
      ∃ u, u ≠ t ∧ (Roused code s () u ∨ retests Ctl.waits (s.ctl u) = true) :=
  contends.not_stranded
    (contends.relay (fun hj hne => holds_of_jump hj hne)
      (fun hj hk hf hn => notifies_of_frees hj hk hf hn) fun hj hc => notifies_of_jump hj hc)
    disciplined (fun _ _ => rfl) (fun _ hs t => known_reachable hs t) h ha hf

end

end Ums.RecursiveTimedMutex

namespace Ums

open Monitor

/--
**Timed locks never strand a waiter.** Whenever a `Timed_mutex` or a `Recursive_timed_mutex` is
free and a worker is blocked un-notified in its condition variable, a worker inside
`unlock` has yet to perform its `notify_one`, or another waiter has been notified or has
timed out, and has yet to test the lock again.
-/
theorem timed_locks_never_strand (T : Type) [DecidableEq T] :
    (∀ s t, (TimedMutex.machine T).Reachable s → s.data = false →
      Asleep TimedMutex.code s () t → (∃ u, (s.ctl u).notifies = true) ∨
        ∃ u, u ≠ t ∧ (Roused TimedMutex.code s () u ∨
          retests TimedMutex.Ctl.waits (s.ctl u) = true)) ∧
    (∀ s t, (RecursiveTimedMutex.machine T).Reachable s → s.data.locksCount = 0#32 →
      Asleep RecursiveTimedMutex.code s () t → (∃ u, (s.ctl u).notifies = true) ∨
        ∃ u, u ≠ t ∧ (Roused RecursiveTimedMutex.code s () u ∨
          retests RecursiveTimedMutex.Ctl.waits (s.ctl u) = true)) :=
  ⟨fun _ _ h hf ha => TimedMutex.awaited h hf ha,
    fun _ _ h hf ha => RecursiveTimedMutex.awaited h hf ha⟩

/-- In both, the owner has just given up the lock, and the other worker sleeps. -/
theorem timed_locks_never_strand_run :
    (∃ s, (TimedMutex.machine (Fin 2)).Reachable s ∧ s.data = false ∧
      Asleep TimedMutex.code s () 1 ∧ ((∃ u, (s.ctl u).notifies = true) ∨
        ∃ u, u ≠ 1 ∧ (Roused TimedMutex.code s () u ∨
          retests TimedMutex.Ctl.waits (s.ctl u) = true))) ∧
    (∃ s, (RecursiveTimedMutex.machine (Fin 2)).Reachable s ∧ s.data.locksCount = 0#32 ∧
      Asleep RecursiveTimedMutex.code s () 1 ∧ ((∃ u, (s.ctl u).notifies = true) ∨
        ∃ u, u ≠ 1 ∧ (Roused RecursiveTimedMutex.code s () u ∨
          retests RecursiveTimedMutex.Ctl.waits (s.ctl u) = true))) := by
  obtain ⟨s, hr, hp⟩ := Lib.Machine.exists_of_run (M := TimedMutex.machine (Fin 2))
    (p := fun s => decide (s.data = false ∧ Asleep TimedMutex.code s () 1)) (.init ⟨0, rfl⟩)
    (List.flatten [
      [.choose 0 (.tryLock false .enter)], List.replicate 3 (.step 0),
      [.choose 1 (.lock false .enter)], List.replicate 5 (.step 1),
      [.choose 0 (.unlock true .enter)], List.replicate 2 (.step 0)])
    (by decide +kernel)
  obtain ⟨q, hq, hp'⟩ := Lib.Machine.exists_of_run (M := RecursiveTimedMutex.machine (Fin 2))
    (p := fun s => decide (s.data.locksCount = 0#32 ∧ Asleep RecursiveTimedMutex.code s () 1))
    (.init ⟨0, rfl⟩)
    (List.flatten [
      [.choose 0 (.tryLock { thisTid := 0 } .enter)], List.replicate 3 (.step 0),
      [.choose 1 (.lock { thisTid := 1 } .enter)], List.replicate 6 (.step 1),
      [.choose 0 (.unlock { thisTid := 0, depth := 1 } .enter)], List.replicate 2 (.step 0)])
    (by decide +kernel)
  obtain ⟨hf, ha⟩ := of_decide_eq_true hp
  obtain ⟨hf', ha'⟩ := of_decide_eq_true hp'
  exact ⟨⟨s, hr, hf, ha, (timed_locks_never_strand (Fin 2)).1 s 1 hr hf ha⟩,
    ⟨q, hq, hf', ha', (timed_locks_never_strand (Fin 2)).2 q 1 hq hf' ha'⟩⟩

end Ums
