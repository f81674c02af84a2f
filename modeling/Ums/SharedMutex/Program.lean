import Ums.Monitor.Client
import Ums.SharedMutex.Word

/-!
# `Shared_mutex` and `Shared_timed_mutex` as a program

One mutex, two condition variables and the state word, with every operation as the
source writes it, statement by statement. `lock` and `try_lock_until` differ in the
deadline only, which `lock` does not have, and so do `lock_shared` and
`try_lock_shared_until`.

A worker carries what it holds. It may call any operation at any time, whatever it
holds, but unlocks only what it does.
-/

namespace Ums.SharedMutex

open Monitor SharedMutexState

/-- The two condition variables. -/
inductive Gate where
  /-- `m_gate1`. -/
  | gate1
  /-- `m_gate2`. -/
  | gate2
  deriving DecidableEq

/-- What a worker holds. -/
structure Held where
  /-- It owns the mutex exclusively. -/
  excl : Bool := false
  /-- How many shared locks it holds. -/
  shared : Nat := 0
  deriving DecidableEq

/-- The statements of `lock` and of `try_lock_until_internal`. -/
inductive LockPoint where
  /-- About to lock `m_mutex`. -/
  | enter
  /-- `m_gate1.wait` or `m_gate1.wait_until`, and whether it has found the gate closed before. -/
  | gate1 (again : Bool) (a : Await Unit)
  /-- `m_state.set_write`. -/
  | setWrite
  /-- `m_gate2.wait` or `m_gate2.wait_until`. -/
  | gate2 (a : Await Unit)
  /-- `m_state.unset_write`, after a time-out. -/
  | unsetWrite
  /-- `lock.unlock`, after a time-out. -/
  | unlock
  /-- `m_gate1.notify_all`, after a time-out. -/
  | notify
  /-- About to unlock `m_mutex` on return. -/
  | leave (result : Bool)
  deriving DecidableEq

/-- The statements of `lock_shared` and of `try_lock_shared_until_internal`. -/
inductive SharedPoint where
  /-- About to lock `m_mutex`. -/
  | enter
  /-- `m_gate1.wait` or `m_gate1.wait_until`, and whether it has found the gate closed before. -/
  | gate1 (again : Bool) (a : Await Unit)
  /-- `m_state.inc_readers`. -/
  | incReaders
  /-- About to unlock `m_mutex` on return. -/
  | leave (result : Bool)
  deriving DecidableEq

/-- The statements of `try_lock` and of `try_lock_shared`. -/
inductive TryPoint where
  /-- About to lock `m_mutex`. -/
  | enter
  /-- Testing the state. -/
  | test
  /-- About to unlock `m_mutex` on return. -/
  | leave (result : Bool)
  deriving DecidableEq

/-- The statements of `unlock`. -/
inductive UnlockPoint where
  /-- About to lock `m_mutex`. -/
  | enter
  /-- `m_state.unset_write`. -/
  | unsetWrite
  /-- About to unlock `m_mutex`. -/
  | leave
  /-- `m_gate1.notify_all`. -/
  | notify
  deriving DecidableEq

/-- The statements of `unlock_shared`, with its local variables. -/
inductive UnlockSharedPoint where
  /-- About to lock `m_mutex`. -/
  | enter
  /-- `m_state.dec_readers`, and the state before and after it. -/
  | decReaders
  /-- About to unlock `m_mutex`. -/
  | leave (maxReaders hasReaders hasWrite : Bool)
  /-- About to notify one of the gates, or nobody. -/
  | notify (maxReaders hasReaders hasWrite : Bool)
  /-- `m_gate2.notify_one`. -/
  | notifyGate2
  /-- `m_gate1.notify_one`. -/
  | notifyGate1
  deriving DecidableEq

/-- Where a worker is. -/
inductive Ctl where
  /-- In its own code. -/
  | idle (h : Held)
  /-- In `lock`, or with a deadline in `try_lock_until_internal`. -/
  | lock (d : Option Time) (h : Held) (p : LockPoint)
  /-- In `try_lock`. -/
  | tryLock (h : Held) (p : TryPoint)
  /-- In `unlock`. -/
  | unlock (h : Held) (p : UnlockPoint)
  /-- In `lock_shared`, or with a deadline in `try_lock_shared_until_internal`. -/
  | lockShared (d : Option Time) (h : Held) (p : SharedPoint)
  /-- In `try_lock_shared`. -/
  | tryLockShared (h : Held) (p : TryPoint)
  /-- In `unlock_shared`. -/
  | unlockShared (h : Held) (p : UnlockSharedPoint)
  deriving DecidableEq

namespace Ctl

/-- What the worker holds there. -/
def held : Ctl → Held
  | .idle h | .lock _ h _ | .tryLock h _ | .unlock h _ | .lockShared _ h _ | .tryLockShared h _
  | .unlockShared h _ => h

/-- What a worker may call. -/
def calls (h : Held) : Ctl → Bool
  | .lock _ h' .enter | .tryLock h' .enter | .lockShared _ h' .enter | .tryLockShared h' .enter =>
    decide (h' = h)
  | .unlock h' .enter => decide (h' = h) && h.excl
  | .unlockShared h' .enter => decide (h' = h) && decide (0 < h.shared)
  | _ => false

end Ctl

/-- A command of this program. -/
abbrev Command := Cmd Unit Gate SharedMutexState Ctl

/-- `lock`, and `try_lock_until_internal` with the deadline `d`. -/
def lockCode (d : Option Time) (h : Held) : LockPoint → Command
  | .enter => .lock () (.lock d h (.gate1 false .test))
  | .gate1 _ a =>
    a.code .gate1 () (fun s => !hasWrite s) d (fun _ => ()) (fun b => .lock d h (.gate1 true b))
      (fun r => .lock d h (if r then .setWrite else .leave false))
  | .setWrite => .act fun _ s => (setWrite s, .lock d h (.gate2 .test))
  | .gate2 a =>
    a.code .gate2 () (fun s => !hasReaders s) d (fun _ => ()) (fun b => .lock d h (.gate2 b))
      (fun r => if r then .lock d { h with excl := true } (.leave true) else .lock d h .unsetWrite)
  | .unsetWrite => .act fun _ s => (unsetWrite s, .lock d h .unlock)
  | .unlock => .unlock () (.lock d h .notify)
  | .notify => .notifyAll .gate1 (.idle h)
  | .leave _ => .unlock () (.idle h)

/-- `try_lock`. -/
def tryLockCode (h : Held) : TryPoint → Command
  | .enter => .lock () (.tryLock h .test)
  | .test =>
    .act fun _ s =>
      if !hasReaders s && !hasWrite s then
        (setWrite s, .tryLock { h with excl := true } (.leave true))
      else (s, .tryLock h (.leave false))
  | .leave _ => .unlock () (.idle h)

/-- `unlock`. -/
def unlockCode (h : Held) : UnlockPoint → Command
  | .enter => .lock () (.unlock h .unsetWrite)
  | .unsetWrite => .act fun _ s => (unsetWrite s, .unlock { h with excl := false } .leave)
  | .leave => .unlock () (.unlock h .notify)
  | .notify => .notifyAll .gate1 (.idle h)

/-- `lock_shared`, and `try_lock_shared_until_internal` with the deadline `d`. -/
def lockSharedCode (d : Option Time) (h : Held) : SharedPoint → Command
  | .enter => .lock () (.lockShared d h (.gate1 false .test))
  | .gate1 _ a =>
    a.code .gate1 () (fun s => !hasWrite s && !maxReaders s) d (fun _ => ())
      (fun b => .lockShared d h (.gate1 true b))
      (fun r => .lockShared d h (if r then .incReaders else .leave false))
  | .incReaders =>
    .act fun _ s => (incReaders s, .lockShared d { h with shared := h.shared + 1 } (.leave true))
  | .leave _ => .unlock () (.idle h)

/-- `try_lock_shared`. -/
def tryLockSharedCode (h : Held) : TryPoint → Command
  | .enter => .lock () (.tryLockShared h .test)
  | .test =>
    .act fun _ s =>
      if !hasWrite s && !maxReaders s then
        (incReaders s, .tryLockShared { h with shared := h.shared + 1 } (.leave true))
      else (s, .tryLockShared h (.leave false))
  | .leave _ => .unlock () (.idle h)

/-- `unlock_shared`. -/
def unlockSharedCode (h : Held) : UnlockSharedPoint → Command
  | .enter => .lock () (.unlockShared h .decReaders)
  | .decReaders =>
    .act fun _ s =>
      (decReaders s, .unlockShared { h with shared := h.shared - 1 }
        (.leave (maxReaders s) (hasReaders (decReaders s)) (hasWrite (decReaders s))))
  | .leave m r w => .unlock () (.unlockShared h (.notify m r w))
  | .notify m r w =>
    .act fun _ s =>
      (s, if w then (if r then .idle h else .unlockShared h .notifyGate2)
        else if m then .unlockShared h .notifyGate1 else .idle h)
  | .notifyGate2 => .notifyOne .gate2 (.idle h)
  | .notifyGate1 => .notifyOne .gate1 (.idle h)

/-- The program. -/
def code : Ctl → Command
  | .idle h => .choose (Ctl.calls h)
  | .lock d h p => lockCode d h p
  | .tryLock h p => tryLockCode h p
  | .unlock h p => unlockCode h p
  | .lockShared d h p => lockSharedCode d h p
  | .tryLockShared h p => tryLockSharedCode h p
  | .unlockShared h p => unlockSharedCode h p

/-- Where `m_mutex` is held. -/
def holds : Ctl → Unit → Bool
  | .idle _, _ => false
  | .lock _ _ .enter, _ | .lock _ _ .notify, _ => false
  | .tryLock _ .enter, _ => false
  | .unlock _ .enter, _ | .unlock _ .notify, _ => false
  | .lockShared _ _ .enter, _ => false
  | .tryLockShared _ .enter, _ => false
  | .unlockShared _ .enter, _ | .unlockShared _ (.notify ..), _ => false
  | .unlockShared _ .notifyGate2, _ | .unlockShared _ .notifyGate1, _ => false
  | _, _ => true

/-- A shared mutex that nobody holds, used by the workers `T`. -/
abbrev machine (T : Type) [DecidableEq T] :
    Lib.Machine (State T Unit Gate SharedMutexState Ctl) (Event T Ctl) :=
  Monitor.machine code (fun _ => .idle {}) 0#32

theorem disciplined : Disciplined code holds := by
  have hset : ∀ (f : Unit → Bool) (b : Bool), Function.update f () b = fun _ => b := fun f b =>
    funext fun m => Function.update_self ..
  intro c
  cases c with
  | idle h =>
      intro k hk
      funext m
      simp only [Ctl.calls] at hk
      split at hk <;> first | rfl | cases hk
  | lock d h p =>
      cases p with
      | enter => exact (hset _ _).symm
      | gate1 again a =>
          rw [code, lockCode]
          refine a.keeps holds _ ?_ ?_ ?_
          · rfl
          · exact fun _ => rfl
          · intro r
            cases r <;> rfl
      | gate2 a =>
          rw [code, lockCode]
          refine a.keeps holds _ ?_ ?_ ?_
          · rfl
          · exact fun _ => rfl
          · intro r
            cases r <;> rfl
      | setWrite | unsetWrite => exact fun _ _ => rfl
      | unlock => exact ⟨rfl, (hset _ _).symm⟩
      | notify => rfl
      | leave => exact ⟨rfl, (hset _ _).symm⟩
  | tryLock h p =>
      cases p with
      | enter => exact (hset _ _).symm
      | test =>
          intro _ x
          simp only
          split <;> rfl
      | leave => exact ⟨rfl, (hset _ _).symm⟩
  | unlock h p =>
      cases p with
      | enter => exact (hset _ _).symm
      | unsetWrite => exact fun _ _ => rfl
      | leave => exact ⟨rfl, (hset _ _).symm⟩
      | notify => rfl
  | lockShared d h p =>
      cases p with
      | enter => exact (hset _ _).symm
      | gate1 again a =>
          rw [code, lockSharedCode]
          refine a.keeps holds _ ?_ ?_ ?_
          · rfl
          · exact fun _ => rfl
          · intro r
            cases r <;> rfl
      | incReaders => exact fun _ _ => rfl
      | leave => exact ⟨rfl, (hset _ _).symm⟩
  | tryLockShared h p =>
      cases p with
      | enter => exact (hset _ _).symm
      | test =>
          intro _ x
          simp only
          split <;> rfl
      | leave => exact ⟨rfl, (hset _ _).symm⟩
  | unlockShared h p =>
      cases p with
      | enter => exact (hset _ _).symm
      | decReaders => exact fun _ _ => rfl
      | leave => exact ⟨rfl, (hset _ _).symm⟩
      | notify m r w =>
          intro _ x
          cases m <;> cases r <;> cases w <;> rfl
      | notifyGate2 | notifyGate1 => rfl

/-! ## What a statement does -/

/-- What a statement does: where it leads, and what becomes of the state word. -/
inductive Goes (x : SharedMutexState) : Ctl → Ctl → SharedMutexState → Prop
  | calls {h k} (hk : k.calls h = true) : Goes x (.idle h) k x
  | lockEnter {d h} : Goes x (.lock d h .enter) (.lock d h (.gate1 false .test)) x
  | lockGate1 {d h g a b} : Goes x (.lock d h (.gate1 g a)) (.lock d h (.gate1 true b)) x
  | lockPasses {d h g a} (hw : hasWrite x = false) :
      Goes x (.lock d h (.gate1 g a)) (.lock d h .setWrite) x
  /-- `lock` gives up at the first gate. -/
  | lockFails {d h g a} : Goes x (.lock d h (.gate1 g a)) (.lock d h (.leave false)) x
  | setWrite {d h} : Goes x (.lock d h .setWrite) (.lock d h (.gate2 .test)) (setWrite x)
  | lockGate2 {d h a b} : Goes x (.lock d h (.gate2 a)) (.lock d h (.gate2 b)) x
  | lockOwns {d h a} (hr : hasReaders x = false) :
      Goes x (.lock d h (.gate2 a)) (.lock d { h with excl := true } (.leave true)) x
  /-- It gives up at the second gate, and takes the write bit back. -/
  | lockGivesUp {d h a} : Goes x (.lock d h (.gate2 a)) (.lock d h .unsetWrite) x
  | unsetWrite {d h} : Goes x (.lock d h .unsetWrite) (.lock d h .unlock) (unsetWrite x)
  | lockUnlock {d h} : Goes x (.lock d h .unlock) (.lock d h .notify) x
  | lockNotify {d h} : Goes x (.lock d h .notify) (.idle h) x
  | lockLeave {d h r} : Goes x (.lock d h (.leave r)) (.idle h) x
  | tryEnter {h} : Goes x (.tryLock h .enter) (.tryLock h .test) x
  /-- `try_lock` passes both gates. -/
  | tryOwns {h} (hr : hasReaders x = false) (hw : hasWrite x = false) :
      Goes x (.tryLock h .test) (.tryLock { h with excl := true } (.leave true))
        (setWrite x)
  | tryFails {h} : Goes x (.tryLock h .test) (.tryLock h (.leave false)) x
  | tryLeave {h r} : Goes x (.tryLock h (.leave r)) (.idle h) x
  | unlockEnter {h} : Goes x (.unlock h .enter) (.unlock h .unsetWrite) x
  | unlockUnset {h} : Goes x (.unlock h .unsetWrite) (.unlock { h with excl := false } .leave)
      (unsetWrite x)
  | unlockLeave {h} : Goes x (.unlock h .leave) (.unlock h .notify) x
  | unlockNotify {h} : Goes x (.unlock h .notify) (.idle h) x
  | sharedEnter {d h} : Goes x (.lockShared d h .enter) (.lockShared d h (.gate1 false .test)) x
  | sharedGate1 {d h g a b} :
      Goes x (.lockShared d h (.gate1 g a)) (.lockShared d h (.gate1 true b)) x
  | sharedPasses {d h g a} (hw : hasWrite x = false) (hm : maxReaders x = false) :
      Goes x (.lockShared d h (.gate1 g a)) (.lockShared d h .incReaders) x
  | sharedFails {d h g a} :
      Goes x (.lockShared d h (.gate1 g a)) (.lockShared d h (.leave false)) x
  | incReaders {d h} : Goes x (.lockShared d h .incReaders)
      (.lockShared d { h with shared := h.shared + 1 } (.leave true)) (incReaders x)
  | sharedLeave {d h r} : Goes x (.lockShared d h (.leave r)) (.idle h) x
  | trySharedEnter {h} : Goes x (.tryLockShared h .enter) (.tryLockShared h .test) x
  | trySharedTakes {h} (hw : hasWrite x = false) (hm : maxReaders x = false) :
      Goes x (.tryLockShared h .test)
        (.tryLockShared { h with shared := h.shared + 1 } (.leave true))
        (incReaders x)
  | trySharedFails {h} : Goes x (.tryLockShared h .test) (.tryLockShared h (.leave false)) x
  | trySharedLeave {h r} : Goes x (.tryLockShared h (.leave r)) (.idle h) x
  | unsharedEnter {h} : Goes x (.unlockShared h .enter) (.unlockShared h .decReaders) x
  | decReaders {h} : Goes x (.unlockShared h .decReaders)
      (.unlockShared { h with shared := h.shared - 1 }
        (.leave (maxReaders x) (hasReaders (decReaders x)) (hasWrite (decReaders x))))
      (decReaders x)
  | unsharedLeave {h m r w} :
      Goes x (.unlockShared h (.leave m r w)) (.unlockShared h (.notify m r w)) x
  | picksGate2 {h m} :
      Goes x (.unlockShared h (.notify m false true)) (.unlockShared h .notifyGate2) x
  | picksGate1 {h r} :
      Goes x (.unlockShared h (.notify true r false)) (.unlockShared h .notifyGate1) x
  /-- `unlock_shared` has nobody to notify. -/
  | picksNobody {h m r w} : Goes x (.unlockShared h (.notify m r w)) (.idle h) x
  | notifyGate2 {h} : Goes x (.unlockShared h .notifyGate2) (.idle h) x
  | notifyGate1 {h} : Goes x (.unlockShared h .notifyGate1) (.idle h) x

variable {c k : Ctl} {x y : SharedMutexState} {now : Time} {d : Option Time} {h : Held}

theorem goes_of_lock {p : LockPoint} (hj : Jump code now (.lock d h p) x k y) :
    Goes x (.lock d h p) k y := by
  cases p with
  | enter => cases hj with | _ hc => cases hc <;> exact .lockEnter
  | gate1 again a =>
      have hc : code (.lock d h (.gate1 again a)) = lockCode d h (.gate1 again a) := rfl
      rw [lockCode] at hc
      obtain ⟨rfl, ⟨b, rfl⟩ | rfl⟩ := Await.jump hc hj
      · exact .lockGate1
      · cases hw : hasWrite y with
        | false => exact .lockPasses hw
        | true => exact .lockFails
  | setWrite => cases hj with | _ hc => cases hc <;> exact .setWrite
  | gate2 a =>
      have hc : code (.lock d h (.gate2 a)) = lockCode d h (.gate2 a) := rfl
      rw [lockCode] at hc
      obtain ⟨rfl, ⟨b, rfl⟩ | rfl⟩ := Await.jump hc hj
      · exact .lockGate2
      · cases hr : hasReaders y with
        | false => exact .lockOwns hr
        | true => exact .lockGivesUp
  | unsetWrite => cases hj with | _ hc => cases hc <;> exact .unsetWrite
  | unlock => cases hj with | _ hc => cases hc <;> exact .lockUnlock
  | notify => cases hj with | _ hc => cases hc <;> exact .lockNotify
  | leave => cases hj with | _ hc => cases hc <;> exact .lockLeave

theorem goes_of_lockShared {p : SharedPoint} (hj : Jump code now (.lockShared d h p) x k y) :
    Goes x (.lockShared d h p) k y := by
  cases p with
  | enter => cases hj with | _ hc => cases hc <;> exact .sharedEnter
  | gate1 again a =>
      have hc : code (.lockShared d h (.gate1 again a)) = lockSharedCode d h (.gate1 again a) := rfl
      rw [lockSharedCode] at hc
      obtain ⟨rfl, ⟨b, rfl⟩ | rfl⟩ := Await.jump hc hj
      · exact .sharedGate1
      · cases hp : (!hasWrite y && !maxReaders y) with
        | false => exact .sharedFails
        | true =>
            simp only [Bool.and_eq_true, Bool.not_eq_true'] at hp
            exact .sharedPasses hp.1 hp.2
  | incReaders => cases hj with | _ hc => cases hc <;> exact .incReaders
  | leave => cases hj with | _ hc => cases hc <;> exact .sharedLeave

theorem goes_of_unlockShared {p : UnlockSharedPoint}
    (hj : Jump code now (.unlockShared h p) x k y) : Goes x (.unlockShared h p) k y := by
  cases p with
  | enter => cases hj with | _ hc => cases hc <;> exact .unsharedEnter
  | decReaders => cases hj with | _ hc => cases hc <;> exact .decReaders
  | leave => cases hj with | _ hc => cases hc <;> exact .unsharedLeave
  | notify m r w =>
      cases hj with
      | act hc =>
          cases hc
          cases w with
          | true =>
              cases r with
              | true => exact .picksNobody
              | false => exact .picksGate2
          | false =>
              cases m with
              | true => exact .picksGate1
              | false => exact .picksNobody
      | _ hc => cases hc
  | notifyGate2 => cases hj with | _ hc => cases hc <;> exact .notifyGate2
  | notifyGate1 => cases hj with | _ hc => cases hc <;> exact .notifyGate1

/-- **Every statement does one of these things.** -/
theorem goes_of_jump (hj : Jump code now c x k y) : Goes x c k y := by
  cases c with
  | idle h =>
      cases hj with
      | choose hc hk =>
          cases hc
          exact .calls hk
      | _ hc => cases hc
  | lock d h p => exact goes_of_lock hj
  | tryLock h p =>
      cases p with
      | enter => cases hj with | _ hc => cases hc <;> exact .tryEnter
      | test =>
          cases hj with
          | act hc =>
              cases hc
              simp only
              split
              · rename_i hp
                simp only [Bool.and_eq_true, Bool.not_eq_true'] at hp
                exact .tryOwns hp.1 hp.2
              · exact .tryFails
          | _ hc => cases hc
      | leave => cases hj with | _ hc => cases hc <;> exact .tryLeave
  | unlock h p =>
      cases p with
      | enter => cases hj with | _ hc => cases hc <;> exact .unlockEnter
      | unsetWrite => cases hj with | _ hc => cases hc <;> exact .unlockUnset
      | leave => cases hj with | _ hc => cases hc <;> exact .unlockLeave
      | notify => cases hj with | _ hc => cases hc <;> exact .unlockNotify
  | lockShared d h p => exact goes_of_lockShared hj
  | tryLockShared h p =>
      cases p with
      | enter => cases hj with | _ hc => cases hc <;> exact .trySharedEnter
      | test =>
          cases hj with
          | act hc =>
              cases hc
              simp only
              split
              · rename_i hp
                simp only [Bool.and_eq_true, Bool.not_eq_true'] at hp
                exact .trySharedTakes hp.1 hp.2
              · exact .trySharedFails
          | _ hc => cases hc
      | leave => cases hj with | _ hc => cases hc <;> exact .trySharedLeave
  | unlockShared h p => exact goes_of_unlockShared hj

end Ums.SharedMutex
