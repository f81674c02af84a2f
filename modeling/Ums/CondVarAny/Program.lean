import Ums.Monitor.Discipline

/-!
# `Condition_variable_any`

The text of `Condition_variable_any::wait` and `wait_until`, with a predicate and without,
and of its notifications, under any number of workers. The user's lock is whatever
`BasicLockable` describes; `*m_mtx` is the one mutex of the program, `m_cv` its one
condition variable. The objects of `wait` are destroyed in the opposite order of their
construction: `lock_guard` unlocks `*m_mtx`, `Scoped_unlock` locks the user's lock,
and `unique_lock` has nothing left to unlock.

At each moment a worker may lock the user's lock, and with that lock unlock it, change
the data or wait; it may notify with the lock and without. The data carry the number of
changes made so far, which a worker notes when it gives up the user's lock in a wait, and
when it calls `notify_all`.
-/

namespace Ums.CondVarAny

open Monitor

/-- What the user's lock does: `BasicLockable`. -/
structure BasicLockable (T L : Type) where
  /-- Nobody has it. -/
  init : L
  /-- `lock`, or nothing while it has to wait. -/
  lock : T → L → Option L
  /-- `unlock`. -/
  unlock : T → L → L
  /-- The worker has the lock. -/
  has : T → L → Bool
  /-- Nobody has it at first. -/
  has_init : ∀ t, has t init = false
  /-- When `lock` returns, its caller has the lock, and the others have what they had. -/
  has_lock : ∀ t x y, has t x = false → lock t x = some y →
    has t y = true ∧ ∀ u, u ≠ t → has u y = has u x
  /-- `unlock` takes it away from its caller, and from nobody else. -/
  has_unlock : ∀ t x, has t x = true →
    has t (unlock t x) = false ∧ ∀ u, u ≠ t → has u (unlock t x) = has u x

/-- The data of the program. -/
structure Data (L D : Type) where
  /-- The user's lock. -/
  lock : L
  /-- What the predicates are about. -/
  value : D
  /-- How often it was changed. -/
  version : Nat := 0
  /-- The latest change that a `notify_all` which has returned was called after. -/
  announced : Nat := 0

/-- A worker as it calls the operations. -/
structure Caller (T : Type) where
  /-- The worker. -/
  thisTid : T
  /-- It has the user's lock. -/
  locked : Bool := false
  deriving DecidableEq

/-- The four ways to wait. -/
inductive Call (D : Type) where
  /-- `wait(lock)`. -/
  | wait
  /-- `wait(lock, pred)`. -/
  | waitPred (pred : D → Bool)
  /-- `wait_until(lock, abs_time)`. -/
  | waitUntil (absTime : Time)
  /-- `wait_until(lock, abs_time, pred)`. -/
  | waitUntilPred (absTime : Time) (pred : D → Bool)

/-- `pred`. -/
def Call.pred {D : Type} : Call D → Option (D → Bool)
  | .waitPred pred | .waitUntilPred _ pred => some pred
  | .wait | .waitUntil _ => none

/-- `abs_time`. -/
def Call.absTime {D : Type} : Call D → Option Time
  | .waitUntil d | .waitUntilPred d _ => some d
  | .wait | .waitPred _ => none

/-- The statements of a wait. -/
inductive WaitPoint where
  /-- `while (!pred())`. -/
  | test
  /-- `unique_lock`, about to lock `*m_mtx`. -/
  | innerLock
  /-- `Scoped_unlock`, about to unlock the user's lock. -/
  | userUnlock
  /-- `m_cv.wait_until`, about to compare the clock; with the changes it had seen. -/
  | clock (seen : Nat)
  /-- `wait_internal`. -/
  | body (seen : Nat)
  /-- `wait_until_internal`, about to compare the clock. -/
  | status
  /-- `~lock_guard`, about to unlock `*m_mtx`. -/
  | innerUnlock (timeout : Bool)
  /-- `~Scoped_unlock`, about to lock the user's lock. -/
  | userLock (timeout : Bool)
  /-- All objects are destroyed. -/
  | after (timeout : Bool)
  /-- `return pred()`, after a time-out. -/
  | last
  deriving DecidableEq

/-- The statements of `notify_one`. -/
inductive OnePoint where
  /-- About to lock `*m_mtx`. -/
  | enter
  /-- About to unlock it. -/
  | leave
  /-- `m_cv.notify_one`. -/
  | notify
  deriving DecidableEq

/-- The statements of `notify_all`, with the changes it was called after. -/
inductive AllPoint where
  /-- Called. -/
  | call
  /-- About to lock `*m_mtx`. -/
  | enter (stamp : Nat)
  /-- About to unlock it. -/
  | leave (stamp : Nat)
  /-- `m_cv.notify_all`. -/
  | notify (stamp : Nat)
  /-- It has just returned. -/
  | returned (stamp : Nat)
  deriving DecidableEq

/-- Where a worker is. -/
inductive Ctl (T D : Type) where
  /-- In its own code. -/
  | own (h : Caller T)
  /-- `lock` of the user's lock. -/
  | lock (h : Caller T)
  /-- `unlock` of the user's lock. -/
  | unlock (h : Caller T)
  /-- About to change the data. -/
  | change (h : Caller T) (value : D)
  /-- In a wait. -/
  | wait (h : Caller T) (call : Call D) (p : WaitPoint)
  /-- In `notify_one`. -/
  | notifyOne (h : Caller T) (p : OnePoint)
  /-- In `notify_all`. -/
  | notifyAll (h : Caller T) (p : AllPoint)

variable {T L D : Type}

/-- Where a wait begins. -/
def Call.first (call : Call D) : WaitPoint := if call.pred.isSome then .test else .innerLock

/-- What a worker may call. -/
def Ctl.calls [DecidableEq T] (h : Caller T) : Ctl T D → Bool
  | .lock h' => decide (h' = h) && !h.locked
  | .unlock h' | .change h' _ => decide (h' = h) && h.locked
  | .wait h' call p => decide (h' = h) && h.locked && decide (p = call.first)
  | .notifyOne h' .enter | .notifyAll h' .call => decide (h' = h)
  | _ => false

/-- A command of this program. -/
abbrev Command (T L D : Type) := Cmd Unit Unit (Data L D) (Ctl T D)

section

variable [DecidableEq T] (b : BasicLockable T L)

/-- The worker has the user's lock. -/
def Caller.has (h : Caller T) : Caller T := { h with locked := true }

/-- A wait. The user's lock is tried again as long as its `lock` has to wait. -/
def waitCode (h : Caller T) (call : Call D) : WaitPoint → Command T L D
  | .test =>
    .act fun _ x =>
      (x, if call.pred.all fun pred => pred x.value then .own h.has else .wait h call .innerLock)
  | .innerLock => .lock () (.wait h call .userUnlock)
  | .userUnlock =>
    .act fun _ x =>
      ({ x with lock := b.unlock h.thisTid x.lock },
        .wait h call (if call.absTime.isSome then .clock x.version else .body x.version))
  | .clock seen =>
    .act fun now x =>
      (x, .wait h call (if now ≥ call.absTime.getD Time.max then .innerUnlock true else .body seen))
  | .body _ =>
    .wait () () (call.absTime.getD Time.max)
      (.wait h call (if call.absTime.isSome then .status else .innerUnlock false))
  | .status =>
    .act fun now x =>
      (x, .wait h call (.innerUnlock (decide (now ≥ call.absTime.getD Time.max))))
  | .innerUnlock timeout => .unlock () (.wait h call (.userLock timeout))
  | .userLock timeout =>
    .act fun _ x =>
      match b.lock h.thisTid x.lock with
      | some l => ({ x with lock := l }, .wait h call (.after timeout))
      | none => (x, .wait h call (.userLock timeout))
  | .after timeout =>
    .act fun _ x =>
      (x, if call.pred.isSome then .wait h call (if timeout then .last else .test) else .own h.has)
  | .last => .act fun _ x => (x, .own h.has)

/-- `notify_one`. -/
def notifyOneCode (h : Caller T) : OnePoint → Command T L D
  | .enter => .lock () (.notifyOne h .leave)
  | .leave => .unlock () (.notifyOne h .notify)
  | .notify => .notifyOne () (.own h)

/-- `notify_all`. -/
def notifyAllCode (h : Caller T) : AllPoint → Command T L D
  | .call => .act fun _ x => (x, .notifyAll h (.enter x.version))
  | .enter n => .lock () (.notifyAll h (.leave n))
  | .leave n => .unlock () (.notifyAll h (.notify n))
  | .notify n => .notifyAll () (.notifyAll h (.returned n))
  | .returned n => .act fun _ x => ({ x with announced := max x.announced n }, .own h)

/-- The program. -/
def code : Ctl T D → Command T L D
  | .own h => .choose (Ctl.calls h)
  | .lock h =>
    .act fun _ x =>
      match b.lock h.thisTid x.lock with
      | some l => ({ x with lock := l }, .own h.has)
      | none => (x, .lock h)
  | .unlock h =>
    .act fun _ x => ({ x with lock := b.unlock h.thisTid x.lock }, .own { h with locked := false })
  | .change h value =>
    .act fun _ x => ({ x with value := value, version := x.version + 1 }, .own h.has)
  | .wait h call p => waitCode b h call p
  | .notifyOne h p => notifyOneCode h p
  | .notifyAll h p => notifyAllCode h p

/-- The workers `T` on a condition variable that nobody has used yet. -/
abbrev machine (value : D) :
    Lib.Machine (State T Unit Unit (Data L D) (Ctl T D)) (Event T (Ctl T D)) :=
  Monitor.machine (code b) (fun t => .own { thisTid := t }) { lock := b.init, value := value }

/-- Where `*m_mtx` is held. -/
def holds : Ctl T D → Unit → Bool
  | .wait _ _ .userUnlock, _ | .wait _ _ (.clock _), _ | .wait _ _ (.body _), _
  | .wait _ _ .status, _ | .wait _ _ (.innerUnlock _), _ => true
  | .notifyOne _ .leave, _ | .notifyAll _ (.leave _), _ => true
  | _, _ => false

theorem disciplined : Disciplined (code (D := D) b) holds := by
  have hset : ∀ (f : Unit → Bool) (r : Bool), Function.update f () r = fun _ => r := fun f r =>
    funext fun m => Function.update_self ..
  intro c
  cases c with
  | own h =>
      intro k hk
      funext m
      unfold Ctl.calls at hk
      split at hk
      case h_4 h' call p =>
        simp only [Bool.and_eq_true, decide_eq_true_eq] at hk
        obtain ⟨_, rfl⟩ := hk
        unfold Call.first
        split <;> rfl
      all_goals first | rfl | cases hk
  | lock h =>
      intro _ x
      simp only
      split <;> rfl
  | unlock h | change h value => exact fun _ _ => rfl
  | wait h call p =>
      cases p with
      | test =>
          intro _ x
          simp only
          split <;> rfl
      | innerLock => exact (hset _ _).symm
      | userUnlock | clock =>
          intro _ x
          simp only
          split <;> rfl
      | body =>
          refine ⟨rfl, ?_⟩
          split <;> rfl
      | status => exact fun _ _ => rfl
      | innerUnlock => exact ⟨rfl, (hset _ _).symm⟩
      | userLock timeout =>
          intro _ x
          simp only
          split <;> rfl
      | after timeout =>
          intro _ x
          simp only
          split
          · cases timeout <;> rfl
          · rfl
      | last => exact fun _ _ => rfl
  | notifyOne h p =>
      cases p with
      | enter => exact (hset _ _).symm
      | leave => exact ⟨rfl, (hset _ _).symm⟩
      | notify => rfl
  | notifyAll h p =>
      cases p with
      | call | returned => exact fun _ _ => rfl
      | enter => exact (hset _ _).symm
      | leave => exact ⟨rfl, (hset _ _).symm⟩
      | notify => rfl

end

end Ums.CondVarAny
