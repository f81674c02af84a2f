import Ums.Monitor.Discipline
import Ums.Mutex.Exclusion

/-!
# Mutexes and condition variables, one access at a time

A step of `Ums.Monitor` is a whole `Mutex::lock`, `add_waiter` or `check_wait_info`. Here
these are what they are in the source: a `Mutex` is a flag and a thread id, `m_waiters_lock`
is a flag, and every load, store and exchange of one of them is a step of its own, between
any two of which the other workers may do what they like.

The commands and their phases are those of `Ums.Monitor`. `Cmd.stmt` says which statement of
the source each phase of a command is, and `Memory.stmtStep` does one access of it.
-/

namespace Ums.Monitor

open Mutex (SpinPoint LockPoint TryPoint UnlockPoint)

/-- Where a worker goes on after a statement. -/
inductive Place (T κ : Type) where
  /-- At a control point. -/
  | ctl (k : κ)
  /-- Inside the command, in a phase. -/
  | phase (p : Phase T)

/-- The statements of the source. -/
inductive Stmt (T μ γ δ κ : Type) where
  /-- No statement: the caller decides. -/
  | nothing
  /-- A look at the clock and at the data. -/
  | act (f : Time → δ → δ × κ)
  /-- `Mutex::lock`. -/
  | lock (m : μ) (next : Place T κ)
  /-- `Mutex::try_lock`. -/
  | tryLock (m : μ) (yes no : κ)
  /-- `Mutex::unlock`. -/
  | unlock (m : μ) (next : Place T κ)
  /-- A scope with `m_waiters_lock` that changes `m_waiters` and may notify one of them:
  `add_waiter`, `remove_waiter` and `notify_one`. -/
  | guarded (v : γ) (list : List T → List T) (notified : List T → Option T) (next : Place T κ)
  /-- The beginning of `notify_all`, up to its loop. -/
  | enter (v : γ)
  /-- `waiter.notify_waiter()` of its loop. -/
  | notify (v : γ) (u : T) (rest : List T)
  /-- Its end. -/
  | exit (v : γ) (k : κ)
  /-- `set_wait_info(false, d)`. -/
  | setWaitInfo (d : Time) (next : Phase T)
  /-- `check_wait_info()`. -/
  | check (yes : Place T κ) (no : Phase T)

section

variable {T μ γ δ κ : Type} [DecidableEq T] [DecidableEq μ] [DecidableEq γ]

/-- The statement that a worker is at in a phase of a command. -/
def Cmd.stmt (t : T) : Cmd μ γ δ κ → Phase T → Stmt T μ γ δ κ
  | .act f, _ => .act f
  | .lock m k, _ => .lock m (.ctl k)
  | .tryLock m yes no, _ => .tryLock m yes no
  | .unlock m k, _ => .unlock m (.ctl k)
  | .wait v _ _ _, .start => .guarded v (fun l => l ++ [t]) (fun _ => none) (.phase .linked)
  | .wait _ _ d _, .linked => .setWaitInfo d .armed
  | .wait _ m _ _, .armed => .unlock m (.phase .released)
  | .wait .., .released | .wait .., .parked => .check (.phase .resumed) .parked
  | .wait _ m _ _, .resumed => .lock m (.phase .relocked)
  | .wait v _ _ k, .relocked => .guarded v (fun l => l.erase t) (fun _ => none) (.ctl k)
  | .sleep d _, .start => .setWaitInfo d .dozing
  | .sleep _ k, .dozing | .sleep _ k, .asleep => .check (.ctl k) .asleep
  | .notifyOne v k, _ => .guarded v id List.head? (.ctl k)
  | .notifyAll v _, .start => .enter v
  | .notifyAll v _, .scanning (u :: rest) => .notify v u rest
  | .notifyAll v k, .scanning [] => .exit v k
  | _, _ => .nothing

end

/-- Where a worker is inside a statement. -/
inductive Point where
  /-- At its beginning. -/
  | start
  /-- In `Mutex::lock`. -/
  | lock (p : LockPoint)
  /-- In `Mutex::try_lock`. -/
  | tryLock (p : TryPoint)
  /-- In `Mutex::unlock`. -/
  | unlock (p : UnlockPoint)
  /-- In `m_waiters_lock.lock`. -/
  | spin (p : SpinPoint)
  /-- It has `m_waiters_lock`. -/
  | inside
  /-- About to call `m_waiters_lock.unlock`. -/
  | leave
  /-- Past `clear_cond`, about to call `set_sleep`. -/
  | cleared
  /-- `check_cond` was `false`; about to call `check_sleep`. -/
  | checked
  deriving DecidableEq

/-- Where a worker is inside an operation of a `Mutex`, unless it has left it. -/
def pointOf {T : Type} : Mutex.Ctl T → Option Point
  | .idle _ => none
  | .lock _ p => some (.lock p)
  | .tryLock _ p => some (.tryLock p)
  | .unlock _ p => some (.unlock p)

/-- Where `try_lock` leads to. -/
def tryNext {T κ : Type} (yes no : κ) : TryPoint → Place T κ
  | .spin _ => .ctl no
  | .leave result => .ctl (if result then yes else no)

/-- The flag of a `Spinlock`. -/
def spinFlag : Mutex.Flag (BitVec 32) where
  get x := x
  set v _ := v
  get_set _ _ := rfl

/-- `Spinlock::lock` as a program; it is left at `none`. -/
def spinCode : Option SpinPoint → Cmd Empty Empty (BitVec 32) (Option SpinPoint)
  | some p => spinFlag.spinLock some none p
  | none => .choose fun _ => false

/-- A command that is one access, carried out on the data. -/
def Cmd.access {δ κ : Type} (now : Time) (x : δ) : Cmd Empty Empty δ κ → Option (δ × κ)
  | .act f => some (f now x)
  | _ => none

/-- The workers and what they share. -/
structure Memory (T μ γ δ κ : Type) where
  /-- The control point of each worker. -/
  ctl : T → κ
  /-- Where it is inside the command there. -/
  phase : T → Phase T
  /-- Where it is inside the statement of this phase. -/
  point : T → Point
  /-- `m_wait_info` of each worker. -/
  info : T → WaitInfo
  /-- The mutexes. -/
  mutex : μ → Mutex.Data T
  /-- `m_waiters_lock` of each condition variable. -/
  waitersLock : γ → BitVec 32
  /-- `m_waiters` of each condition variable. -/
  waiters : γ → List T
  /-- The data. -/
  data : δ
  /-- The clock. -/
  now : Time

namespace Memory

variable {T μ γ δ κ : Type} [DecidableEq T] [DecidableEq μ] [DecidableEq γ]

/-- Continue a worker after a statement. -/
def go (s : Memory T μ γ δ κ) (t : T) : Place T κ → Memory T μ γ δ κ
  | .ctl k =>
    { s with
      ctl := Function.update s.ctl t k
      phase := Function.update s.phase t .start
      point := Function.update s.point t .start }
  | .phase p =>
    { s with
      phase := Function.update s.phase t p
      point := Function.update s.point t .start }

/-- Continue a worker inside its statement. -/
@[simps -fullyApplied] def setPoint (s : Memory T μ γ δ κ) (t : T) (p : Point) :
    Memory T μ γ δ κ :=
  { s with point := Function.update s.point t p }

/-- Change a mutex. -/
@[simps -fullyApplied] def setMutex (s : Memory T μ γ δ κ) (m : μ) (x : Mutex.Data T) :
    Memory T μ γ δ κ :=
  { s with mutex := Function.update s.mutex m x }

/-- Change the flag of `m_waiters_lock`. -/
@[simps -fullyApplied] def setWaitersLock (s : Memory T μ γ δ κ) (v : γ) (x : BitVec 32) :
    Memory T μ γ δ κ :=
  { s with waitersLock := Function.update s.waitersLock v x }

/-- Replace a list of waiters. -/
@[simps -fullyApplied] def setWaiters (s : Memory T μ γ δ κ) (v : γ) (l : List T) :
    Memory T μ γ δ κ :=
  { s with waiters := Function.update s.waiters v l }

/-- `set_cond` and `clear_cond`. -/
@[simps -fullyApplied] def setCond (s : Memory T μ γ δ κ) (t : T) (cond : Bool) :
    Memory T μ γ δ κ :=
  { s with info := Function.update s.info t { s.info t with cond := cond } }

/-- `set_sleep`. -/
@[simps -fullyApplied] def setSleep (s : Memory T μ γ δ κ) (t : T) (d : Time) :
    Memory T μ γ δ κ :=
  { s with info := Function.update s.info t { s.info t with sleepTimePoint := d } }

/-- Everyone at the beginning of a command, with nothing locked. -/
def start (ctl : T → κ) (data : δ) (now : Time) : Memory T μ γ δ κ where
  ctl := ctl
  phase _ := .start
  point _ := .start
  info _ := {}
  mutex _ := {}
  waitersLock _ := 0#32
  waiters _ := []
  data := data
  now := now

/-- One access of an operation of a mutex. After the last one the worker goes on at `next`. -/
def mutexStep (s : Memory T μ γ δ κ) (t : T) (m : μ) (c : Mutex.Ctl T) (next : Place T κ) :
    Option (Memory T μ γ δ κ) :=
  ((Mutex.code c).access s.now (s.mutex m)).map fun r =>
    (pointOf r.2).elim ((s.setMutex m r.1).go t next) ((s.setMutex m r.1).setPoint t)

/-- `Mutex::lock`. The program ends where it throws. -/
def lockStep (s : Memory T μ γ δ κ) (t : T) (m : μ) (next : Place T κ) :
    Point → Option (Memory T μ γ δ κ)
  | .start => some (s.setPoint t (.lock .tidLoad))
  | .lock .threw => none
  | .lock p => s.mutexStep t m (.lock { thisTid := t } p) next
  | _ => none

/-- `Mutex::try_lock`. -/
def tryLockStep (s : Memory T μ γ δ κ) (t : T) (m : μ) (yes no : κ) :
    Point → Option (Memory T μ γ δ κ)
  | .start => some (s.setPoint t (.tryLock (.spin .load)))
  | .tryLock p => s.mutexStep t m (.tryLock { thisTid := t } p) (tryNext yes no p)
  | _ => none

/-- `Mutex::unlock`. -/
def unlockStep (s : Memory T μ γ δ κ) (t : T) (m : μ) (next : Place T κ) :
    Point → Option (Memory T μ γ δ κ)
  | .start => some (s.setPoint t (.unlock .tidStore))
  | .unlock p => s.mutexStep t m (.unlock { thisTid := t, owns := true } p) next
  | _ => none

/-- One access of `m_waiters_lock.lock`. -/
def spinStep (s : Memory T μ γ δ κ) (t : T) (v : γ) (p : SpinPoint) :
    Option (Memory T μ γ δ κ) :=
  ((spinCode (some p)).access s.now (s.waitersLock v)).map fun r =>
    (s.setWaitersLock v r.1).setPoint t (r.2.elim .inside .spin)

/-- A scope with `m_waiters_lock`. -/
def guardedStep (s : Memory T μ γ δ κ) (t : T) (v : γ) (list : List T → List T)
    (notified : List T → Option T) (next : Place T κ) : Point → Option (Memory T μ γ δ κ)
  | .start => some (s.setPoint t (.spin .load))
  | .spin p => s.spinStep t v p
  | .inside =>
    let told := (notified (s.waiters v)).elim s fun u => s.setCond u true
    some ((told.setWaiters v (list (s.waiters v))).setPoint t .leave)
  | .leave => some ((s.setWaitersLock v 0#32).go t next)
  | _ => none

/-- The beginning of `notify_all`. -/
def enterStep (s : Memory T μ γ δ κ) (t : T) (v : γ) : Point → Option (Memory T μ γ δ κ)
  | .start => some (s.setPoint t (.spin .load))
  | .spin p => s.spinStep t v p
  | .inside => some (s.go t (.phase (.scanning (s.waiters v))))
  | _ => none

/-- `set_wait_info`. -/
def setWaitInfoStep (s : Memory T μ γ δ κ) (t : T) (d : Time) (next : Phase T) :
    Point → Option (Memory T μ γ δ κ)
  | .start => some ((s.setCond t false).setPoint t .cleared)
  | .cleared => some ((s.setSleep t d).go t (.phase next))
  | _ => none

/-- `check_wait_info`. -/
def checkStep (s : Memory T μ γ δ κ) (t : T) (yes : Place T κ) (no : Phase T) :
    Point → Option (Memory T μ γ δ κ)
  | .start => some (if (s.info t).cond then s.go t yes else s.setPoint t .checked)
  | .checked =>
    some (s.go t (if s.now ≥ (s.info t).sleepTimePoint then yes else .phase no))
  | _ => none

/-- The next access of a worker, by the statement it is at. -/
def stmtStep (s : Memory T μ γ δ κ) (t : T) : Stmt T μ γ δ κ → Option (Memory T μ γ δ κ)
  | .nothing => none
  | .act f => some ({ s with data := (f s.now s.data).1 }.go t (.ctl (f s.now s.data).2))
  | .lock m next => s.lockStep t m next (s.point t)
  | .tryLock m yes no => s.tryLockStep t m yes no (s.point t)
  | .unlock m next => s.unlockStep t m next (s.point t)
  | .guarded v list notified next => s.guardedStep t v list notified next (s.point t)
  | .enter v => s.enterStep t v (s.point t)
  | .notify _ u rest => some ((s.setCond u true).go t (.phase (.scanning rest)))
  | .exit v k => some ((s.setWaitersLock v 0#32).go t (.ctl k))
  | .setWaitInfo d next => s.setWaitInfoStep t d next (s.point t)
  | .check yes no => s.checkStep t yes no (s.point t)

/-- The statement that a worker is at. -/
def stmt (code : κ → Cmd μ γ δ κ) (s : Memory T μ γ δ κ) (t : T) : Stmt T μ γ δ κ :=
  (code (s.ctl t)).stmt t (s.phase t)

/-- One access of the workers running a program. -/
def next (code : κ → Cmd μ γ δ κ) (s : Memory T μ γ δ κ) :
    Event T κ → Option (Memory T μ γ δ κ)
  | .step t => s.stmtStep t (s.stmt code t)
  | .choose t k =>
    match code (s.ctl t) with
    | .choose ok => if ok k then some (s.go t (.ctl k)) else none
    | _ => none
  | .tick d => some { s with now := s.now + d }

/-- A program as a machine of single accesses. -/
def machine (code : κ → Cmd μ γ δ κ) (ctl : T → κ) (data : δ) :
    Lib.Machine (Memory T μ γ δ κ) (Event T κ) where
  init s := ∃ now, s = .start ctl data now
  next := next code

end Memory

end Ums.Monitor
