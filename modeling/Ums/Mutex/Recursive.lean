import Ums.Mutex.Count
import Ums.Mutex.Spin

/-!
# `Recursive_mutex`

A `Plain_mutex`, the thread id of the worker that has it, and `m_locks_count`. The counter
is a plain `u32`: it is only touched by the worker that has the inner lock, so counting
and looking, in `rmtx_inc_lc`, are one step.

A worker knows its own thread id, and carries along whether it has the inner lock and
its depth: its successful acquisitions minus its unlocks. It may call any operation at
any time, but unlocks only what it has.
-/

namespace Ums.RecursiveMutex

open Monitor Mutex

/-- `m_flag` of the spinlock, `m_tid` and `m_locks_count`. -/
structure Data (T : Type) where
  /-- `m_mtx.m_spinlock.m_flag`. -/
  flag : BitVec 32 := 0#32
  /-- `m_tid`. -/
  tid : Option T := none
  /-- `m_locks_count`. -/
  locksCount : BitVec 32 := 0#32

/-- A worker as it calls the operations. -/
structure Caller (T : Type) where
  /-- `this_tid`. -/
  thisTid : T
  /-- It has the inner lock. -/
  owns : Bool := false
  /-- Its successful acquisitions minus its unlocks. -/
  depth : Nat := 0
  deriving DecidableEq

/-- The statements of `lock`. -/
inductive LockPoint where
  /-- Comparing `m_tid` with its own. -/
  | tidLoad
  /-- `rmtx_inc_lc<true>`. -/
  | again
  /-- `m_mtx.lock`. -/
  | plain (p : PlainPoint)
  /-- `m_tid.store`. -/
  | tidStore
  /-- `rmtx_inc_lc<false>`. -/
  | inc
  /-- About to return, or else to throw `resource_unavailable_try_again`. -/
  | leave (ok : Bool)
  deriving DecidableEq

/-- The statements of `try_lock`. -/
inductive TryPoint where
  /-- Comparing `m_tid` with its own. -/
  | tidLoad
  /-- `rmtx_inc_lc<false>`, with the lock. -/
  | again
  /-- `m_mtx.try_lock`. -/
  | spin (p : SpinPoint)
  /-- `rmtx_inc_lc<false>`. -/
  | inc
  /-- `m_tid.store`. -/
  | tidStore
  /-- About to return. -/
  | leave (result : Bool)
  deriving DecidableEq

/-- The statements of `unlock`. -/
inductive UnlockPoint where
  /-- `rmtx_dec_lc`. -/
  | dec
  /-- `m_tid.store(empty_tid)`. -/
  | tidStore
  /-- `m_mtx.unlock`. -/
  | flagStore
  deriving DecidableEq

/-- Where a worker is. -/
inductive Ctl (T : Type) where
  /-- In its own code. -/
  | idle (h : Caller T)
  /-- In `lock`. -/
  | lock (h : Caller T) (p : LockPoint)
  /-- In `try_lock`. -/
  | tryLock (h : Caller T) (p : TryPoint)
  /-- In `unlock`. -/
  | unlock (h : Caller T) (p : UnlockPoint)
  deriving DecidableEq

variable {T : Type}

namespace Ctl

/-- The worker. -/
def caller : Ctl T → Caller T
  | .idle h | .lock h _ | .tryLock h _ | .unlock h _ => h

/-- The worker has the inner lock. -/
def owns (c : Ctl T) : Bool := c.caller.owns

/-- Its successful acquisitions minus its unlocks. -/
def depth (c : Ctl T) : Nat := c.caller.depth

/-- What a worker may call. -/
def calls [DecidableEq T] (h : Caller T) : Ctl T → Bool
  | .lock h' .tidLoad | .tryLock h' .tidLoad => decide (h' = h)
  | .unlock h' .dec => decide (h' = h) && h.owns
  | _ => false

/-- The worker is in its own code. -/
def isIdle : Ctl T → Bool
  | .idle _ => true
  | _ => false

/-- The worker is in an acquisition that has not succeeded, and perhaps never will. -/
def acquiring : Ctl T → Bool
  | .lock _ .tidLoad | .lock _ .again | .lock _ (.plain _) | .lock _ (.leave false) => true
  | .tryLock _ .tidLoad | .tryLock _ .again | .tryLock _ (.spin _)
  | .tryLock _ (.leave false) => true
  | _ => false

/-- The worker is about to throw, or to return `false`. -/
def refused : Ctl T → Bool
  | .lock _ (.leave false) | .tryLock _ (.leave false) => true
  | _ => false

/-- The worker has the lock already, and is about to count once more. -/
def counts : Ctl T → Bool
  | .lock _ .again | .tryLock _ .again => true
  | _ => false

/-- The worker has just got the inner lock, and has yet to count. -/
def entering : Ctl T → Bool
  | .lock _ .tidStore | .lock _ .inc | .tryLock _ .inc => true
  | _ => false

/-- The worker is giving the inner lock back. -/
def releasing : Ctl T → Bool
  | .unlock _ .tidStore | .unlock _ .flagStore => true
  | _ => false

end Ctl

/-- A command of this program. -/
abbrev Command (T : Type) := Cmd Empty Empty (Data T) (Ctl T)

/-- The flag of the spinlock. -/
def flag : Flag (Data T) where
  get x := x.flag
  set v x := { x with flag := v }
  get_set _ _ := rfl

/-- The worker has acquired the lock once more. -/
def Caller.deeper (h : Caller T) : Caller T := { h with depth := h.depth + 1 }

/-- `rmtx_inc_lc`. -/
def inc (x : Data T) : Data T := { x with locksCount := (rmtxIncLc x.locksCount).1 }

section

variable [DecidableEq T]

/-- `lock`. -/
def lockCode (h : Caller T) : LockPoint → Command T
  | .tidLoad =>
    .act fun _ x =>
      (x, if x.tid = some h.thisTid then .lock h .again else .lock h (.plain (.timed 0 .load)))
  | .again =>
    .act fun _ x =>
      (inc x, if (rmtxIncLc x.locksCount).2 then .lock h.deeper (.leave true)
        else .lock h (.leave false))
  | .plain p =>
    flag.plainLock (fun p => .lock h (.plain p)) (.lock { h with owns := true } .tidStore) p
  | .tidStore => .act fun _ x => ({ x with tid := some h.thisTid }, .lock h .inc)
  | .inc => .act fun _ x => (inc x, .lock h.deeper (.leave true))
  | .leave _ => .act fun _ x => (x, .idle h)

/-- `try_lock`. -/
def tryLockCode (h : Caller T) : TryPoint → Command T
  | .tidLoad =>
    .act fun _ x =>
      (x, if x.tid = some h.thisTid then .tryLock h .again else .tryLock h (.spin .load))
  | .again =>
    .act fun _ x =>
      (inc x, if (rmtxIncLc x.locksCount).2 then .tryLock h.deeper (.leave true)
        else .tryLock h (.leave false))
  | .spin p =>
    flag.tryLock (fun p => .tryLock h (.spin p))
      (fun r => if r then .tryLock { h with owns := true } .inc else .tryLock h (.leave false)) p
  | .inc => .act fun _ x => (inc x, .tryLock h.deeper .tidStore)
  | .tidStore => .act fun _ x => ({ x with tid := some h.thisTid }, .tryLock h (.leave true))
  | .leave _ => .act fun _ x => (x, .idle h)

/-- `unlock`. -/
def unlockCode (h : Caller T) : UnlockPoint → Command T
  | .dec =>
    .act fun _ x =>
      ({ x with locksCount := rmtxDecLc x.locksCount },
        if rmtxDecLc x.locksCount = 0#32 then .unlock { h with depth := h.depth - 1 } .tidStore
        else .idle { h with depth := h.depth - 1 })
  | .tidStore => .act fun _ x => ({ x with tid := none }, .unlock h .flagStore)
  | .flagStore => .act fun _ x => (flag.set 0#32 x, .idle { h with owns := false })

/-- The program. -/
def code : Ctl T → Command T
  | .idle h => .choose (Ctl.calls h)
  | .lock h p => lockCode h p
  | .tryLock h p => tryLockCode h p
  | .unlock h p => unlockCode h p

/-- A recursive mutex that nobody has, used by the workers `T`. -/
abbrev machine (T : Type) [DecidableEq T] :
    Lib.Machine (State T Empty Empty (Data T) (Ctl T)) (Event T (Ctl T)) :=
  Monitor.machine code (fun t => .idle { thisTid := t }) {}

/-! ## What a statement does -/

variable {c k : Ctl T} {x y : Data T} {now : Time}

/-- What a statement does: where it leads, and what becomes of the flag, `m_tid` and the counter. -/
inductive Goes (x : Data T) : Ctl T → Ctl T → Data T → Prop
  /-- A call begins. -/
  | calls {h k} (hk : k.calls h = true) : Goes x (.idle h) k x
  | lockOwn {h} (ht : x.tid = some h.thisTid) : Goes x (.lock h .tidLoad) (.lock h .again) x
  | lockEnter {h} : Goes x (.lock h .tidLoad) (.lock h (.plain (.timed 0 .load))) x
  /-- The caller has the lock, and acquires it once more. -/
  | lockAgain {h} (hn : (rmtxIncLc x.locksCount).2 = true) :
      Goes x (.lock h .again) (.lock h.deeper (.leave true)) (inc x)
  /-- The caller has the lock as often as it may. -/
  | lockFull {h} (hn : ¬(rmtxIncLc x.locksCount).2 = true) :
      Goes x (.lock h .again) (.lock h (.leave false)) (inc x)
  | lockOn {h p q y} (hl : Flag.Tries flag x y false) :
      Goes x (.lock h (.plain p)) (.lock h (.plain q)) y
  | lockTakes {h p y} (hw : Flag.Tries flag x y true) :
      Goes x (.lock h (.plain p)) (.lock { h with owns := true } .tidStore) y
  | lockNames {h} : Goes x (.lock h .tidStore) (.lock h .inc) { x with tid := some h.thisTid }
  /-- The caller acquires the lock for the first time. -/
  | lockCounts {h} : Goes x (.lock h .inc) (.lock h.deeper (.leave true)) (inc x)
  | lockLeave {h ok} : Goes x (.lock h (.leave ok)) (.idle h) x
  | tryOwn {h} (ht : x.tid = some h.thisTid) : Goes x (.tryLock h .tidLoad) (.tryLock h .again) x
  | tryEnter {h} : Goes x (.tryLock h .tidLoad) (.tryLock h (.spin .load)) x
  | tryAgain {h} (hn : (rmtxIncLc x.locksCount).2 = true) :
      Goes x (.tryLock h .again) (.tryLock h.deeper (.leave true)) (inc x)
  | tryFull {h} (hn : ¬(rmtxIncLc x.locksCount).2 = true) :
      Goes x (.tryLock h .again) (.tryLock h (.leave false)) (inc x)
  | tryOn {h p q y} (hl : Flag.Tries flag x y false) :
      Goes x (.tryLock h (.spin p)) (.tryLock h (.spin q)) y
  | tryTakes {h p y} (hw : Flag.Tries flag x y true) :
      Goes x (.tryLock h (.spin p)) (.tryLock { h with owns := true } .inc) y
  | tryFails {h p y} (hl : Flag.Tries flag x y false) :
      Goes x (.tryLock h (.spin p)) (.tryLock h (.leave false)) y
  | tryCounts {h} : Goes x (.tryLock h .inc) (.tryLock h.deeper .tidStore) (inc x)
  | tryNames {h} :
      Goes x (.tryLock h .tidStore) (.tryLock h (.leave true)) { x with tid := some h.thisTid }
  | tryLeave {h r} : Goes x (.tryLock h (.leave r)) (.idle h) x
  /-- `unlock` counts down to zero. -/
  | unlockLast {h} (h0 : rmtxDecLc x.locksCount = 0#32) :
      Goes x (.unlock h .dec) (.unlock { h with depth := h.depth - 1 } .tidStore)
        { x with locksCount := rmtxDecLc x.locksCount }
  /-- It counts down, and the lock stays with the caller. -/
  | unlockDec {h} (h0 : rmtxDecLc x.locksCount ≠ 0#32) :
      Goes x (.unlock h .dec) (.idle { h with depth := h.depth - 1 })
        { x with locksCount := rmtxDecLc x.locksCount }
  | unlockTid {h} : Goes x (.unlock h .tidStore) (.unlock h .flagStore) { x with tid := none }
  | unlockFlag {h} :
      Goes x (.unlock h .flagStore) (.idle { h with owns := false }) (flag.set 0#32 x)

theorem goes_of_lock {h : Caller T} {p : LockPoint} (hj : Jump code now (.lock h p) x k y) :
    Goes x (.lock h p) k y := by
  cases p with
  | tidLoad =>
      cases hj with
      | act hc =>
          cases hc
          simp only
          by_cases htid : x.tid = some h.thisTid
          · rw [if_pos htid]
            exact .lockOwn htid
          · rw [if_neg htid]
            exact .lockEnter
      | _ hc => cases hc
  | again =>
      cases hj with
      | act hc =>
          cases hc
          simp only
          by_cases hn : (rmtxIncLc x.locksCount).2 = true
          · rw [if_pos hn]
            exact .lockAgain hn
          · rw [if_neg hn]
            exact .lockFull hn
      | _ hc => cases hc
  | plain p =>
      have hc : code (.lock h (.plain p)) = lockCode h (.plain p) := rfl
      rw [lockCode] at hc
      rcases Flag.plainLock_jump hc hj with ⟨q, rfl, hl⟩ | ⟨rfl, hw⟩
      · exact .lockOn hl
      · exact .lockTakes hw
  | tidStore => cases hj with | _ hc => cases hc <;> exact .lockNames
  | inc => cases hj with | _ hc => cases hc <;> exact .lockCounts
  | leave ok => cases hj with | _ hc => cases hc <;> exact .lockLeave

theorem goes_of_tryLock {h : Caller T} {p : TryPoint} (hj : Jump code now (.tryLock h p) x k y) :
    Goes x (.tryLock h p) k y := by
  cases p with
  | tidLoad =>
      cases hj with
      | act hc =>
          cases hc
          simp only
          by_cases htid : x.tid = some h.thisTid
          · rw [if_pos htid]
            exact .tryOwn htid
          · rw [if_neg htid]
            exact .tryEnter
      | _ hc => cases hc
  | again =>
      cases hj with
      | act hc =>
          cases hc
          simp only
          by_cases hn : (rmtxIncLc x.locksCount).2 = true
          · rw [if_pos hn]
            exact .tryAgain hn
          · rw [if_neg hn]
            exact .tryFull hn
      | _ hc => cases hc
  | spin p =>
      have hc : code (.tryLock h (.spin p)) = tryLockCode h (.spin p) := rfl
      rw [tryLockCode] at hc
      rcases Flag.tryLock_jump hc hj with ⟨q, rfl, hl⟩ | ⟨r, rfl, ht⟩
      · exact .tryOn hl
      · cases r with
        | true => exact .tryTakes ht
        | false => exact .tryFails ht
  | inc => cases hj with | _ hc => cases hc <;> exact .tryCounts
  | tidStore => cases hj with | _ hc => cases hc <;> exact .tryNames
  | leave r => cases hj with | _ hc => cases hc <;> exact .tryLeave

theorem goes_of_unlock {h : Caller T} {p : UnlockPoint} (hj : Jump code now (.unlock h p) x k y) :
    Goes x (.unlock h p) k y := by
  cases p with
  | dec =>
      cases hj with
      | act hc =>
          cases hc
          simp only
          by_cases h0 : rmtxDecLc x.locksCount = 0#32
          · rw [if_pos h0]
            exact .unlockLast h0
          · rw [if_neg h0]
            exact .unlockDec h0
      | _ hc => cases hc
  | tidStore => cases hj with | _ hc => cases hc <;> exact .unlockTid
  | flagStore => cases hj with | _ hc => cases hc <;> exact .unlockFlag

/-- **Every statement goes one of these ways.** -/
theorem goes_of_jump (hj : Jump code now c x k y) : Goes x c k y := by
  cases c with
  | idle h =>
      cases hj with
      | choose hc hk =>
          cases hc
          exact .calls hk
      | _ hc => cases hc
  | lock h p => exact goes_of_lock hj
  | tryLock h p => exact goes_of_tryLock hj
  | unlock h p => exact goes_of_unlock hj

/-- A worker that has the lock is in `m_tid`, and has acquired it. -/
def Settled (x : Data T) (h : Caller T) : Prop :=
  h.owns = true → x.tid = some h.thisTid ∧ 0 < h.depth

/-- What a worker knows before its next statement. -/
def Ready (x : Data T) : Ctl T → Prop
  | .lock h .again | .tryLock h .again | .unlock h .dec => h.owns = true ∧ Settled x h
  | .lock h .tidStore | .tryLock h .inc | .unlock h .tidStore => h.owns = true ∧ h.depth = 0
  | .lock h .inc => h.owns = true ∧ h.depth = 0 ∧ x.tid = some h.thisTid
  | .tryLock h .tidStore => h.owns = true ∧ 0 < h.depth
  | .unlock h .flagStore => h.owns = true ∧ h.depth = 0 ∧ x.tid = none
  | c => Settled x c.caller

/-- What the flag, `m_tid` and the counter say about a worker. -/
structure Known (c : Ctl T) (x : Data T) : Prop where
  /-- The counter is below its limit. -/
  bound : x.locksCount.toNat < 2 ^ 32 - 1
  /-- The counter is the depth of the worker that has the lock. -/
  count : c.owns = true → x.locksCount.toNat = c.depth
  /-- Nobody else has acquired it. -/
  other : c.owns = false → c.depth = 0
  /-- Nobody has the lock while the flag is clear. -/
  free : flag.taken x = false → c.owns = false
  /-- The worker in `m_tid` has the lock. -/
  tid : x.tid = some c.caller.thisTid → c.owns = true
  /-- What it has found out. -/
  ready : Ready x c

/-- What a statement does to the flag, `m_tid` and the counter, and to its worker. -/
inductive Change (c : Ctl T) (x : Data T) (k : Ctl T) (y : Data T) : Prop
  /-- Nothing but perhaps setting a flag that is set. -/
  | quiet (hk : k.caller = c.caller) (ht : y.tid = x.tid) (hn : y.locksCount = x.locksCount)
      (hy : flag.taken y = flag.taken x)
  /-- The worker gets the inner lock. -/
  | acquire (hk : k.caller = { c.caller with owns := true }) (ha : k.acquiring = false)
      (ht : y.tid = x.tid) (hn : y.locksCount = x.locksCount) (hx : flag.taken x = false)
      (hy : flag.taken y = true)
  /-- The holder writes or clears `m_tid`. -/
  | write (hc : c.owns = true) (hk : k.caller = c.caller) (ha : k.acquiring = false)
      (ht : y.tid = some c.caller.thisTid ∨ y.tid = none) (hn : y.locksCount = x.locksCount)
      (hy : flag.taken y = flag.taken x)
  /-- The holder changes its depth, and counts. -/
  | count (n : Nat) (hc : c.owns = true) (hk : k.caller = { c.caller with depth := n })
      (ha : k.acquiring = false) (ht : y.tid = x.tid) (hb : n < 2 ^ 32 - 1)
      (hn : y.locksCount.toNat = n) (hy : flag.taken y = flag.taken x)
  /-- The holder gives the inner lock back. -/
  | release (hc : c.owns = true) (hr : c.releasing = true) (hd : c.depth = 0) (hx : x.tid = none)
      (hk : k.caller = { c.caller with owns := false }) (ha : k.acquiring = false)
      (ht : y.tid = x.tid) (hn : y.locksCount = x.locksCount) (hy : flag.taken y = false)

theorem calls_quiet {h : Caller T} (hk : k.calls h = true) (hr : Settled x h) :
    k.caller = h ∧ Ready x k := by
  unfold Ctl.calls at hk
  split at hk
  case h_3 =>
    simp only [Bool.and_eq_true, decide_eq_true_eq] at hk
    obtain ⟨rfl, ho⟩ := hk
    exact ⟨rfl, ho, hr⟩
  case h_4 => cases hk
  all_goals
    obtain rfl := of_decide_eq_true hk
    exact ⟨rfl, hr⟩

section

omit [DecidableEq T]

/-- An attempt that is not over, or has failed. -/
theorem Change.of_lost (h : Flag.Tries flag x y false) (hk : k.caller = c.caller) :
    Change c x k y :=
  .quiet hk (h.same fun _ _ => rfl) (h.same fun _ _ => rfl) (by rw [h.taken, Bool.or_false])

/-- An attempt that has succeeded. -/
theorem Change.of_won (h : Flag.Tries flag x y true)
    (hk : k.caller = { c.caller with owns := true }) (ha : k.acquiring = false) :
    Change c x k y := by
  have htid : y.tid = x.tid := h.same fun _ _ => rfl
  have hcount : y.locksCount = x.locksCount := h.same fun _ _ => rfl
  cases h with
  | won hx hy =>
      refine .acquire hk ha htid hcount hx ?_
      rw [hy, Flag.taken_set_one]

/-- `m_tid` is what it was after an attempt that is not over. -/
theorem Settled.of_lost {h : Caller T} (hs : Settled x h) (hl : Flag.Tries flag x y false) :
    Settled y h := by
  intro ho
  have htid : y.tid = x.tid := hl.same fun _ _ => rfl
  rw [htid]
  exact hs ho

/-- Counting a caller in once more, below the limit. -/
theorem change_of_inc (hk : Known c x) (hc : c.owns = true)
    (hn : x.locksCount.toNat + 1 < 2 ^ 32 - 1) (hh : k.caller = c.caller.deeper)
    (ha : k.acquiring = false) : Change c x k (inc x) := by
  refine .count (c.depth + 1) hc hh ha rfl ?_ ?_ rfl
  · rw [← hk.count hc]
    exact hn
  · rw [inc, rmtxIncLc_of_lt hn, toNat_succ hk.bound, hk.count hc]

/-- A caller that has the lock, and is counted in. -/
theorem change_of_counts (hk : Known c x) (hc : c.owns = true)
    (hn : (rmtxIncLc x.locksCount).2 = true) (hh : k.caller = c.caller.deeper)
    (ha : k.acquiring = false) : Change c x k (inc x) :=
  change_of_inc hk hc (rmtxIncLc_counts hk.bound hn).1 hh ha

/-- **The limit.** At it nothing happens at all. -/
theorem inc_full (hb : x.locksCount.toNat < 2 ^ 32 - 1)
    (hn : ¬(rmtxIncLc x.locksCount).2 = true) :
    x.locksCount.toNat + 1 = 2 ^ 32 - 1 ∧ inc x = x := by
  obtain ⟨he, hsame⟩ := rmtxIncLc_full hb hn
  refine ⟨he, ?_⟩
  rw [inc, hsame]

/-- A caller that has just got the inner lock, and is counted in. -/
theorem change_of_first (hk : Known c x) (hc : c.owns = true) (hd : c.depth = 0)
    (hh : k.caller = c.caller.deeper) (ha : k.acquiring = false) : Change c x k (inc x) := by
  -- the first acquisition counts from zero, so it is not refused
  have h0 : x.locksCount.toNat = 0 := (hk.count hc).trans hd
  exact change_of_inc hk hc (by omega) hh ha

/-- Counting down a caller that has acquired the lock, to its depth. -/
theorem change_of_dec {h : Caller T} (hk : Known (.unlock h .dec) x)
    (hc : k.caller = { h with depth := h.depth - 1 }) (ha : k.acquiring = false) :
    Change (.unlock h .dec) x k { x with locksCount := rmtxDecLc x.locksCount } ∧
      (rmtxDecLc x.locksCount = 0#32 ↔ h.depth - 1 = 0) := by
  obtain ⟨ho, hs⟩ := hk.ready
  have hd := (hs ho).2
  have hcount : x.locksCount.toNat = h.depth := hk.count ho
  have hdec := toNat_rmtxDecLc (n := x.locksCount) (by omega)
  have hbound := hk.bound
  have hn : (rmtxDecLc x.locksCount).toNat = h.depth - 1 := by omega
  refine ⟨.count (h.depth - 1) ho hc ha rfl (by omega) hn rfl, ?_⟩
  rw [eq_zero_iff_toNat, hn]

end

/-- **Every statement makes one of the changes**, and leaves its worker with what it has to know. -/
theorem change_of_jump (hj : Jump code now c x k y) (hk : Known c x) :
    Change c x k y ∧ Ready y k := by
  have hr := hk.ready
  cases goes_of_jump hj with
  | calls hcall =>
      obtain ⟨hh, hr'⟩ := calls_quiet hcall hr
      exact ⟨.quiet hh rfl rfl rfl, hr'⟩
  | lockOwn ht | tryOwn ht => exact ⟨.quiet rfl rfl rfl rfl, hk.tid ht, hr⟩
  | lockEnter | lockLeave | tryEnter | tryLeave => exact ⟨.quiet rfl rfl rfl rfl, hr⟩
  | lockAgain hn | tryAgain hn =>
      refine ⟨change_of_counts hk hr.1 hn rfl rfl, fun ho => ?_⟩
      exact ⟨(hr.2 ho).1, Nat.succ_pos _⟩
  | lockFull hn | tryFull hn =>
      rw [(inc_full hk.bound hn).2]
      exact ⟨.quiet rfl rfl rfl rfl, hr.2⟩
  | lockOn hl | tryOn hl | tryFails hl => exact ⟨.of_lost hl rfl, Settled.of_lost hr hl⟩
  | lockTakes hw | tryTakes hw =>
      refine ⟨.of_won hw rfl rfl, rfl, ?_⟩
      -- nobody has the lock while the flag is clear, not even this worker
      cases hw with
      | won hx _ => exact hk.other (hk.free hx)
  | lockNames => exact ⟨.write hr.1 rfl rfl (Or.inl rfl) rfl rfl, hr.1, hr.2, rfl⟩
  | tryNames => exact ⟨.write hr.1 rfl rfl (Or.inl rfl) rfl rfl, fun _ => ⟨rfl, hr.2⟩⟩
  | lockCounts =>
      refine ⟨change_of_first hk hr.1 hr.2.1 rfl rfl, fun _ => ?_⟩
      exact ⟨hr.2.2, Nat.succ_pos _⟩
  | tryCounts => exact ⟨change_of_first hk hr.1 hr.2 rfl rfl, hr.1, Nat.succ_pos _⟩
  | @unlockLast h h0 =>
      obtain ⟨hch, hzero⟩ :=
        change_of_dec (k := .unlock { h with depth := h.depth - 1 } .tidStore) hk rfl rfl
      exact ⟨hch, hr.1, hzero.mp h0⟩
  | @unlockDec h h0 =>
      obtain ⟨hch, hzero⟩ := change_of_dec (k := .idle { h with depth := h.depth - 1 }) hk rfl rfl
      refine ⟨hch, fun ho => ⟨(hr.2 hr.1).1, ?_⟩⟩
      exact Nat.pos_of_ne_zero fun hd => h0 (hzero.mpr hd)
  | unlockTid => exact ⟨.write hr.1 rfl rfl (Or.inr rfl) rfl rfl, hr.1, hr.2, rfl⟩
  | unlockFlag =>
      obtain ⟨ho, hd, ht⟩ := hr
      exact ⟨.release ho rfl hd ht rfl rfl rfl rfl (Flag.taken_set_zero x), nofun⟩

section

omit [DecidableEq T]

theorem Change.hold (h : Change c x k y) : Hold flag.taken Ctl.owns c x k y := by
  cases h with
  | quiet hk _ _ hy | write _ hk _ _ _ hy | count _ _ hk _ _ _ _ hy =>
      refine .keeps hy ?_
      rw [Ctl.owns, Ctl.owns, hk]
  | acquire hk _ _ _ hx hy =>
      refine .acquires hx hy ?_
      rw [Ctl.owns, hk]
  | release hc _ _ _ hk _ _ _ hy =>
      refine .releases hc hy ?_
      rw [Ctl.owns, hk]

theorem Change.thisTid (h : Change c x k y) : k.caller.thisTid = c.caller.thisTid := by
  cases h with
  | quiet hk | acquire hk | write _ hk | count _ _ hk | release _ _ _ _ hk => rw [hk]

/-- A worker without the lock leaves `m_tid` and the counter alone. -/
theorem Change.same (h : Change c x k y) (hc : c.owns = false) :
    y.tid = x.tid ∧ y.locksCount = x.locksCount := by
  cases h with
  | quiet _ ht hn | acquire _ _ ht hn => exact ⟨ht, hn⟩
  | write ho | count _ ho | release ho =>
      rw [hc] at ho
      cases ho

/-- What a worker knows of `m_tid` matters only while it has the lock. -/
theorem Ready.transfer (h : Ready x c) (ht : c.owns = true → y.tid = x.tid) : Ready y c := by
  have hset : ∀ h : Caller T, (h.owns = true → y.tid = x.tid) → Settled x h → Settled y h :=
    fun h ht hs ho => by
      rw [ht ho]
      exact hs ho
  cases c with
  | idle => exact hset _ ht h
  | lock _ p =>
      cases p with
      | tidLoad | plain | leave => exact hset _ ht h
      | again => exact ⟨h.1, hset _ ht h.2⟩
      | tidStore => exact h
      | inc => exact ⟨h.1, h.2.1, (ht h.1).trans h.2.2⟩
  | tryLock _ p =>
      cases p with
      | tidLoad | spin | leave => exact hset _ ht h
      | again => exact ⟨h.1, hset _ ht h.2⟩
      | inc | tidStore => exact h
  | unlock _ p =>
      cases p with
      | dec => exact ⟨h.1, hset _ ht h.2⟩
      | tidStore => exact h
      | flagStore => exact ⟨h.1, h.2.1, (ht h.1).trans h.2.2⟩

end

/-! ## The holder, `m_tid` and the counter -/

variable {s s' : State T Empty Empty (Data T) (Ctl T)} {t u : T} {e : Event T (Ctl T)}

/-- The flag, `m_tid` and the counter say who has the lock, and how often. -/
structure Locked (s : State T Empty Empty (Data T) (Ctl T)) : Prop where
  /-- Everybody knows its own thread id. -/
  me : ∀ t, (s.ctl t).caller.thisTid = t
  /-- The flag is set exactly while one worker has the lock. -/
  excl : Exclusive flag.taken Ctl.owns s
  /-- The counter is below its limit. -/
  bound : s.data.locksCount.toNat < 2 ^ 32 - 1
  /-- The counter is the depth of the worker that has the lock. -/
  count : ∀ t, (s.ctl t).owns = true → s.data.locksCount.toNat = (s.ctl t).depth
  /-- Nobody else has acquired it. -/
  other : ∀ t, (s.ctl t).owns = false → (s.ctl t).depth = 0
  /-- It is zero while nobody has the lock. -/
  free : flag.taken s.data = false → s.data.locksCount.toNat = 0
  /-- The worker in `m_tid` has the lock. -/
  tid : ∀ t, s.data.tid = some t → (s.ctl t).owns = true
  /-- Everybody knows what it has to know. -/
  ready : ∀ t, Ready s.data (s.ctl t)

section

omit [DecidableEq T]

theorem Locked.known (h : Locked s) (t : T) : Known (s.ctl t) s.data where
  bound := h.bound
  count := h.count t
  other := h.other t
  free hx := h.excl.nobody hx t
  tid htid := h.tid t (by rwa [h.me t] at htid)
  ready := h.ready t

/-- While a worker has the lock, the others have not. -/
theorem Locked.owns_false (h : Locked s) (ht : (s.ctl t).owns = true) (hu : u ≠ t) :
    (s.ctl u).owns = false := by
  by_contra hne
  exact hu (h.excl.unique u t (by simpa using hne) ht)

/-- The counter after one change. -/
theorem Locked.count_change (h : Locked s) (hch : Change (s.ctl t) s.data k y) :
    y.locksCount.toNat < 2 ^ 32 - 1 ∧ (k.owns = true → y.locksCount.toNat = k.depth) ∧
      (k.owns = false → k.depth = 0) ∧ (flag.taken y = false → y.locksCount.toNat = 0) := by
  have hbound := h.bound
  have hown : ∀ h' : Caller T, k.caller = h' → k.owns = h'.owns ∧ k.depth = h'.depth :=
    fun h' he => by
      subst he
      exact ⟨rfl, rfl⟩
  cases hch with
  | quiet hk _ hn hy | write _ hk _ _ hn hy =>
      obtain ⟨ho, hd⟩ := hown _ hk
      rw [ho, hd, hn, hy]
      exact ⟨hbound, h.count t, h.other t, h.free⟩
  | acquire hk _ _ hn hx hy =>
      obtain ⟨ho, hd⟩ := hown _ hk
      have hzero := h.free hx
      have hdepth : (s.ctl t).depth = 0 := h.other t (h.excl.nobody hx t)
      rw [ho, hd, hn, hy]
      refine ⟨hbound, fun _ => ?_, nofun, nofun⟩
      rw [hzero]
      exact hdepth.symm
  | count n hc hk _ _ hb hn hy =>
      obtain ⟨ho, hd⟩ := hown _ hk
      have htaken : flag.taken s.data = true := h.excl.flag.mpr ⟨t, hc⟩
      rw [ho, hd, hn, hy, htaken]
      refine ⟨hb, fun _ => rfl, fun hno => ?_, nofun⟩
      rw [show (s.ctl t).caller.owns = true from hc] at hno
      cases hno
  | release hc _ hd _ hk _ _ hn _ =>
      obtain ⟨ho, hd'⟩ := hown _ hk
      rw [ho, hd', hn]
      refine ⟨hbound, nofun, fun _ => hd, fun _ => ?_⟩
      rw [h.count t hc, hd]

end

theorem Locked.step (hs : Step code s e s') (h : Locked s) : Locked s' := by
  have hchange : ∀ t, Jump code s.now (s.ctl t) s.data (s'.ctl t) s'.data →
      Change (s.ctl t) s.data (s'.ctl t) s'.data ∧ Ready s'.data (s'.ctl t) := fun t hj =>
    change_of_jump hj (h.known t)
  -- whoever has the lock sees nothing of what the others do
  have hsame : ∀ t u, u ≠ t → Jump code s.now (s.ctl t) s.data (s'.ctl t) s'.data →
      (s.ctl u).owns = true →
      s'.data.tid = s.data.tid ∧ s'.data.locksCount = s.data.locksCount := fun t u hu hj ho =>
    (hchange t hj).1.same (h.owns_false ho (Ne.symm hu))
  have hexcl := h.excl.step (fun t hj => (hchange t hj).1.hold) hs
  have hdata : s'.data.locksCount.toNat < 2 ^ 32 - 1 ∧
      (flag.taken s'.data = false → s'.data.locksCount.toNat = 0) := by
    rcases hs.jump with ⟨_, hd⟩ | ⟨t, _, hj⟩
    · rw [hd]
      exact ⟨h.bound, h.free⟩
    · obtain ⟨hbound, _, _, hfree⟩ := h.count_change (hchange t hj).1
      exact ⟨hbound, hfree⟩
  have hme : ∀ u, (s'.ctl u).caller.thisTid = u := by
    refine hs.forall_ctl (Q := fun u (c : Ctl T) _ => c.caller.thisTid = u) (fun t hj => ?_)
      (fun _ _ _ _ hme => hme) h.me
    rw [(hchange t hj).1.thisTid, h.me]
  have hcount : ∀ u, (s'.ctl u).owns = true → s'.data.locksCount.toNat = (s'.ctl u).depth := by
    refine hs.forall_ctl (Q := fun _ (c : Ctl T) x => c.owns = true → x.locksCount.toNat = c.depth)
      (fun t hj => (h.count_change (hchange t hj).1).2.1) (fun t u hu hj hcount ho => ?_) h.count
    rw [(hsame t u hu hj ho).2]
    exact hcount ho
  have hother : ∀ u, (s'.ctl u).owns = false → (s'.ctl u).depth = 0 :=
    hs.forall_ctl (Q := fun _ (c : Ctl T) _ => c.owns = false → c.depth = 0)
      (fun t hj => (h.count_change (hchange t hj).1).2.2.1) (fun _ _ _ _ hzero => hzero) h.other
  have htid : ∀ u, s'.data.tid = some u → (s'.ctl u).owns = true := by
    refine hs.forall_ctl (Q := fun u (c : Ctl T) x => x.tid = some u → c.owns = true)
      (fun t hj ht => ?_) (fun t u hu hj htid ht => ?_) h.tid
    · cases (hchange t hj).1 with
      | quiet hk hkeep | count _ _ hk _ hkeep =>
          rw [Ctl.owns, hk]
          exact h.tid t (hkeep ▸ ht)
      | acquire hk => rw [Ctl.owns, hk]
      | write ho hk =>
          rw [Ctl.owns, hk]
          exact ho
      | release _ _ _ hx _ _ hkeep =>
          -- `m_tid` is cleared before the inner lock is given back
          rw [hkeep, hx] at ht
          cases ht
    · cases (hchange t hj).1 with
      | quiet _ hkeep | acquire _ _ hkeep | count _ _ _ _ hkeep => exact htid (hkeep ▸ ht)
      | write _ _ _ hw =>
          rcases hw with hw | hw
          · rw [hw, h.me t] at ht
            exact absurd (Option.some.inj ht).symm hu
          · rw [hw] at ht
            cases ht
      | release _ _ _ hx _ _ hkeep =>
          rw [hkeep, hx] at ht
          cases ht
  have hready : ∀ u, Ready s'.data (s'.ctl u) :=
    hs.forall_ctl (Q := fun _ c x => Ready x c) (fun t hj => (hchange t hj).2)
      (fun t u hu hj hr => hr.transfer fun ho => (hsame t u hu hj ho).1) h.ready
  exact ⟨hme, hexcl, hdata.1, hcount, hother, hdata.2, htid, hready⟩

theorem locked_reachable (h : (machine T).Reachable s) : Locked s := by
  refine Lib.Machine.Reach.invariant ?_ ?_ h
  · rintro s ⟨now, rfl⟩
    exact ⟨fun _ => rfl, exclusive_start (fun _ => rfl) rfl, Nat.zero_lt_succ _, nofun,
      fun _ _ => rfl, fun _ => rfl, nofun, fun _ => nofun⟩
  · intro s e s' _ _ hs hi
    exact hi.step (step_of_next hs)

/-! ## An acquisition that is refused -/

/-- The owner, the depth and the inner lock are the same. -/
def Same (x y : Data T) : Prop :=
  y.tid = x.tid ∧ y.locksCount = x.locksCount ∧ flag.taken y = flag.taken x

omit [DecidableEq T] in
theorem Same.trans {x y z : Data T} (h : Same x y) (h' : Same y z) : Same x z :=
  ⟨h'.1.trans h.1, h'.2.1.trans h.2.1, h'.2.2.trans h.2.2⟩

/-- A worker inside an acquisition has come there from its own code. -/
theorem acquiring_of_jump (hj : Jump code now c x k y) (ha : k.acquiring = true) :
    c.acquiring = true ∨ c.isIdle = true := by
  cases goes_of_jump hj with
  | calls => exact Or.inr rfl
  | lockOwn | lockEnter | lockFull | lockOn | tryOwn | tryEnter | tryFull | tryOn | tryFails =>
      exact Or.inl rfl
  | _ => cases ha

/-- Nobody gets into an acquisition but by calling it. -/
theorem acquiring_of_next (hs : next code s e = some s')
    (he : ∀ k, e ≠ .choose t k) (ha : (s'.ctl t).acquiring = true) :
    (s.ctl t).acquiring = true := by
  rcases jump_of_next hs he with hc | ⟨hno, hj⟩
  · rwa [hc] at ha
  · rcases acquiring_of_jump hj ha with hin | hidle
    · exact hin
    · cases hc : s.ctl t with
      | idle h => exact absurd (by rw [hc]; rfl) (hno (Ctl.calls h))
      | _ =>
          rw [hc] at hidle
          cases hidle

/-- A worker inside an acquisition changes nothing; while it has the lock, nobody does. -/
theorem acquiring_step (hl : Locked s) (hs : Step code s e s') (ha : (s'.ctl t).acquiring = true)
    (hc : (s.ctl t).acquiring = true) : (s'.ctl t).caller = (s.ctl t).caller ∧
      ((s.ctl t).owns = true → Same s.data s'.data) := by
  rcases hs.jump with ⟨hctl, hd⟩ | ⟨u, hctl, hj⟩
  · rw [hctl, hd]
    exact ⟨rfl, fun _ => ⟨rfl, rfl, rfl⟩⟩
  · obtain ⟨hch, _⟩ := change_of_jump hj (hl.known u)
    by_cases hu : u = t
    · subst hu
      cases hch with
      | quiet hk ht hn hy => exact ⟨hk, fun _ => ⟨ht, hn, hy⟩⟩
      | acquire _ hno | write _ _ hno | count _ _ _ hno | release _ _ _ _ _ hno =>
          rw [ha] at hno
          cases hno
    · have hkeep : s'.ctl t = s.ctl t := by rw [hctl, Function.update_of_ne (Ne.symm hu)]
      rw [hkeep]
      -- while the worker has the lock, another one can only fail to get it
      refine ⟨rfl, fun ho => ?_⟩
      obtain ⟨htid, hcount⟩ := hch.same (hl.owns_false ho hu)
      have htaken : flag.taken s.data = true := hl.excl.flag.mpr ⟨t, ho⟩
      have htaken' : flag.taken s'.data = true :=
        (hl.step hs).excl.flag.mpr ⟨t, by rw [hkeep, ho]⟩
      exact ⟨htid, hcount, by rw [htaken, htaken']⟩

omit [DecidableEq T] in
theorem acquiring_of_refused (h : c.refused = true) : c.acquiring = true := by
  unfold Ctl.refused at h
  split at h
  · rfl
  · rfl
  · cases h

/-- **A refused acquisition** has changed nothing, and neither has anybody else. -/
theorem refused_run (es : List (Event T (Ctl T))) (h : (machine T).Reachable s)
    (hr : (machine T).run s es = some s') (he : ∀ e ∈ es, ∀ k, e ≠ .choose t k)
    (hf : (s'.ctl t).refused = true) : (s'.ctl t).caller = (s.ctl t).caller ∧
      ((s.ctl t).owns = true → Same s.data s'.data) := by
  obtain ⟨_, hmeets⟩ := Lib.Machine.meets_of_back (A := fun s => (s.ctl t).acquiring = true)
    (fun s e s' _ he hn ha => acquiring_of_next hn he ha) es h hr he
    (acquiring_of_refused hf)
  refine Lib.Machine.Meets.rel (M := machine T) (s := s)
    (R := fun s s' => (s'.ctl t).caller = (s.ctl t).caller ∧
      ((s.ctl t).owns = true → Same s.data s'.data)) (fun s => ⟨rfl, fun _ => ⟨rfl, rfl, rfl⟩⟩)
    ?_ (hmeets.mono fun q e hq q' hn => ?_) hr
  · intro a b c hab hbc
    refine ⟨hbc.1.trans hab.1, fun ho => (hab.2 ho).trans (hbc.2 ?_)⟩
    rw [Ctl.owns, hab.1]
    exact ho
  · obtain ⟨hreach, ha, hkeep⟩ := hq
    exact acquiring_step (locked_reachable hreach) (step_of_next hn) (hkeep q' hn) ha

/-! ## The interface -/

theorem act_of_counts (hc : c.counts = true) : ∃ f, code c = .act f := by
  unfold Ctl.counts at hc
  split at hc
  case h_3 => cases hc
  all_goals exact ⟨_, rfl⟩

/-- At its limit the counter refuses, and nothing has happened; below it, it counts. -/
theorem limit_of_jump (hj : Jump code now c x k y) (hk : Known c x) (hc : c.counts = true) :
    (x.locksCount.toNat + 1 < 2 ^ 32 - 1 ∧ k.refused = false ∧ k.depth = c.depth + 1) ∨
      (x.locksCount.toNat + 1 = 2 ^ 32 - 1 ∧ k.refused = true ∧ y = x ∧ k.caller = c.caller) := by
  cases goes_of_jump hj with
  | lockAgain hn | tryAgain hn => exact Or.inl ⟨(rmtxIncLc_counts hk.bound hn).1, rfl, rfl⟩
  | lockFull hn | tryFull hn =>
      obtain ⟨he, hsame⟩ := inc_full hk.bound hn
      exact Or.inr ⟨he, rfl, hsame, rfl⟩
  | _ => cases hc

omit [DecidableEq T] in
/-- The depth is zero on the way in and on the way out only. -/
theorem depth_eq_zero (hr : Ready x c) (hc : c.owns = true) :
    c.depth = 0 ↔ c.entering = true ∨ c.releasing = true := by
  have hset : Settled x c.caller → c.depth ≠ 0 := fun hs => Nat.pos_iff_ne_zero.mp (hs hc).2
  cases c with
  | idle h => simpa [Ctl.entering, Ctl.releasing] using hset hr
  | lock h p =>
      cases p with
      | tidLoad | plain | leave => simpa [Ctl.entering, Ctl.releasing] using hset hr
      | again => simpa [Ctl.entering, Ctl.releasing] using hset hr.2
      | tidStore => simpa [Ctl.entering, Ctl.depth, Ctl.caller] using hr.2
      | inc => simpa [Ctl.entering, Ctl.depth, Ctl.caller] using hr.2.1
  | tryLock h p =>
      cases p with
      | tidLoad | spin | leave => simpa [Ctl.entering, Ctl.releasing] using hset hr
      | again => simpa [Ctl.entering, Ctl.releasing] using hset hr.2
      | tidStore =>
          simpa [Ctl.entering, Ctl.releasing, Ctl.depth, Ctl.caller] using
            Nat.pos_iff_ne_zero.mp hr.2
      | inc => simpa [Ctl.entering, Ctl.depth, Ctl.caller] using hr.2
  | unlock h p =>
      cases p with
      | dec => simpa [Ctl.entering, Ctl.releasing] using hset hr.2
      | tidStore => simpa [Ctl.releasing, Ctl.depth, Ctl.caller] using hr.2
      | flagStore => simpa [Ctl.releasing, Ctl.depth, Ctl.caller] using hr.2.1

/-- What a recursive mutex promises to its workers. -/
structure Reentrant (s : State T Empty Empty (Data T) (Ctl T)) : Prop where
  /-- One worker has it at most. -/
  unique : ∀ t u, (s.ctl t).owns = true → (s.ctl u).owns = true → t = u
  /-- The inner lock says whether one has. -/
  flag : flag.taken s.data = true ↔ ∃ t, (s.ctl t).owns = true
  /-- `m_locks_count` is the acquisitions of the holder minus its unlocks. -/
  count : ∀ t, (s.ctl t).owns = true → s.data.locksCount.toNat = (s.ctl t).depth
  /-- It is zero, and nobody has any acquisition, while the mutex is free. -/
  free : (∀ t, (s.ctl t).owns = false) →
    s.data.locksCount = 0#32 ∧ ∀ t, (s.ctl t).depth = 0
  /-- It is always below `max_rec_locks`. -/
  bound : s.data.locksCount.toNat < maxRecLocks.toNat
  /-- `m_tid` is a worker only while that worker has the mutex. -/
  tid : ∀ t, s.data.tid = some t → (s.ctl t).owns = true
  /-- Outside the operations the holder is in `m_tid`, and is who has acquired the mutex. -/
  outside : ∀ t, (s.ctl t).isIdle = true → ((s.ctl t).owns = true → s.data.tid = some t) ∧
    ((s.ctl t).owns = true ↔ 0 < (s.ctl t).depth)
  /-- The inner lock is released by a holder whose depth has returned to zero. -/
  released : ∀ e s', (machine T).next s e = some s' → RecursiveMutex.flag.taken s.data = true →
    RecursiveMutex.flag.taken s'.data = false → ∃ t, (s.ctl t).owns = true ∧
      (s.ctl t).releasing = true ∧ (s.ctl t).depth = 0 ∧ (s'.ctl t).owns = false
  /-- The depth of a holder that is not just coming in is zero only on the way to that release. -/
  releases : ∀ t, (s.ctl t).owns = true →
    ((s.ctl t).depth = 0 ↔ (s.ctl t).entering = true ∨ (s.ctl t).releasing = true)
  /-- The holder is refused exactly at the limit, and then nothing has changed. -/
  limit : ∀ t s', (machine T).next s (.step t) = some s' → (s.ctl t).counts = true →
    (s.data.locksCount.toNat + 1 < maxRecLocks.toNat ∧ (s'.ctl t).refused = false ∧
      (s'.ctl t).depth = (s.ctl t).depth + 1) ∨
    (s.data.locksCount.toNat + 1 = maxRecLocks.toNat ∧ (s'.ctl t).refused = true ∧
      s'.data = s.data ∧ (s'.ctl t).caller = (s.ctl t).caller)
  /-- A call that ends with a refusal has left the owner, the depth and the inner lock alone. -/
  refused : ∀ es s' t, (machine T).run s es = some s' → (∀ e ∈ es, ∀ k, e ≠ .choose t k) →
    (s'.ctl t).refused = true → (s'.ctl t).caller = (s.ctl t).caller ∧
      ((s.ctl t).owns = true → Same s.data s'.data)

/-- **The recursive mutex is a reentrant lock**, in every state its workers can reach. -/
theorem recursive_mutex_reentrant (h : (machine T).Reachable s) : Reentrant s := by
  have hl := locked_reachable h
  have hmax : maxRecLocks.toNat = 2 ^ 32 - 1 := rfl
  refine ⟨hl.excl.unique, hl.excl.flag, hl.count, fun hno => ⟨?_, fun t => hl.other t (hno t)⟩, ?_,
    hl.tid, fun t hi => ?_, fun e s' hs hx hy => ?_, fun t ho => depth_eq_zero (hl.ready t) ho,
    fun t s' hs hc => ?_, fun es s' t hr he hf => refused_run es h hr he hf⟩
  · -- without a holder the flag is clear, and the counter is zero then
    rw [eq_zero_iff_toNat]
    refine hl.free ?_
    by_contra hx
    obtain ⟨t, ht⟩ := hl.excl.flag.mp (by simpa using hx)
    rw [hno t] at ht
    cases ht
  · rw [hmax]
    exact hl.bound
  · have hr := hl.ready t
    cases hc : s.ctl t with
    | idle h' =>
        rw [hc] at hr
        have hme : h'.thisTid = t := by
          have := hl.me t
          rwa [hc] at this
        refine ⟨fun ho => by rw [(hr ho).1, Ctl.caller, hme], fun ho => (hr ho).2, fun hd => ?_⟩
        by_contra hno
        have hz := hl.other t (by rw [hc]; simpa using hno)
        rw [hc] at hz
        omega
    | _ =>
        rw [hc] at hi
        cases hi
  · -- only a release clears the flag
    rcases (step_of_next hs).jump with ⟨_, hd⟩ | ⟨t, _, hj⟩
    · rw [hd, hx] at hy
      cases hy
    · obtain ⟨hch, _⟩ := change_of_jump hj (hl.known t)
      cases hch with
      | release hc hr hd _ hk =>
          refine ⟨t, hc, hr, hd, ?_⟩
          rw [Ctl.owns, hk]
      | quiet _ _ _ hy' | acquire _ _ _ _ _ hy' | write _ _ _ _ _ hy' | count _ _ _ _ _ _ _ hy' =>
          rw [hy] at hy'
          first | cases hy' | (rw [hx] at hy'; cases hy')
  · rw [hmax]
    have hst : Step code s (.step t) s' := step_of_next hs
    obtain ⟨f, hf⟩ := act_of_counts hc
    exact limit_of_jump (hst.jump_of_act hf) (hl.known t) hc

/-- A worker has locked the mutex twice, and another one fails to get it. -/
theorem recursive_mutex_reentrant_run : ∃ s, (machine (Fin 2)).Reachable s ∧
    s.data.locksCount.toNat = 2 ∧ (s.ctl 0).depth = 2 ∧ s.data.tid = some 0 ∧
    (s.ctl 1).refused = true ∧ (s.ctl 1).owns = false := by
  obtain ⟨s, hr, hp⟩ := Lib.Machine.exists_of_run (M := machine (Fin 2))
    (p := fun s => decide (s.ctl 0 = .idle ⟨0, true, 2⟩ ∧ (s.ctl 1).refused = true))
    (.init ⟨0, rfl⟩)
    (List.flatten [
      [.choose 0 (.lock { thisTid := 0 } .tidLoad)], List.replicate 6 (.step 0),
      [.choose 0 (.tryLock ⟨0, true, 1⟩ .tidLoad)], List.replicate 3 (.step 0),
      [.choose 1 (.tryLock { thisTid := 1 } .tidLoad)], List.replicate 2 (.step 1)])
    (by decide +kernel)
  obtain ⟨h0, h1⟩ := of_decide_eq_true hp
  have hre := recursive_mutex_reentrant hr
  have howns : (s.ctl 0).owns = true := by rw [h0]; rfl
  have hdepth : (s.ctl 0).depth = 2 := by rw [h0]; rfl
  refine ⟨s, hr, ?_, hdepth, (hre.outside 0 (by rw [h0]; rfl)).1 howns, h1, ?_⟩
  · rw [hre.count 0 howns, hdepth]
  · by_contra hne
    cases hre.unique 0 1 howns (by simpa using hne)

end

end Ums.RecursiveMutex
