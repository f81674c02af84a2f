import Ums.Lib.Lock
import Ums.Monitor.History
import Ums.Mutex.Exclusion
import Ums.Mutex.Recursive

/-!
# What the mutexes tell their callers

`Mutex` and `Recursive_mutex` are linearizable locks. An acquisition takes effect as it sets
the flag of the spinlock, or else as it counts; a refusal as it has found the flag or the
limit; and `unlock` takes effect as it returns. So a worker between the two stores of `unlock`
still has the lock, and a `try_lock` that fails then fails for a reason.
-/

namespace Ums

open Monitor
open Lib (Object Status LockOp LockRes LockEff lock)

variable {T : Type} [DecidableEq T]

namespace Mutex

/-- How often a worker has the lock. -/
def held (c : Ctl T) : Nat := if c.owns then 1 else 0

/-- Where a worker is in an operation. -/
def status : Ctl T → Status LockOp LockRes
  | .idle _ => .away
  | .lock _ .tidStore => .leaving .acquired
  | .lock _ .threw => .leaving .refused
  | .lock .. => .calling .lock
  | .tryLock _ (.leave true) => .leaving .acquired
  | .tryLock _ (.leave false) => .leaving .refused
  | .tryLock .. => .calling .tryLock
  | .unlock .. => .calling .unlock

variable {s : State T Empty Empty (Data T) (Ctl T)} {t u : T} {k : Ctl T} {y : Data T}

section

omit [DecidableEq T]

theorem held_of_owns {c : Ctl T} (h : c.owns = true) : held c = 1 := if_pos h

theorem held_of_not_owns {c : Ctl T} (h : c.owns = false) : held c = 0 := by
  rw [held, h]
  rfl

theorem held_congr {c : Ctl T} (h : k.caller = c.caller) : held k = held c := by
  rw [held, held, Ctl.owns, Ctl.owns, h]

end

theorem status_of_calls {h : Caller T} (hk : k.calls h = true) : ∃ o, status k = .calling o := by
  unfold Ctl.calls at hk
  split at hk
  case h_4 => cases hk
  all_goals exact ⟨_, rfl⟩

/-- A lock that is taken refuses: somebody else has it, or the caller itself. -/
theorem refuses (hl : Locked s) (hx : flag.taken s.data = true) :
    LockEff 1 (fun _ => false) t .tryLock (held ∘ s.ctl) (some .refused) (held ∘ s.ctl) := by
  obtain ⟨u, hu⟩ := hl.excl.flag.mp hx
  have hone : held (s.ctl u) = 1 := held_of_owns hu
  by_cases hut : u = t
  · rw [hut] at hone
    exact .full (by decide) hone
  · refine .busy (Or.inl rfl) hut ?_
    rw [Function.comp_apply, hone]
    exact Nat.one_pos

/-- A worker that sets the flag acquires the lock: nobody had it. -/
theorem acquires {o : LockOp} (hl : Locked s) (hx : flag.taken s.data = false) (ho : o ≠ .unlock) :
    LockEff 1 (fun _ => false) t o (held ∘ s.ctl) (some .acquired)
      (Function.update (held ∘ s.ctl) t 1) := by
  have hnone : ∀ u, (held ∘ s.ctl) u = 0 := fun u => held_of_not_owns (hl.excl.nobody hx u)
  refine .acquires_to ho (fun u _ => hnone u) ?_ ?_
  · rw [hnone t]
    exact Nat.one_pos
  · rw [hnone t]

/-- **Every jump is a move of a lock** that one worker has once. -/
theorem moves_of_jump (hl : Locked s) (hj : Jump code s.now (s.ctl t) s.data k y) :
    (lock T 1 fun _ => false).Moves (fun _ => .released) t (held ∘ s.ctl)
      (held ∘ Function.update s.ctl t k) (status (s.ctl t)) (status k) := by
  have hr := hl.ready t
  rw [Function.comp_update]
  have hstay : k.caller = (s.ctl t).caller →
      Function.update (held ∘ s.ctl) t (held k) = held ∘ s.ctl := fun hk => by
    rw [Function.update_eq_self_iff, held_congr hk]
    rfl
  generalize hc : s.ctl t = c at hj hr hstay
  have hg := goes_of_jump hj
  cases hg with
  | calls hk =>
      obtain ⟨hh, -⟩ := calls_quiet (x := s.data) hk
      obtain ⟨o, ho⟩ := status_of_calls hk
      rw [ho]
      exact .call (hstay hh)
  | lockRefused htid =>
      -- it has the lock, so it has it as often as it may
      have ho : (s.ctl t).owns = true := by
        refine hl.tid t ?_
        rw [htid, ← hl.me t, hc]
        rfl
      rw [hstay rfl]
      exact .effect (.full (by decide) (held_of_owns ho))
  | lockEnter | lockOn | tryOn => exact .stay (hstay rfl)
  | lockTakes hw => cases hw with | won hx _ => exact .effect (acquires hl hx (by decide))
  | tryTakes hw => cases hw with | won hx _ => exact .effect (acquires hl hx (by decide))
  | tryFails hw =>
      rw [hstay rfl]
      exact .effect (refuses hl (taken_of_tryFails hj))
  | lockNames | lockThrows => exact .ret (hstay rfl)
  | @tryLeave h r => cases r <;> exact .ret (hstay rfl)
  | unlockTid => exact .stay (hstay rfl)
  | unlockFlag =>
      have hone : (held ∘ s.ctl) t = 1 := by
        rw [Function.comp_apply, hc]
        exact held_of_owns hr.1
      refine .direct (.releases_to ?_ ?_)
      · rw [hone]
        exact Nat.one_pos
      · rw [hone]
        rfl

/--
**A mutex is a linearizable lock.** Whatever its callers and it say to each other, a lock says
that is acquired and given up in one piece, that refuses its holder, and whose `try_lock` fails
only while somebody has it. So nobody is told that it has the lock while somebody else has been
told so and has not called `unlock`.
-/
theorem mutex_linearizable (T : Type) [DecidableEq T] :
    Object.Linearizable (machine T) (sayings code status fun _ => .released)
      (lock T 1 fun _ => false) ∧
    ∀ s es s', (machine T).init s → (machine T).run s es = some s' →
      ∀ t u, 0 < Lib.kept t ((machine T).log (sayings code status fun _ => .released) s es) →
        0 < Lib.kept u ((machine T).log (sayings code status fun _ => .released) s es) → t = u := by
  have hlin : Object.Linearizable (machine T) (sayings code status fun _ => .released)
      (lock T 1 fun _ => false) := by
    refine linearizable_of_jumps (fun ctl _ => held ∘ ctl) (fun _ => rfl) (fun _ => rfl) ?_
    intro s t k y hr hj
    exact moves_of_jump (locked_reachable hr) hj
  refine ⟨hlin, fun s es s' hi hr t u ht hu => ?_⟩
  exact hlin.exclusive hi hr ht hu

end Mutex

namespace RecursiveMutex

/-- How often a worker has the lock; on its way in and out it has it once. -/
def held (c : Ctl T) : Nat := if c.owns then max c.depth 1 else 0

/-- Where a worker is in an operation. -/
def status : Ctl T → Status LockOp LockRes
  | .idle _ => .away
  | .lock _ .tidStore | .lock _ .inc | .lock _ (.leave true) => .leaving .acquired
  | .lock _ (.leave false) => .leaving .refused
  | .lock .. => .calling .lock
  | .tryLock _ .inc | .tryLock _ .tidStore | .tryLock _ (.leave true) => .leaving .acquired
  | .tryLock _ (.leave false) => .leaving .refused
  | .tryLock .. => .calling .tryLock
  | .unlock .. => .calling .unlock

/-- The counter stops below `max_rec_locks`. -/
def limit : Nat := 2 ^ 32 - 2

variable {s s' : State T Empty Empty (Data T) (Ctl T)} {t u : T} {c k : Ctl T} {x y : Data T}
  {now : Time} {e : Event T (Ctl T)}

section

omit [DecidableEq T]

theorem held_of_not_owns (h : c.owns = false) : held c = 0 := by
  rw [held, h]
  rfl

theorem held_of_owns (h : c.owns = true) : held c = max c.depth 1 := if_pos h

theorem held_of_depth (h : c.owns = true) (hd : 0 < c.depth) : held c = c.depth := by
  rw [held_of_owns h]
  omega

theorem held_first (h : c.owns = true) (hd : c.depth = 0) : held c = 1 := by
  rw [held_of_owns h, hd]
  rfl

theorem held_congr (h : k.caller = c.caller) : held k = held c := by
  rw [held, held, Ctl.owns, Ctl.owns, Ctl.depth, Ctl.depth, h]

/-- Counting for the first time makes no difference. -/
theorem held_deeper (h : c.owns = true) (hd : c.depth = 0) (hk : k.caller = c.caller.deeper) :
    held k = held c := by
  have hdepth : k.depth = 1 := by
    rw [Ctl.depth, hk]
    change c.depth + 1 = 1
    rw [hd]
  have howns : k.owns = true := by
    rw [Ctl.owns, hk]
    exact h
  rw [held_first h hd, held_of_owns howns, hdepth]
  rfl

end

theorem status_of_calls {h : Caller T} (hk : k.calls h = true) : ∃ o, status k = .calling o := by
  unfold Ctl.calls at hk
  split at hk
  case h_4 => cases hk
  all_goals exact ⟨_, rfl⟩

/-! ## Who tries for the inner lock -/

/-- The worker is trying to get the inner lock. -/
def outside : Ctl T → Bool
  | .lock _ (.plain _) | .tryLock _ (.spin _) => true
  | _ => false

theorem lock_enters {h : Caller T} {p : Mutex.PlainPoint}
    (hj : Jump code now (.lock h .tidLoad) x (.lock h (.plain p)) y) :
    x.tid ≠ some h.thisTid := by
  intro ht
  generalize hk : Ctl.lock h (.plain p) = k at hj
  cases hj with
  | act hc =>
      cases hc
      simp only [if_pos ht] at hk
      cases hk
  | _ hc => cases hc

theorem tryLock_enters {h : Caller T} {p : Mutex.SpinPoint}
    (hj : Jump code now (.tryLock h .tidLoad) x (.tryLock h (.spin p)) y) :
    x.tid ≠ some h.thisTid := by
  intro ht
  generalize hk : Ctl.tryLock h (.spin p) = k at hj
  cases hj with
  | act hc =>
      cases hc
      simp only [if_pos ht] at hk
      cases hk
  | _ hc => cases hc

/-- Whoever goes for the inner lock has found that it has not got it. -/
theorem outside_of_jump (hj : Jump code now c x k y) (hr : Ready x c)
    (hc : outside c = true → c.owns = false) (hk : outside k = true) : k.owns = false := by
  have hg := goes_of_jump hj
  cases hg with
  | calls hcall =>
      unfold Ctl.calls at hcall
      split at hcall <;> first | cases hk | cases hcall
  | lockEnter =>
      by_contra hne
      exact lock_enters hj (hr ((Bool.not_eq_false _).mp hne)).1
  | tryEnter =>
      by_contra hne
      exact tryLock_enters hj (hr ((Bool.not_eq_false _).mp hne)).1
  | lockOn | tryOn => exact hc rfl
  | _ => cases hk

theorem outside_reachable (h : (machine T).Reachable s) :
    ∀ t, outside (s.ctl t) = true → (s.ctl t).owns = false := by
  refine Lib.Machine.Reach.invariant (I := fun s : State T Empty Empty (Data T) (Ctl T) =>
    ∀ t, outside (s.ctl t) = true → (s.ctl t).owns = false) ?_ ?_ h
  · rintro s ⟨now, rfl⟩ t ht
    cases ht
  · intro s e s' hr _ hs hi
    have hl := locked_reachable hr
    refine (step_of_next hs).forall_ctl
      (Q := fun _ (c : Ctl T) _ => outside c = true → c.owns = false) (fun t hj => ?_)
      (fun _ _ _ _ hout => hout) hi
    exact outside_of_jump hj (hl.ready t) (hi t)

/-! ## A lock that one worker has many times -/

omit [DecidableEq T] in
/-- What the other workers have while one has the lock. -/
theorem held_others (hl : Locked s) (ht : (s.ctl t).owns = true) (u : T) (hu : u ≠ t) :
    (held ∘ s.ctl) u = 0 :=
  held_of_not_owns (hl.owns_false ht hu)

/-- A worker that sets the flag acquires the lock: nobody had it. -/
theorem acquires {o : LockOp} (hl : Locked s) (hx : flag.taken s.data = false) (ho : o ≠ .unlock)
    (hk : held k = 1) :
    LockEff limit (fun _ => false) t o (held ∘ s.ctl) (some .acquired)
      (Function.update (held ∘ s.ctl) t (held k)) := by
  have hnone : ∀ u, (held ∘ s.ctl) u = 0 := fun u => held_of_not_owns (hl.excl.nobody hx u)
  refine .acquires_to ho (fun u _ => hnone u) ?_ ?_
  · rw [hnone t, limit]
    omega
  · rw [hnone t, hk]

/-- A worker that has the lock acquires it once more. -/
theorem acquires_again {o : LockOp} (hl : Locked s) (hc : s.ctl t = c) (hx : c.owns = true)
    (hd : 0 < c.depth) (hn : (rmtxIncLc s.data.locksCount).2 = true) (ho : o ≠ .unlock)
    (hk : k.caller = c.caller.deeper) :
    LockEff limit (fun _ => false) t o (held ∘ s.ctl) (some .acquired)
      (Function.update (held ∘ s.ctl) t (held k)) := by
  subst hc
  have hcount := hl.count t hx
  have hlt := (rmtxIncLc_counts hl.bound hn).1
  have hheld : (held ∘ s.ctl) t = (s.ctl t).depth := held_of_depth hx hd
  have hdeeper : held k = (s.ctl t).depth + 1 := by
    rw [held, Ctl.owns, Ctl.depth, hk]
    change (if (s.ctl t).owns = true then max ((s.ctl t).depth + 1) 1 else 0) = _
    rw [if_pos hx]
    omega
  refine .acquires_to ho (held_others hl hx) ?_ ?_
  · rw [hheld, limit]
    omega
  · rw [hheld, hdeeper]

/-- A worker that has the lock as often as it may is refused. -/
theorem refuses_full {o : LockOp} (hl : Locked s) (hx : (s.ctl t).owns = true)
    (hd : 0 < (s.ctl t).depth) (hn : ¬(rmtxIncLc s.data.locksCount).2 = true) (ho : o ≠ .unlock) :
    LockEff limit (fun _ => false) t o (held ∘ s.ctl) (some .refused) (held ∘ s.ctl) := by
  have hcount := hl.count t hx
  have hfull := (inc_full hl.bound hn).1
  refine .full ho ?_
  rw [Function.comp_apply, held_of_depth hx hd, limit]
  omega

/-- A `try_lock` that finds the flag set is refused: somebody else has the lock. -/
theorem refuses_busy (hl : Locked s) (hout : (s.ctl t).owns = false)
    (hx : flag.taken s.data = true) :
    LockEff limit (fun _ => false) t .tryLock (held ∘ s.ctl) (some .refused) (held ∘ s.ctl) := by
  obtain ⟨u, hu⟩ := hl.excl.flag.mp hx
  have hne : u ≠ t := by
    rintro rfl
    rw [hout] at hu
    cases hu
  refine .busy (Or.inl rfl) hne ?_
  rw [Function.comp_apply, held_of_owns hu]
  omega

theorem tryLock_refused {h : Caller T} {p : Mutex.SpinPoint}
    (hj : Jump code now (.tryLock h (.spin p)) x (.tryLock h (.leave false)) y) :
    flag.taken x = true := by
  have hc : code (.tryLock h (.spin p)) = tryLockCode h (.spin p) := rfl
  rw [tryLockCode] at hc
  exact Mutex.Flag.tryLock_refused hc hj rfl (fun _ => by simp) (by simp)

/-- **Every jump is a move of a lock** that one worker has up to its limit. -/
theorem moves_of_jump (hl : Locked s)
    (hout : ∀ t, outside (s.ctl t) = true → (s.ctl t).owns = false)
    (hj : Jump code s.now (s.ctl t) s.data k y) :
    (lock T limit fun _ => false).Moves (fun _ => .released) t (held ∘ s.ctl)
      (held ∘ Function.update s.ctl t k) (status (s.ctl t)) (status k) := by
  have hr := hl.ready t
  have hk := hl.known t
  have hout := hout t
  rw [Function.comp_update]
  have hstay : held k = held (s.ctl t) →
      Function.update (held ∘ s.ctl) t (held k) = held ∘ s.ctl := fun hk => by
    rw [Function.update_eq_self_iff, hk]
    rfl
  generalize hc : s.ctl t = c at hj hr hk hout hstay
  have hg := goes_of_jump hj
  cases hg with
  | calls hcall =>
      obtain ⟨hh, -⟩ := calls_quiet hcall hr
      obtain ⟨o, ho⟩ := status_of_calls hcall
      rw [ho]
      exact .call (hstay (held_congr hh))
  | lockOwn | lockEnter | lockOn | tryOwn | tryEnter | tryOn => exact .stay (hstay rfl)
  | lockAgain hn | tryAgain hn =>
      exact .effect (acquires_again hl hc hr.1 (hr.2 hr.1).2 hn (by decide) rfl)
  | lockFull hn | tryFull hn =>
      rw [hstay rfl]
      refine .effect (refuses_full hl ?_ ?_ hn (by decide))
      · rw [hc]
        exact hr.1
      · rw [hc]
        exact (hr.2 hr.1).2
  | lockTakes hw | tryTakes hw =>
      cases hw with
      | won hx _ =>
          -- nobody has the lock while the flag is clear, not even this worker
          have hd := hk.other (hk.free hx)
          exact .effect (acquires hl hx (by decide) (held_first rfl hd))
  | tryFails hw =>
      rw [hstay rfl]
      refine .effect (refuses_busy hl ?_ (tryLock_refused hj))
      rw [hc]
      exact hout rfl
  | lockNames | tryNames => exact .stay (hstay rfl)
  | lockCounts => exact .stay (hstay (held_deeper hr.1 hr.2.1 rfl))
  | tryCounts => exact .stay (hstay (held_deeper hr.1 hr.2 rfl))
  | @lockLeave h r | @tryLeave h r => cases r <;> exact .ret (hstay rfl)
  | @unlockLast h h0 =>
      obtain ⟨-, hzero⟩ :=
        change_of_dec (k := .unlock { h with depth := h.depth - 1 } .tidStore) hk rfl rfl
      have hd : 0 < h.depth := (hr.2 hr.1).2
      have hone := hzero.mp h0
      refine .stay (hstay ?_)
      -- it gives the lock up with the store to the flag
      have hk : held (.unlock { h with depth := h.depth - 1 } .tidStore) = max (h.depth - 1) 1 :=
        held_of_owns hr.1
      have hc : held (.unlock h .dec) = max h.depth 1 := held_of_owns hr.1
      omega
  | @unlockDec h h0 =>
      obtain ⟨-, hzero⟩ := change_of_dec (k := .idle { h with depth := h.depth - 1 }) hk rfl rfl
      have hd : 0 < h.depth - 1 := Nat.pos_of_ne_zero fun hz => h0 (hzero.mpr hz)
      have hheld : (held ∘ s.ctl) t = h.depth := by
        rw [Function.comp_apply, hc]
        exact held_of_depth hr.1 (hr.2 hr.1).2
      refine .direct (.releases_to ?_ ?_)
      · omega
      · rw [hheld]
        exact held_of_depth hr.1 hd
  | unlockTid => exact .stay (hstay rfl)
  | unlockFlag =>
      have hone : (held ∘ s.ctl) t = 1 := by
        rw [Function.comp_apply, hc]
        exact held_first hr.1 hr.2.1
      refine .direct (.releases_to ?_ ?_)
      · omega
      · rw [hone]
        rfl

/--
**A recursive mutex is a linearizable lock.** Whatever its callers and it say to each other, a
lock says that one worker has up to `max_rec_locks - 1` times, that refuses only a worker that has
it so often, and whose `try_lock` fails only then or while somebody else has it. So nobody is told
that it has the lock while somebody else has been told so more often than it has called `unlock`.
-/
theorem recursive_mutex_linearizable (T : Type) [DecidableEq T] :
    Object.Linearizable (machine T) (sayings code status fun _ => .released)
      (lock T limit fun _ => false) ∧
    ∀ s es s', (machine T).init s → (machine T).run s es = some s' →
      ∀ t u, 0 < Lib.kept t ((machine T).log (sayings code status fun _ => .released) s es) →
        0 < Lib.kept u ((machine T).log (sayings code status fun _ => .released) s es) → t = u := by
  have hlin : Object.Linearizable (machine T) (sayings code status fun _ => .released)
      (lock T limit fun _ => false) := by
    refine linearizable_of_jumps (fun ctl _ => held ∘ ctl) (fun _ => rfl) (fun _ => rfl) ?_
    intro s t k y hr hj
    exact moves_of_jump (locked_reachable hr) (outside_reachable hr) hj
  refine ⟨hlin, fun s es s' hi hr t u ht hu => ?_⟩
  exact hlin.exclusive hi hr ht hu

end RecursiveMutex

end Ums
