import Ums.Lib.Lock
import Ums.Monitor.History
import Ums.TimedMutex.Recursive

/-!
# What the timed mutexes tell their callers

`Recursive_timed_mutex` and `Timed_mutex` are linearizable: an operation takes effect with
the statement that writes the owner and the counter, or `m_locked`, and a refusal with the one
that looks at them. `try_lock` gives up when somebody else has `m_mtx`, so it may fail for no
reason that its caller could know.
-/

namespace Ums

open Monitor
open Lib (Object Status LockOp LockRes LockEff lock GateEff gate)

variable {T : Type} [DecidableEq T]

/-- `try_lock` of a timed mutex may fail for no reason. -/
def mayFail (o : LockOp) : Bool := decide (o = .tryLock)

namespace RecursiveTimedMutex

/-- The counter stops below `max_rec_locks`. -/
def limit : Nat := 2 ^ 32 - 2

/-- What an acquisition answers. -/
def Outcome.res : Outcome → LockRes
  | .acquired => .acquired
  | .failed | .threw => .refused

/-- Where a worker is in an operation. -/
def status : Ctl T → Status LockOp LockRes
  | .idle _ => .away
  | .lock _ (.leave o) => .leaving o.res
  | .lock .. => .calling .lock
  | .tryLock _ (.leave o) => .leaving o.res
  | .tryLock _ .fail => .leaving .refused
  | .tryLock .. => .calling .tryLock
  | .tryLockUntil _ _ (.leave o) => .leaving o.res
  | .tryLockUntil .. => .calling .timedLock
  | .unlock _ .enter | .unlock _ .dec => .calling .unlock
  | .unlock .. => .leaving .released

variable {s : State T Unit Unit (Data T) (Ctl T)} {t : T} {c k : Ctl T} {x y : Data T} {now : Time}
  {o : LockOp}

theorem status_of_calls {h : Caller T} (hk : k.calls h = true) : ∃ o, status k = .calling o := by
  unfold Ctl.calls at hk
  split at hk
  case h_5 => cases hk
  all_goals exact ⟨_, rfl⟩

/-- A worker that waits has found that it is not the owner. -/
theorem waits_of_jump (hj : Jump code now c x k y)
    (hzero : x.tid ≠ some c.caller.thisTid → c.depth = 0)
    (hwait : c.waits.isSome = true → c.depth = 0) (hk : k.waits.isSome = true) : k.depth = 0 := by
  cases goes_of_jump hj with
  | calls hcall =>
      unfold Ctl.calls at hcall
      split at hcall <;> first | cases hk | cases hcall
  | lockWait ht | untilWait ht => exact hzero ht
  | lockOn | untilOn => exact hwait rfl
  | _ => cases hk

/-- Whoever waits for the lock has none. -/
theorem waits_alone (h : (machine T).Reachable s) :
    ∀ t, (s.ctl t).waits.isSome = true → (s.ctl t).depth = 0 := by
  refine Lib.Machine.Reach.invariant (I := fun s : State T Unit Unit (Data T) (Ctl T) =>
    ∀ t, (s.ctl t).waits.isSome = true → (s.ctl t).depth = 0) ?_ ?_ h
  · rintro s ⟨now, rfl⟩ t ht
    cases ht
  · intro s e s' hr _ hs hi
    have ho := owned_reachable hr
    refine (step_of_next hs).forall_ctl
      (Q := fun _ (c : Ctl T) _ => c.waits.isSome = true → c.depth = 0) (fun t hj => ?_)
      (fun _ _ _ _ hwait => hwait) hi
    refine waits_of_jump hj (fun ht => ?_) (hi t)
    rw [ho.me t] at ht
    exact ho.others t ht

/-- Counting the caller in acquires the lock. -/
theorem acquires (ho : Owned s)
    (hf : s.data.tid = some (s.ctl t).caller.thisTid ∨ s.data.locksCount = 0#32)
    (hn : (rmtxIncLc s.data.locksCount).2 = true) (hop : o ≠ .unlock)
    (hk : k.depth = (s.ctl t).depth + 1) :
    LockEff limit mayFail t o (Ctl.depth ∘ s.ctl) (some .acquired)
      (Function.update (Ctl.depth ∘ s.ctl) t k.depth) := by
  obtain ⟨-, hcount, hothers⟩ := ho.acquirable hf
  have hlt := (rmtxIncLc_counts ho.bound hn).1
  refine .acquires_to hop hothers ?_ hk
  rw [Function.comp_apply, limit]
  omega

/-- The owner that has the lock as often as it may is refused. -/
theorem refuses_full (ho : Owned s) (ht : s.data.tid = some (s.ctl t).caller.thisTid)
    (hn : ¬(rmtxIncLc s.data.locksCount).2 = true) (hop : o ≠ .unlock) :
    LockEff limit mayFail t o (Ctl.depth ∘ s.ctl) (some .refused) (Ctl.depth ∘ s.ctl) := by
  obtain ⟨-, hcount, -⟩ := ho.acquirable (Or.inl ht)
  have hfull := (rmtxIncLc_full ho.bound hn).1
  refine .full hop ?_
  rw [Function.comp_apply, limit]
  omega

/-- A wait that is over and finds the lock taken is refused: somebody else has it. -/
theorem refuses_busy (ho : Owned s) (hd : (s.ctl t).depth = 0) (h0 : s.data.locksCount ≠ 0#32) :
    LockEff limit mayFail t .timedLock (Ctl.depth ∘ s.ctl) (some .refused)
      (Ctl.depth ∘ s.ctl) := by
  obtain ⟨u, hu⟩ := Option.ne_none_iff_exists'.mp fun hn => h0 (ho.free.mp hn)
  have hpos : 0 < (s.ctl u).depth := by
    rw [← ho.count u hu]
    exact Nat.pos_of_ne_zero fun hz => h0 (eq_zero_iff_toNat.mpr hz)
  refine .busy (Or.inr rfl) (u := u) ?_ hpos
  rintro rfl
  omega

/-- **Every jump is a move of a lock** that one worker has up to its limit. -/
theorem moves_of_jump (ho : Owned s) (hw : (s.ctl t).waits.isSome = true → (s.ctl t).depth = 0)
    (hj : Jump code s.now (s.ctl t) s.data k y) :
    (lock T limit mayFail).Moves (fun _ => .released) t (Ctl.depth ∘ s.ctl)
      (Ctl.depth ∘ Function.update s.ctl t k) (status (s.ctl t)) (status k) := by
  have hr := ho.ready t
  rw [Function.comp_update]
  have hstay : k.depth = (s.ctl t).depth →
      Function.update (Ctl.depth ∘ s.ctl) t k.depth = Ctl.depth ∘ s.ctl := fun hk => by
    rw [Function.update_eq_self_iff, hk]
    rfl
  generalize hc : s.ctl t = c at hj hr hw hstay
  have hfails : (lock T limit mayFail).eff t .tryLock (Ctl.depth ∘ s.ctl) (some .refused)
      (Ctl.depth ∘ s.ctl) := .fails (by decide) rfl
  cases goes_of_jump hj with
  | calls hcall =>
      obtain ⟨hh, -⟩ := calls_quiet hcall
      obtain ⟨o, ho⟩ := status_of_calls hcall
      rw [ho]
      refine .call (hstay ?_)
      rw [Ctl.depth, hh]
      rfl
  | lockEnter | lockWait | lockOn | tryEnter | untilEnter | untilWait | untilOn | unlockEnter =>
      exact .stay (hstay rfl)
  | lockAgain ht hn | untilAgain ht hn =>
      refine .effect (acquires ho ?_ hn (by decide) ?_)
      · rw [hc]
        exact Or.inl ht
      · rw [hc]
        rfl
  | lockFull ht hn | untilFull ht hn =>
      rw [hstay rfl]
      refine .effect (refuses_full ho ?_ hn (by decide))
      rw [hc]
      exact ht
  | lockTakes h0 hn =>
      refine .effect (acquires ho (Or.inr (h0 hr)) hn (by decide) ?_)
      rw [hc]
      rfl
  | lockThrows h0 hn => exact absurd (counts_of_free (h0 hr)) hn
  | tryTakes hf hn =>
      refine .effect (acquires ho ?_ hn (by decide) ?_)
      · rw [hc]
        exact hf.symm
      · rw [hc]
        rfl
  | tryBusy | tryFull | tryFails =>
      rw [hstay rfl]
      exact .effect hfails
  | untilTakes h0 =>
      refine .effect (acquires ho (Or.inr h0) (counts_of_free h0) (by decide) ?_)
      rw [hc]
      rfl
  | untilFails h0 =>
      rw [hstay rfl]
      refine .effect (refuses_busy ho ?_ h0)
      rw [hc]
      exact hw rfl
  | lockLeave | tryLeave | tryReturns | untilLeave | unlockLeave | unlockNotify =>
      exact .ret (hstay rfl)
  | unlockLast | unlockDec =>
      refine .effect (.releases_to ?_ ?_)
      · rw [Function.comp_apply, hc]
        exact hr
      · rw [Function.comp_apply, hc]
        rfl
  | unlockRelease => exact .stay (hstay rfl)

/--
**A recursive timed mutex is a linearizable lock.** Whatever its callers and it say to each other,
a lock says that one worker has up to `max_rec_locks - 1` times. `lock` refuses only a worker that
has it so often; `try_lock_until` fails only for that, or at a moment at which somebody else has
it. So nobody is told that it has the lock while somebody else has been told so more often than it
has called `unlock`.
-/
theorem recursive_timed_mutex_linearizable (T : Type) [DecidableEq T] :
    Object.Linearizable (machine T) (sayings code status fun _ => .released)
      (lock T limit mayFail) ∧
    ∀ s es s', (machine T).init s → (machine T).run s es = some s' →
      ∀ t u, 0 < Lib.kept t ((machine T).log (sayings code status fun _ => .released) s es) →
        0 < Lib.kept u ((machine T).log (sayings code status fun _ => .released) s es) → t = u := by
  have hlin : Object.Linearizable (machine T) (sayings code status fun _ => .released)
      (lock T limit mayFail) := by
    refine linearizable_of_jumps (fun ctl _ => Ctl.depth ∘ ctl) (fun _ => rfl)
      (fun _ => rfl) ?_
    intro s t k y hr hj
    exact moves_of_jump (owned_reachable hr) (waits_alone hr t) hj
  refine ⟨hlin, fun s es s' hi hr t u ht hu => ?_⟩
  exact hlin.exclusive hi hr ht hu

end RecursiveTimedMutex

namespace TimedMutex

/-- What an acquisition answers. -/
def res (result : Bool) : LockRes := if result then .acquired else .refused

/-- Where a worker is in an operation. -/
def status : Ctl → Status LockOp LockRes
  | .idle _ => .away
  | .lock _ (.leave r) => .leaving (res r)
  | .lock .. => .calling .lock
  | .tryLock _ (.leave r) => .leaving (res r)
  | .tryLock .. => .calling .tryLock
  | .tryLockUntil _ _ (.leave r) => .leaving (res r)
  | .tryLockUntil .. => .calling .timedLock
  | .unlock _ .enter | .unlock _ .clear => .calling .unlock
  | .unlock .. => .leaving .released

/-- `try_lock` returns as soon as it has failed to get `m_mtx`. -/
def direct (o : LockOp) : LockRes := if o = .tryLock then .refused else .released

variable {s : State T Unit Unit Bool Ctl} {t : T} {c k : Ctl} {x y o : Bool} {now : Time}

theorem status_of_calls (hk : k.calls o = true) : ∃ op, status k = .calling op := by
  unfold Ctl.calls at hk
  split at hk
  case h_5 => cases hk
  all_goals exact ⟨_, rfl⟩

/-- `lock` waits without a deadline. -/
def Untimed : Ctl → Prop
  | .lock _ (.wait _ a) => a.untimed = true
  | _ => True

/-- The wait of `lock` ends only when it finds the lock free. -/
theorem lock_ends {g : Bool} {a : Await Unit} (hj : Jump code now (.lock o (.wait g a)) x k y)
    (ha : a.untimed = true) :
    (∃ b, k = .lock o (.wait true b) ∧ y = x ∧ b.untimed = true) ∨
      (x = false ∧ y = true ∧ k = .lock true (.leave true)) := by
  have hcode : code (.lock o (.wait g a)) = lockCode o (.wait g a) := rfl
  rw [lockCode] at hcode
  cases Await.goes hcode hj with
  | ends he ht hends =>
      cases he
      rcases hends with htest | hlast
      · exact Or.inr ⟨by simpa using ht htest, rfl, rfl⟩
      · rw [hlast] at ha
        cases ha
  | on b hk hy _ hu => exact Or.inl ⟨b, hk, hy, hu rfl ha⟩

theorem untimed_of_jump (hj : Jump code now c x k y) (hc : Untimed c) : Untimed k := by
  have hg := goes_of_jump hj
  cases hg with
  | calls hcall =>
      unfold Ctl.calls at hcall
      split at hcall <;> trivial
  | lockEnter => rfl
  | lockOn =>
      rcases lock_ends hj hc with ⟨b, hk, -, hu⟩ | ⟨-, -, hk⟩
      · cases hk
        exact hu
      · cases hk
  | _ => trivial

theorem untimed_reachable (h : (machine T).Reachable s) : ∀ t, Untimed (s.ctl t) := by
  refine Lib.Machine.Reach.invariant (I := fun s : State T Unit Unit Bool Ctl =>
    ∀ t, Untimed (s.ctl t)) ?_ ?_ h
  · rintro s ⟨now, rfl⟩ t
    trivial
  · intro s e s' _ _ hs hi
    exact (step_of_next hs).forall_ctl (Q := fun _ c _ => Untimed c)
      (fun t hj => untimed_of_jump hj (hi t)) (fun _ _ _ _ hu => hu) hi

omit [DecidableEq T] in
/-- **Every jump is a move of a gate.** -/
theorem moves_of_jump (hc : Untimed c) (hj : Jump code now c x k y) :
    (gate T mayFail).Moves direct t x y (status c) (status k) := by
  have hfails : (gate T mayFail).eff t .tryLock x (some .refused) x := GateEff.fails (by decide) rfl
  have hg := goes_of_jump hj
  cases hg with
  | calls hcall =>
      obtain ⟨op, hop⟩ := status_of_calls hcall
      rw [hop]
      exact .call rfl
  | lockEnter | lockOn | tryEnter | untilEnter | untilOn | unlockEnter => exact .stay rfl
  | lockTakes =>
      rcases lock_ends hj hc with ⟨b, hk, -⟩ | ⟨hx, -, -⟩
      · cases hk
      · rw [hx]
        exact .effect (GateEff.acquires (by decide))
  | tryTakes hx | untilTakes hx =>
      rw [hx]
      exact .effect (GateEff.acquires (by decide))
  | tryBusy => exact .direct hfails
  | tryFails => exact .effect hfails
  | untilFails hx =>
      rw [hx]
      exact .effect (GateEff.busy (Or.inr rfl))
  | lockLeave | tryLeave | untilLeave | unlockNotify => exact .ret rfl
  | unlockClear => exact .effect GateEff.releases
  | unlockLeave => exact .stay rfl

/--
**A timed mutex is a linearizable gate.** Whatever its callers and it say to each other, a gate
says that is shut by an acquisition and opened by `unlock`, whoever calls it; `lock` never fails,
and `try_lock_until` fails only at a moment at which the gate is shut. So if nobody calls `unlock`
but with the lock, nobody is told that it has the lock while somebody else has been told so and
has not called `unlock`.
-/
theorem timed_mutex_linearizable (T : Type) [DecidableEq T] :
    Object.Linearizable (machine T) (sayings code status direct) (gate T mayFail) ∧
    ∀ s es s', (machine T).init s → (machine T).run s es = some s' →
      Lib.Behaved ((machine T).log (sayings code status direct) s es) →
      ∀ t u, 0 < Lib.kept t ((machine T).log (sayings code status direct) s es) →
        0 < Lib.kept u ((machine T).log (sayings code status direct) s es) → t = u := by
  have hlin : Object.Linearizable (machine T) (sayings code status direct) (gate T mayFail) := by
    refine linearizable_of_jumps (fun _ x => x) rfl (fun _ => rfl) ?_
    intro s t k y hr hj
    exact moves_of_jump (untimed_reachable hr t) hj
  refine ⟨hlin, fun s es s' hi hr hb t u ht hu => ?_⟩
  exact hlin.behaved hi hr hb ht hu

/-- One worker has the lock, and the one before it has given it up. -/
theorem timed_mutex_linearizable_run :
    ∃ s es s', (machine (Fin 2)).init s ∧ (machine (Fin 2)).run s es = some s' ∧
      Lib.Behaved ((machine (Fin 2)).log (sayings code status direct) s es) ∧
      0 < Lib.kept 1 ((machine (Fin 2)).log (sayings code status direct) s es) ∧
      ¬0 < Lib.kept 0 ((machine (Fin 2)).log (sayings code status direct) s es) := by
  let start : State (Fin 2) Unit Unit Bool Ctl := .start (fun _ => .idle false) false 0
  let es : List (Event (Fin 2) Ctl) := List.flatten [
    [.choose 0 (.lock false .enter)], List.replicate 3 (.step 0),
    [.choose 0 (.unlock true .enter), .choose 1 (.lock false .enter)],
    List.replicate 4 (.step 0), List.replicate 3 (.step 1)]
  have hlog : (machine (Fin 2)).log (sayings code status direct) start es =
      [.call 0 .lock, .ret 0 .acquired, .call 0 .unlock, .call 1 .lock, .ret 0 .released,
        .ret 1 .acquired] := by decide +kernel
  have hsome : ((machine (Fin 2)).run start es).isSome = true := by decide +kernel
  obtain ⟨s', hs'⟩ := Option.isSome_iff_exists.mp hsome
  have hb : Lib.Behaved ((machine (Fin 2)).log (sayings code status direct) start es) := by
    rw [hlog]
    unfold Lib.Behaved
    decide
  have hone : 0 < Lib.kept 1 ((machine (Fin 2)).log (sayings code status direct) start es) := by
    rw [hlog]
    decide
  refine ⟨start, es, s', ⟨0, rfl⟩, hs', hb, hone, fun hzero => ?_⟩
  have hsame := (timed_mutex_linearizable (Fin 2)).2 start es s' ⟨0, rfl⟩ hs' hb 0 1 hzero hone
  exact absurd hsame (by decide)

end TimedMutex

end Ums
