import Ums.Lib.RwLock
import Ums.Monitor.Elapsed
import Ums.Monitor.History
import Ums.SharedMutex.Exclusion

/-!
# What the shared mutex tells its callers

`Shared_mutex` and `Shared_timed_mutex` are linearizable reader-writer locks. A writer enters
with `set_write` and owns the mutex as it passes the second gate; a reader has its lock as it
counts itself; and a refusal takes effect where the state word has been looked at, but that of
a writer at the second gate with `unset_write`, since the others see its write bit until then.
-/

namespace Ums.SharedMutex

open Monitor SharedMutexState
open Lib (Object Status RwOp RwRes RwEff Part rwLock sharedBy)

/-- What a worker has of the mutex. -/
def part (c : Ctl) : Part where
  owns := c.owns
  waits := c.admitted
  shared := c.shared

/-- The operation is `lock`, or with a deadline `try_lock_until`. -/
def lockOp (d : Option Time) : RwOp := if d.isSome then .timedLock else .lock

/-- The operation is `lock_shared`, or with a deadline `try_lock_shared_until`. -/
def sharedOp (d : Option Time) : RwOp := if d.isSome then .timedLockShared else .lockShared

/-- Where a worker is in an operation. -/
def status : Ctl → Status RwOp RwRes
  | .idle _ => .away
  | .lock _ _ (.leave r) => .leaving (if r then .owned else .refused)
  | .lock _ _ .unlock | .lock _ _ .notify => .leaving .refused
  | .lock d _ _ => .calling (lockOp d)
  | .tryLock _ (.leave r) => .leaving (if r then .owned else .refused)
  | .tryLock .. => .calling .tryLock
  | .unlock _ .enter | .unlock _ .unsetWrite => .calling .unlock
  | .unlock .. => .leaving .released
  | .lockShared _ _ (.leave r) => .leaving (if r then .shared else .refused)
  | .lockShared d _ _ => .calling (sharedOp d)
  | .tryLockShared _ (.leave r) => .leaving (if r then .shared else .refused)
  | .tryLockShared .. => .calling .tryLockShared
  | .unlockShared _ .enter | .unlockShared _ .decReaders => .calling .unlockShared
  | .unlockShared .. => .leaving .released

variable {c k : Ctl} {x y : SharedMutexState} {now : Time} {d : Option Time} {h : Held}

theorem status_of_calls (hk : k.calls h = true) : ∃ o, status k = .calling o := by
  unfold Ctl.calls at hk
  split at hk
  case h_7 => cases hk
  all_goals exact ⟨_, rfl⟩

/-! ## Who gives up -/

/-- What a worker has found out, when it is about to give up, and that only those with a deadline
do. -/
def Late (x : SharedMutexState) : Ctl → Prop
  | .lock d _ (.gate1 _ a) | .lock d _ (.gate2 a) | .lockShared d _ (.gate1 _ a) =>
    d = none → a.untimed = true
  | .lock d _ .unsetWrite => d.isSome = true ∧ hasReaders x = true
  | _ => True

/-- A wait without a deadline ends only with its predicate. -/
theorem await_leads {pred : SharedMutexState → Bool} {v : Gate} {note : SharedMutexState → Unit}
    {inside : Await Unit → Ctl} {ret : Bool → Ctl} {a : Await Unit}
    (hc : code c = a.code v () pred d note inside ret) (hj : Jump code now c x k y)
    (hu : d = none → a.untimed = true) :
    y = x ∧ ((∃ b, k = inside b ∧ (d = none → b.untimed = true)) ∨
      (k = ret (pred x) ∧ (pred x = true ∨ d.isSome = true))) := by
  rw [Await.code_eq] at hc
  cases Await.goes hc hj with
  | ends he ht ha =>
      cases he
      refine ⟨rfl, Or.inr ⟨rfl, ?_⟩⟩
      rcases ha with htest | hlast
      · exact Or.inl (ht htest)
      · cases d with
        | some => exact Or.inr rfl
        | none =>
            have hfalse := hu rfl
            rw [hlast] at hfalse
            cases hfalse
  | on b hk hy _ hb => exact ⟨hy, Or.inl ⟨b, hk, fun hd => hb hd (hu hd)⟩⟩

theorem lock_leads {g : Bool} {a : Await Unit}
    (hj : Jump code now (.lock d h (.gate1 g a)) x k y)
    (hu : d = none → a.untimed = true) :
    (∃ b, k = .lock d h (.gate1 true b) ∧ (d = none → b.untimed = true)) ∨
      (k = .lock d h .setWrite ∧ hasWrite x = false) ∨
      (k = .lock d h (.leave false) ∧ hasWrite x = true ∧ d.isSome = true) := by
  have hc : code (.lock d h (.gate1 g a)) = lockCode d h (.gate1 g a) := rfl
  rw [lockCode] at hc
  obtain ⟨-, hb | ⟨hk, hd⟩⟩ := await_leads hc hj hu
  · exact Or.inl hb
  · cases hw : hasWrite x with
    | false =>
        rw [hw] at hk
        exact Or.inr (Or.inl ⟨hk, rfl⟩)
    | true =>
        rw [hw] at hk hd
        exact Or.inr (Or.inr ⟨hk, rfl, hd.resolve_left (by decide)⟩)

theorem gate2_leads {a : Await Unit} (hj : Jump code now (.lock d h (.gate2 a)) x k y)
    (hu : d = none → a.untimed = true) :
    y = x ∧ ((∃ b, k = .lock d h (.gate2 b) ∧ (d = none → b.untimed = true)) ∨
      (k = .lock d { h with excl := true } (.leave true) ∧ hasReaders x = false) ∨
      (k = .lock d h .unsetWrite ∧ hasReaders x = true ∧ d.isSome = true)) := by
  have hc : code (.lock d h (.gate2 a)) = lockCode d h (.gate2 a) := rfl
  rw [lockCode] at hc
  obtain ⟨hy, hb | ⟨hk, hd⟩⟩ := await_leads hc hj hu
  · exact ⟨hy, Or.inl hb⟩
  · refine ⟨hy, Or.inr ?_⟩
    cases hr : hasReaders x with
    | false =>
        rw [hr] at hk
        exact Or.inl ⟨hk, rfl⟩
    | true =>
        rw [hr] at hk hd
        exact Or.inr ⟨hk, rfl, hd.resolve_left (by decide)⟩

theorem lockShared_leads {g : Bool} {a : Await Unit}
    (hj : Jump code now (.lockShared d h (.gate1 g a)) x k y)
    (hu : d = none → a.untimed = true) :
    (∃ b, k = .lockShared d h (.gate1 true b) ∧ (d = none → b.untimed = true)) ∨
      k = .lockShared d h .incReaders ∨
      (k = .lockShared d h (.leave false) ∧ (hasWrite x = true ∨ maxReaders x = true) ∧
        d.isSome = true) := by
  have hc : code (.lockShared d h (.gate1 g a)) = lockSharedCode d h (.gate1 g a) := rfl
  rw [lockSharedCode] at hc
  obtain ⟨-, hb | ⟨hk, hd⟩⟩ := await_leads hc hj hu
  · exact Or.inl hb
  · cases hp : (!hasWrite x && !maxReaders x) with
    | true =>
        rw [hp] at hk
        exact Or.inr (Or.inl hk)
    | false =>
        rw [hp] at hk hd
        refine Or.inr (Or.inr ⟨hk, ?_, hd.resolve_left (by decide)⟩)
        rw [Bool.and_eq_false_iff, Bool.not_eq_false', Bool.not_eq_false'] at hp
        exact hp

theorem tryLock_refused (hj : Jump code now (.tryLock h .test) x (.tryLock h (.leave false)) y) :
    hasReaders x = true ∨ hasWrite x = true := by
  generalize hk : Ctl.tryLock h (.leave false) = k at hj
  cases hj with
  | act hc =>
      cases hc
      cases hr : hasReaders x with
      | true => exact Or.inl rfl
      | false =>
          cases hw : hasWrite x with
          | true => exact Or.inr rfl
          | false =>
              simp [hr, hw] at hk
  | _ hc => cases hc

theorem tryLockShared_refused
    (hj : Jump code now (.tryLockShared h .test) x (.tryLockShared h (.leave false)) y) :
    hasWrite x = true ∨ maxReaders x = true := by
  generalize hk : Ctl.tryLockShared h (.leave false) = k at hj
  cases hj with
  | act hc =>
      cases hc
      cases hw : hasWrite x with
      | true => exact Or.inl rfl
      | false =>
          cases hm : maxReaders x with
          | true => exact Or.inr rfl
          | false =>
              simp [hm, hw] at hk
  | _ hc => cases hc

theorem late_of_jump (hj : Jump code now c x k y) (hl : Late x c) : Late y k := by
  have hg := goes_of_jump hj
  cases hg with
  | calls hk =>
      unfold Ctl.calls at hk
      split at hk <;> trivial
  | lockEnter | setWrite | sharedEnter => exact fun _ => rfl
  | lockGate1 =>
      rcases lock_leads hj hl with ⟨b, hk, hb⟩ | ⟨hk, -⟩ | ⟨hk, -⟩
      · cases hk
        exact hb
      · cases hk
      · cases hk
  | lockGate2 =>
      obtain ⟨-, ⟨b, hk, hb⟩ | ⟨hk, -⟩ | ⟨hk, -⟩⟩ := gate2_leads hj hl
      · cases hk
        exact hb
      · simp at hk
      · cases hk
  | lockGivesUp =>
      obtain ⟨-, ⟨b, hk, -⟩ | ⟨hk, -⟩ | ⟨-, hr, hd⟩⟩ := gate2_leads hj hl
      · cases hk
      · simp at hk
      · exact ⟨hd, hr⟩
  | sharedGate1 =>
      rcases lockShared_leads hj hl with ⟨b, hk, hb⟩ | hk | ⟨hk, -⟩
      · cases hk
        exact hb
      · cases hk
      · cases hk
  | _ => trivial

section

variable {T : Type} [DecidableEq T] [Fintype T] {s : State T Unit Gate SharedMutexState Ctl} {t : T}

/-- A worker that is about to give up at the second gate has the mutex. -/
theorem Late.transfer (hl : Late x c) (hc : ∀ d h, c ≠ .lock d h .unsetWrite) : Late y c := by
  cases c with
  | lock d h p =>
      cases p with
      | gate1 | gate2 => exact hl
      | unsetWrite => exact absurd rfl (hc d h)
      | _ => trivial
  | lockShared d h p =>
      cases p with
      | gate1 => exact hl
      | _ => trivial
  | _ => trivial

omit [Fintype T] in
theorem late_reachable (h : (machine T).Reachable s) : ∀ t, Late s.data (s.ctl t) := by
  refine Lib.Machine.Reach.invariant (I := fun s : State T Unit Gate SharedMutexState Ctl =>
    ∀ t, Late s.data (s.ctl t)) ?_ ?_ h
  · rintro s ⟨now, rfl⟩ t
    trivial
  · intro s e s' hr _ hs hi
    have hg := guarded_reachable disciplined (fun _ _ => rfl) hr
    refine (step_of_next hs).forall_ctl (Q := fun _ c x => Late x c)
      (fun t hj => late_of_jump hj (hi t)) (fun t u hu hj hl => ?_) hi
    by_cases hy : s'.data = s.data
    · rw [hy]
      exact hl
    · refine hl.transfer fun d h hc => ?_
      -- whoever changes the word has the mutex, so this worker has not
      have hu' : Holding code holds s u () = true :=
        holding_of_act (by rw [hc]; rfl) (by rw [hc]; rfl)
      exact hu (hg.unique hu' (holding_of_change hj hy))

/-! ## The reader-writer lock -/

theorem lockOp_cases (d : Option Time) : lockOp d = .lock ∨ lockOp d = .timedLock := by
  cases d with
  | none => exact Or.inl rfl
  | some => exact Or.inr rfl

theorem sharedOp_cases (d : Option Time) :
    sharedOp d = .lockShared ∨ sharedOp d = .timedLockShared := by
  cases d with
  | none => exact Or.inl rfl
  | some => exact Or.inr rfl

theorem lockOp_of_isSome (hd : d.isSome = true) : lockOp d = .timedLock := if_pos hd

theorem sharedOp_of_isSome (hd : d.isSome = true) : sharedOp d = .timedLockShared := if_pos hd

section

omit [DecidableEq T]

theorem no_writer (hp : Packed s) (hw : hasWrite s.data = false) (u : T) :
    ((part ∘ s.ctl) u).writes = false :=
  hp.no_writer hw u

theorem some_writer (hp : Packed s) (hw : hasWrite s.data = true) :
    ∃ u, ((part ∘ s.ctl) u).writes = true :=
  hp.hasWrite.mp hw

theorem some_reader (hp : Packed s) (hr : hasReaders s.data = true) :
    0 < sharedBy (part ∘ s.ctl) := by
  obtain ⟨w, hd, -⟩ := hp.packed
  rw [hd, hasReaders_word hp.bound, decide_eq_true_eq] at hr
  exact Nat.pos_of_ne_zero hr

theorem all_readers (hp : Packed s) (hm : maxReaders s.data = true) :
    sharedBy (part ∘ s.ctl) = maxCount := by
  obtain ⟨w, hd, -⟩ := hp.packed
  rw [hd, maxReaders_word hp.bound, decide_eq_true_eq] at hm
  exact hm

end

/-- A worker that shares the mutex finds neither a writer nor too many readers. -/
theorem shares {o : RwOp} (hp : Packed s)
    (ho : o = .lockShared ∨ o = .timedLockShared ∨ o = .tryLockShared)
    (hw : hasWrite s.data = false) (hm : maxReaders s.data = false)
    (hk : part k = { part (s.ctl t) with shared := (part (s.ctl t)).shared + 1 }) :
    RwEff maxCount t o (part ∘ s.ctl) (some .shared)
      (Function.update (part ∘ s.ctl) t (part k)) := by
  rw [hk]
  exact .shares ho (no_writer hp hw) (hp.room hm)

/-- One that is refused finds the one or the other. -/
theorem refuses_shared {o : RwOp} (hp : Packed s) (ho : o = .timedLockShared ∨ o = .tryLockShared)
    (hx : hasWrite s.data = true ∨ maxReaders s.data = true) :
    RwEff maxCount t o (part ∘ s.ctl) (some .refused) (part ∘ s.ctl) := by
  rcases hx with hw | hm
  · obtain ⟨u, hu⟩ := some_writer hp hw
    refine .busy ?_ hu
    rcases ho with rfl | rfl <;> decide
  · exact .full ho (all_readers hp hm)

/-- **Every jump is a move of a reader-writer lock.** -/
theorem moves_of_jump (hp : Packed s) (hl : Late s.data (s.ctl t))
    (hj : Jump code s.now (s.ctl t) s.data k y) :
    (rwLock T maxCount).Moves (fun _ => .released) t (part ∘ s.ctl)
      (part ∘ Function.update s.ctl t k) (status (s.ctl t)) (status k) := by
  have hr := hp.ready t
  have hsolo := hp.solo t
  rw [Function.comp_update]
  have hstay : part k = part (s.ctl t) →
      Function.update (part ∘ s.ctl) t (part k) = part ∘ s.ctl := fun hk => by
    rw [Function.update_eq_self_iff, hk]
    rfl
  have hmine : (part ∘ s.ctl) t = part (s.ctl t) := rfl
  generalize hc : s.ctl t = c at hj hr hl hsolo hstay hmine
  have hg := goes_of_jump hj
  cases hg with
  | calls hk =>
      obtain ⟨hh, ha, -⟩ := calls_quiet (x := s.data) hk
      obtain ⟨o, ho⟩ := status_of_calls hk
      rw [ho]
      refine .call (hstay ?_)
      rw [part, part, Ctl.owns, Ctl.owns, Ctl.shared, Ctl.shared, hh, ha]
      rfl
  | lockEnter | lockGate1 | lockPasses | lockGate2 | lockGivesUp | tryEnter | unlockEnter
  | sharedEnter | sharedGate1 | sharedPasses | trySharedEnter | unsharedEnter =>
      exact .stay (hstay rfl)
  | @lockFails d h a =>
      rw [hstay rfl]
      rcases lock_leads hj hl with ⟨b, hk, -⟩ | ⟨hk, -⟩ | ⟨-, hw, hd⟩
      · cases hk
      · cases hk
      · obtain ⟨u, hu⟩ := some_writer hp hw
        refine .effect (o := lockOp d) ?_
        rw [lockOp_of_isSome hd]
        exact RwEff.busy (by decide) hu
  | @setWrite d h =>
      have he : RwEff maxCount t (lockOp d) (part ∘ s.ctl) none _ :=
        .enters (lockOp_cases d) (no_writer hp hr)
      rw [hmine] at he
      exact .goes he
  | @lockOwns d h a hn =>
      have he : RwEff maxCount t (lockOp d) (part ∘ s.ctl) (some .owned) _ :=
        .owns (lockOp_cases d) (by rw [hmine]; rfl) (by rw [hmine]; exact hsolo rfl)
          (hp.no_reader hn)
      rw [hmine] at he
      exact .effect he
  | @unsetWrite d h =>
      obtain ⟨hd, hn⟩ := hl
      have he : RwEff maxCount t .timedLock (part ∘ s.ctl) (some .refused) _ :=
        .givesUp (by rw [hmine]; rfl) (some_reader hp hn)
      rw [hmine, ← lockOp_of_isSome hd] at he
      exact .effect he
  | tryOwns hn hw =>
      have he : RwEff maxCount t .tryLock (part ∘ s.ctl) (some .owned) _ :=
        .takes (no_writer hp hw) (hp.no_reader hn)
      rw [hmine] at he
      exact .effect he
  | tryFails =>
      rw [hstay rfl]
      rcases tryLock_refused hj with hn | hw
      · exact .effect (RwEff.read (some_reader hp hn))
      · obtain ⟨u, hu⟩ := some_writer hp hw
        exact .effect (RwEff.busy (by decide) hu)
  | unlockUnset =>
      have he : RwEff maxCount t .unlock (part ∘ s.ctl) (some .released) _ :=
        .unlocks (by rw [hmine]; exact hr)
      rw [hmine] at he
      exact .effect he
  | @sharedFails d h a =>
      rw [hstay rfl]
      rcases lockShared_leads hj hl with ⟨b, hk, -⟩ | hk | ⟨-, hx, hd⟩
      · cases hk
      · cases hk
      · exact .effect (o := sharedOp d) (refuses_shared hp (Or.inl (sharedOp_of_isSome hd)) hx)
  | @incReaders d h =>
      refine .effect (o := sharedOp d) (shares hp ?_ hr.1 hr.2 (by rw [hc]; rfl))
      rcases sharedOp_cases d with ho | ho
      · exact Or.inl ho
      · exact Or.inr (Or.inl ho)
  | trySharedTakes hw hm =>
      exact .effect (shares hp (Or.inr (Or.inr rfl)) hw hm (by rw [hc]; rfl))
  | trySharedFails =>
      rw [hstay rfl]
      exact .effect (refuses_shared hp (Or.inr rfl) (tryLockShared_refused hj))
  | decReaders =>
      have he : RwEff maxCount t .unlockShared (part ∘ s.ctl) (some .released) _ :=
        .unshares (by rw [hmine]; exact hr)
      rw [hmine] at he
      exact .effect he
  | lockUnlock | unlockLeave | unsharedLeave | picksGate2 | picksGate1 => exact .stay (hstay rfl)
  | lockNotify | unlockNotify | picksNobody | notifyGate2 | notifyGate1 => exact .ret (hstay rfl)
  | lockLeave | tryLeave | sharedLeave | trySharedLeave => exact .ret (hstay rfl)

/--
**A shared mutex is a linearizable reader-writer lock.** Whatever its callers and it say to each
other, a reader-writer lock says whose writers enter before they wait for the readers to leave,
and that has `2 ^ 31 - 1` shared locks. Only an operation with a deadline, or one that does not
wait, is refused, and for a reason. So at any time one worker at most has been told that it owns
the mutex and not called `unlock` since; nobody has been told then that it shares the mutex more
often than it has called `unlock_shared`; and all that have been told so are not more than the
locks there are.
-/
theorem shared_mutex_linearizable (T : Type) [DecidableEq T] [Fintype T] :
    Object.Linearizable (machine T) (sayings code status fun _ => .released)
      (rwLock T maxCount) ∧
    ∀ s es s', (machine T).init s → (machine T).run s es = some s' →
      (∀ t u,
        0 < Object.balance .owned .unlock t
          ((machine T).log (sayings code status fun _ => .released) s es) →
        0 < Object.balance .owned .unlock u
          ((machine T).log (sayings code status fun _ => .released) s es) → t = u) ∧
      (∀ t u,
        0 < Object.balance .owned .unlock t
          ((machine T).log (sayings code status fun _ => .released) s es) →
        Object.balance .shared .unlockShared u
          ((machine T).log (sayings code status fun _ => .released) s es) ≤ 0) ∧
      ∑ t, Object.balance .shared .unlockShared t
        ((machine T).log (sayings code status fun _ => .released) s es) ≤ maxCount := by
  have hlin : Object.Linearizable (machine T) (sayings code status fun _ => .released)
      (rwLock T maxCount) := by
    refine linearizable_of_jumps (fun ctl _ => part ∘ ctl) (fun _ => rfl) (fun _ => rfl) ?_
    intro s t k y hr hj
    exact moves_of_jump (packed_reachable hr) (late_reachable hr t) hj
  refine ⟨hlin, fun s es s' hi hr => ?_⟩
  exact hlin.writers_exclude hi hr

end

end Ums.SharedMutex
