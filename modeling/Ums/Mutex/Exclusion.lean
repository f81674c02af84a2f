import Ums.Mutex.Spin

/-!
# `Mutex`

A `Plain_mutex` and the thread id of the worker that has locked it with `lock`. A worker
knows its own thread id, and carries along whether it has the lock. It may call any
operation at any time, but unlocks only what it has.
-/

namespace Ums.Mutex

open Monitor

/-- `m_flag` of the spinlock, and `m_tid`. -/
structure Data (T : Type) where
  /-- `m_mtx.m_spinlock.m_flag`. -/
  flag : BitVec 32 := 0#32
  /-- `m_tid`. -/
  tid : Option T := none

/-- A worker as it calls the operations. -/
structure Caller (T : Type) where
  /-- `this_tid`. -/
  thisTid : T
  /-- It has the lock: the flag was set by it, and not yet cleared. -/
  owns : Bool := false
  deriving DecidableEq

/-- The statements of `lock`. -/
inductive LockPoint where
  /-- Comparing `m_tid` with its own. -/
  | tidLoad
  /-- `m_mtx.lock`. -/
  | plain (p : PlainPoint)
  /-- `m_tid.store`. -/
  | tidStore
  /-- About to throw `resource_deadlock_would_occur`. -/
  | threw
  deriving DecidableEq

/-- The statements of `try_lock`. -/
inductive TryPoint where
  /-- `m_mtx.try_lock`. -/
  | spin (p : SpinPoint)
  /-- About to return. -/
  | leave (result : Bool)
  deriving DecidableEq

/-- The statements of `unlock`. -/
inductive UnlockPoint where
  /-- `m_tid.store(empty_tid)`. -/
  | tidStore
  /-- `m_mtx.unlock`. -/
  | flagStore
  deriving DecidableEq

/-- Where a worker is. -/
inductive Ctl (T : Type) where
  /-- In its own code. -/
  | idle (h : Caller T)
  /-- In `lock`. -/
  | lock (h : Caller T) (p : LockPoint)
  /-- In `try_lock`. -/
  | tryLock (h : Caller T) (p : TryPoint)
  /-- In `unlock`. -/
  | unlock (h : Caller T) (p : UnlockPoint)
  deriving DecidableEq

variable {T : Type}

namespace Ctl

/-- The worker. -/
def caller : Ctl T → Caller T
  | .idle h | .lock h _ | .tryLock h _ | .unlock h _ => h

/-- The worker is between a successful acquisition and the end of its unlock. -/
def owns (c : Ctl T) : Bool := c.caller.owns

/-- What a worker may call. -/
def calls [DecidableEq T] (h : Caller T) : Ctl T → Bool
  | .lock h' .tidLoad | .tryLock h' (.spin .load) => decide (h' = h)
  | .unlock h' .tidStore => decide (h' = h) && h.owns
  | _ => false

end Ctl

/-- A command of this program. -/
abbrev Command (T : Type) := Cmd Empty Empty (Data T) (Ctl T)

/-- The flag of the spinlock. -/
def flag : Flag (Data T) where
  get x := x.flag
  set v x := { x with flag := v }
  get_set _ _ := rfl

section

variable [DecidableEq T]

/-- `lock`. -/
def lockCode (h : Caller T) : LockPoint → Command T
  | .tidLoad =>
    .act fun _ x =>
      (x, if x.tid = some h.thisTid then .lock h .threw else .lock h (.plain (.timed 0 .load)))
  | .plain p =>
    flag.plainLock (fun p => .lock h (.plain p)) (.lock { h with owns := true } .tidStore) p
  | .tidStore => .act fun _ x => ({ x with tid := some h.thisTid }, .idle h)
  | .threw => .act fun _ x => (x, .idle h)

/-- `try_lock`. -/
def tryLockCode (h : Caller T) : TryPoint → Command T
  | .spin p =>
    flag.tryLock (fun p => .tryLock h (.spin p))
      (fun r => .tryLock (if r then { h with owns := true } else h) (.leave r)) p
  | .leave _ => .act fun _ x => (x, .idle h)

/-- `unlock`. -/
def unlockCode (h : Caller T) : UnlockPoint → Command T
  | .tidStore => .act fun _ x => ({ x with tid := none }, .unlock h .flagStore)
  | .flagStore => .act fun _ x => (flag.set 0#32 x, .idle { h with owns := false })

/-- The program. -/
def code : Ctl T → Command T
  | .idle h => .choose (Ctl.calls h)
  | .lock h p => lockCode h p
  | .tryLock h p => tryLockCode h p
  | .unlock h p => unlockCode h p

/-- A mutex that nobody has, used by the workers `T`. -/
abbrev machine (T : Type) [DecidableEq T] :
    Lib.Machine (State T Empty Empty (Data T) (Ctl T)) (Event T (Ctl T)) :=
  Monitor.machine code (fun t => .idle { thisTid := t }) {}

/-! ## What a statement does -/

variable {c k : Ctl T} {x y : Data T} {now : Time}

/-- What a statement does: where it leads, and what becomes of the flag and of `m_tid`. -/
inductive Goes (x : Data T) : Ctl T → Ctl T → Data T → Prop
  /-- A call begins. -/
  | calls {h k} (hk : k.calls h = true) : Goes x (.idle h) k x
  /-- `lock` finds its own thread id in `m_tid`. -/
  | lockRefused {h} (ht : x.tid = some h.thisTid) : Goes x (.lock h .tidLoad) (.lock h .threw) x
  | lockEnter {h} (ht : x.tid ≠ some h.thisTid) :
      Goes x (.lock h .tidLoad) (.lock h (.plain (.timed 0 .load))) x
  | lockOn {h p q y} (hl : Flag.Tries flag x y false) :
      Goes x (.lock h (.plain p)) (.lock h (.plain q)) y
  | lockTakes {h p y} (hw : Flag.Tries flag x y true) :
      Goes x (.lock h (.plain p)) (.lock { h with owns := true } .tidStore) y
  | lockNames {h} : Goes x (.lock h .tidStore) (.idle h) { x with tid := some h.thisTid }
  | lockThrows {h} : Goes x (.lock h .threw) (.idle h) x
  | tryOn {h p q y} (hl : Flag.Tries flag x y false) :
      Goes x (.tryLock h (.spin p)) (.tryLock h (.spin q)) y
  | tryTakes {h p y} (hw : Flag.Tries flag x y true) :
      Goes x (.tryLock h (.spin p)) (.tryLock { h with owns := true } (.leave true)) y
  | tryFails {h p y} (hl : Flag.Tries flag x y false) :
      Goes x (.tryLock h (.spin p)) (.tryLock h (.leave false)) y
  | tryLeave {h r} : Goes x (.tryLock h (.leave r)) (.idle h) x
  | unlockTid {h} : Goes x (.unlock h .tidStore) (.unlock h .flagStore) { x with tid := none }
  | unlockFlag {h} :
      Goes x (.unlock h .flagStore) (.idle { h with owns := false }) (flag.set 0#32 x)

theorem goes_of_lock {h : Caller T} {p : LockPoint} (hj : Jump code now (.lock h p) x k y) :
    Goes x (.lock h p) k y := by
  cases p with
  | tidLoad =>
      cases hj with
      | act hc =>
          cases hc
          simp only
          by_cases htid : x.tid = some h.thisTid
          · rw [if_pos htid]
            exact .lockRefused htid
          · rw [if_neg htid]
            exact .lockEnter htid
      | _ hc => cases hc
  | plain p =>
      have hc : code (.lock h (.plain p)) = lockCode h (.plain p) := rfl
      rw [lockCode] at hc
      rcases Flag.plainLock_jump hc hj with ⟨q, rfl, hl⟩ | ⟨rfl, hw⟩
      · exact .lockOn hl
      · exact .lockTakes hw
  | tidStore => cases hj with | _ hc => cases hc <;> exact .lockNames
  | threw => cases hj with | _ hc => cases hc <;> exact .lockThrows

theorem goes_of_tryLock {h : Caller T} {p : TryPoint} (hj : Jump code now (.tryLock h p) x k y) :
    Goes x (.tryLock h p) k y := by
  cases p with
  | spin p =>
      have hc : code (.tryLock h (.spin p)) = tryLockCode h (.spin p) := rfl
      rw [tryLockCode] at hc
      rcases Flag.tryLock_jump hc hj with ⟨q, rfl, hl⟩ | ⟨r, rfl, hr⟩
      · exact .tryOn hl
      · cases r with
        | true => exact .tryTakes hr
        | false => exact .tryFails hr
  | leave r => cases hj with | _ hc => cases hc <;> exact .tryLeave

/-- **Every statement goes one of these ways.** -/
theorem goes_of_jump (hj : Jump code now c x k y) : Goes x c k y := by
  cases c with
  | idle h =>
      cases hj with
      | choose hc hk =>
          cases hc
          exact .calls hk
      | _ hc => cases hc
  | lock h p => exact goes_of_lock hj
  | tryLock h p => exact goes_of_tryLock hj
  | unlock h p =>
      cases p with
      | tidStore => cases hj with | _ hc => cases hc <;> exact .unlockTid
      | flagStore => cases hj with | _ hc => cases hc <;> exact .unlockFlag

/-- `try_lock` fails only when it has found the lock taken. -/
theorem taken_of_tryFails {h : Caller T} {p : SpinPoint}
    (hj : Jump code now (.tryLock h (.spin p)) x (.tryLock h (.leave false)) y) :
    flag.taken x = true := by
  have hc : code (.tryLock h (.spin p)) = tryLockCode h (.spin p) := rfl
  rw [tryLockCode] at hc
  exact Flag.tryLock_refused hc hj rfl (fun _ => by simp) (by simp)

/-- What a worker knows before its next statement. -/
def Ready (x : Data T) : Ctl T → Prop
  | .lock h .tidStore | .lock h .threw | .unlock h .tidStore => h.owns = true
  | .unlock h .flagStore => h.owns = true ∧ x.tid = none
  | _ => True

/-- What a statement does to the flag, to `m_tid` and to its worker. -/
inductive Change (c : Ctl T) (x : Data T) (k : Ctl T) (y : Data T) : Prop
  /-- Nothing but perhaps setting a flag that is set. -/
  | quiet (hk : k.caller = c.caller) (ht : y.tid = x.tid) (hy : flag.taken y = flag.taken x)
  /-- The worker acquires the lock. -/
  | acquire (hk : k.caller = { c.caller with owns := true }) (ht : y.tid = x.tid)
      (hx : flag.taken x = false) (hy : flag.taken y = true)
  /-- The holder writes or clears `m_tid`. -/
  | write (hc : c.owns = true) (hk : k.caller = c.caller)
      (ht : y.tid = some c.caller.thisTid ∨ y.tid = none) (hy : flag.taken y = flag.taken x)
  /-- The holder releases the lock. -/
  | release (hc : c.owns = true) (hx : x.tid = none)
      (hk : k.caller = { c.caller with owns := false })
      (ht : y.tid = x.tid) (hy : flag.taken y = false)

theorem calls_quiet {h : Caller T} (hk : k.calls h = true) : k.caller = h ∧ Ready x k := by
  unfold Ctl.calls at hk
  split at hk
  -- `unlock` is called by the holder only
  case h_3 =>
    simp only [Bool.and_eq_true, decide_eq_true_eq] at hk
    obtain ⟨rfl, ho⟩ := hk
    exact ⟨rfl, ho⟩
  case h_4 => cases hk
  all_goals
    have hh := of_decide_eq_true hk
    exact ⟨hh, trivial⟩

omit [DecidableEq T] in
/-- An attempt that is not over, or has failed. -/
theorem Change.of_lost (h : Flag.Tries flag x y false) (hk : k.caller = c.caller) :
    Change c x k y :=
  .quiet hk (h.same fun _ _ => rfl) (by rw [h.taken, Bool.or_false])

omit [DecidableEq T] in
/-- An attempt that has succeeded. -/
theorem Change.of_won (h : Flag.Tries flag x y true)
    (hk : k.caller = { c.caller with owns := true }) : Change c x k y := by
  have htid : y.tid = x.tid := h.same fun _ _ => rfl
  cases h with
  | won hx hy =>
      refine .acquire hk htid hx ?_
      rw [hy, Flag.taken_set_one]

/-- **Every statement makes one of the changes**, and leaves its worker with what it has to know. -/
theorem change_of_jump (hj : Jump code now c x k y) (hr : Ready x c)
    (ht : x.tid = some c.caller.thisTid → c.owns = true) : Change c x k y ∧ Ready y k := by
  cases goes_of_jump hj with
  | calls hk =>
      obtain ⟨hh, hr'⟩ := calls_quiet (x := x) hk
      exact ⟨.quiet hh rfl rfl, hr'⟩
  | lockRefused htid =>
      -- it throws, and has the lock
      exact ⟨.quiet rfl rfl rfl, ht htid⟩
  | lockOn hl | tryOn hl | tryFails hl => exact ⟨.of_lost hl rfl, trivial⟩
  | lockTakes hw => exact ⟨.of_won hw rfl, rfl⟩
  | tryTakes hw => exact ⟨.of_won hw rfl, trivial⟩
  | lockNames => exact ⟨.write hr rfl (Or.inl rfl) rfl, trivial⟩
  | lockEnter | lockThrows | tryLeave => exact ⟨.quiet rfl rfl rfl, trivial⟩
  | unlockTid => exact ⟨.write hr rfl (Or.inr rfl) rfl, hr, rfl⟩
  | unlockFlag => exact ⟨.release hr.1 hr.2 rfl rfl (Flag.taken_set_zero x), trivial⟩

omit [DecidableEq T] in
theorem Change.hold (h : Change c x k y) : Hold flag.taken Ctl.owns c x k y := by
  cases h with
  | quiet hk _ hy | write _ hk _ hy =>
      refine .keeps hy ?_
      rw [Ctl.owns, Ctl.owns, hk]
  | acquire hk _ hx hy =>
      refine .acquires hx hy ?_
      rw [Ctl.owns, hk]
  | release hc _ hk _ hy =>
      refine .releases hc hy ?_
      rw [Ctl.owns, hk]

/-! ## The holder and `m_tid` -/

variable {s s' : State T Empty Empty (Data T) (Ctl T)} {t u : T} {e : Event T (Ctl T)}

/-- The flag and `m_tid` say who has the lock. -/
structure Locked (s : State T Empty Empty (Data T) (Ctl T)) : Prop where
  /-- Everybody knows its own thread id. -/
  me : ∀ t, (s.ctl t).caller.thisTid = t
  /-- The flag is set exactly while one worker has the lock. -/
  excl : Exclusive flag.taken Ctl.owns s
  /-- The worker in `m_tid` has the lock. -/
  tid : ∀ t, s.data.tid = some t → (s.ctl t).owns = true
  /-- Everybody knows what it has to know. -/
  ready : ∀ t, Ready s.data (s.ctl t)

omit [DecidableEq T] in
/-- What a worker knows of `m_tid` matters only while it has the lock. -/
theorem Ready.transfer (h : Ready x c) (ht : c.owns = true → y.tid = x.tid) : Ready y c := by
  unfold Ready at h ⊢
  split
  · exact h
  · exact h
  · exact h
  · exact ⟨h.1, (ht h.1).trans h.2⟩
  · trivial

theorem Locked.step (hs : Step code s e s') (h : Locked s) : Locked s' := by
  have hchange : ∀ t, Jump code s.now (s.ctl t) s.data (s'.ctl t) s'.data →
      Change (s.ctl t) s.data (s'.ctl t) s'.data ∧ Ready s'.data (s'.ctl t) := fun t hj =>
    change_of_jump hj (h.ready t) fun ht => h.tid t (by rwa [h.me t] at ht)
  have hexcl := h.excl.step (fun t hj => (hchange t hj).1.hold) hs
  have hme : ∀ u, (s'.ctl u).caller.thisTid = u := by
    refine hs.forall_ctl (Q := fun u (c : Ctl T) _ => c.caller.thisTid = u) (fun t hj => ?_)
      (fun _ _ _ _ hme => hme) h.me
    refine Eq.trans ?_ (h.me t)
    cases (hchange t hj).1 with
    | quiet hk | acquire hk | write _ hk | release _ _ hk => rw [hk]
  have htid : ∀ u, s'.data.tid = some u → (s'.ctl u).owns = true := by
    refine hs.forall_ctl (Q := fun u (c : Ctl T) x => x.tid = some u → c.owns = true)
      (fun t hj ht => ?_) (fun t u hu hj htid ht => ?_) h.tid
    · cases (hchange t hj).1 with
      | quiet hk hkeep =>
          rw [Ctl.owns, hk]
          exact h.tid t (hkeep ▸ ht)
      | acquire hk => rw [Ctl.owns, hk]
      | write ho hk =>
          rw [Ctl.owns, hk]
          exact ho
      | release _ hx _ hkeep =>
          -- it has cleared `m_tid` before it clears the flag
          rw [hkeep, hx] at ht
          cases ht
    · cases (hchange t hj).1 with
      | quiet _ hkeep | acquire _ hkeep => exact htid (hkeep ▸ ht)
      | write _ _ hw =>
          rcases hw with hw | hw
          · rw [hw, h.me t] at ht
            exact absurd (Option.some.inj ht).symm hu
          · rw [hw] at ht
            cases ht
      | release _ hx _ hkeep =>
          rw [hkeep, hx] at ht
          cases ht
  have hready : ∀ u, Ready s'.data (s'.ctl u) := by
    refine hs.forall_ctl (Q := fun _ c x => Ready x c) (fun t hj => (hchange t hj).2)
      (fun t u hu hj hr => hr.transfer fun ho => ?_) h.ready
    cases (hchange t hj).1 with
    | quiet _ ht | acquire _ ht => exact ht
    | release _ _ _ ht => exact ht
    | write hown => exact absurd (h.excl.unique u t ho hown) hu
  exact ⟨hme, hexcl, htid, hready⟩

theorem locked_reachable (h : (machine T).Reachable s) : Locked s := by
  refine Lib.Machine.Reach.invariant ?_ ?_ h
  · rintro s ⟨now, rfl⟩
    exact ⟨fun _ => rfl, exclusive_start (fun _ => rfl) rfl, nofun, fun _ => trivial⟩
  · intro s e s' _ _ hs hi
    exact hi.step (step_of_next hs)

/-! ## The interface -/

/-- The worker is in `lock_with_timeout` or in `try_lock` of the spinlock. -/
def trying : Ctl T → Bool
  | .lock _ (.plain (.timed _ _)) | .lock _ (.plain (.retry _)) | .tryLock _ (.spin _) => true
  | _ => false

/-- That call has just returned `true`. -/
def won : Ctl T → Bool
  | .lock _ .tidStore | .tryLock _ (.leave true) => true
  | _ => false

theorem act_of_trying (hc : trying c = true) : ∃ f, code c = .act f := by
  unfold trying at hc
  split at hc
  · rename_i p
    cases p <;> exact ⟨_, rfl⟩
  · rename_i p
    cases p <;> exact ⟨_, rfl⟩
  · rename_i p
    cases p <;> exact ⟨_, rfl⟩
  · cases hc

/-- A call returns `true` exactly when it has acquired the lock. -/
theorem won_of_jump (hj : Jump code now c x k y) (hc : trying c = true) :
    (won k = true ∧ flag.taken x = false ∧ flag.taken y = true ∧ k.owns = true) ∨
      (won k = false ∧ flag.taken y = flag.taken x ∧ k.owns = c.owns) := by
  cases goes_of_jump hj with
  | lockOn hl | tryOn hl | tryFails hl =>
      exact Or.inr ⟨rfl, by rw [hl.taken, Bool.or_false], rfl⟩
  | lockTakes hw | tryTakes hw =>
      have hy := hw.taken
      cases hw with
      | won hx _ => exact Or.inl ⟨rfl, hx, by rw [hy, Bool.or_true], rfl⟩
  | _ => cases hc

/--
**A mutex excludes, and does not cry deadlock.** At most one worker is between a successful
acquisition and its unlock; a call of `lock_with_timeout` or `try_lock` returns `true` in exactly
those steps that acquire the lock for its caller; and a worker that is about to throw
`resource_deadlock_would_occur` has the lock itself.
-/
theorem mutex_exclusion (h : (machine T).Reachable s) :
    (∀ t u, (s.ctl t).owns = true → (s.ctl u).owns = true → t = u) ∧
    (flag.taken s.data = true ↔ ∃ t, (s.ctl t).owns = true) ∧
    (∀ t s', (machine T).next s (.step t) = some s' → trying (s.ctl t) = true →
      (won (s'.ctl t) = true ∧ (∀ u, (s.ctl u).owns = false) ∧ (s'.ctl t).owns = true) ∨
      (won (s'.ctl t) = false ∧ flag.taken s'.data = flag.taken s.data ∧
        (s'.ctl t).owns = (s.ctl t).owns)) ∧
    ∀ t h, s.ctl t = .lock h .threw → (s.ctl t).owns = true := by
  have hl := locked_reachable h
  refine ⟨hl.excl.unique, hl.excl.flag, fun t s' hs ht => ?_, fun t h hc => ?_⟩
  · obtain ⟨f, hc⟩ := act_of_trying ht
    have hst : Step code s (.step t) s' := step_of_next hs
    rcases won_of_jump (hst.jump_of_act hc) ht with ⟨hw, hx, _, ho⟩ | ⟨hw, hy, ho⟩
    · exact Or.inl ⟨hw, hl.excl.nobody hx, ho⟩
    · exact Or.inr ⟨hw, hy, ho⟩
  · have hr := hl.ready t
    rw [hc] at hr ⊢
    exact hr

/-- The first worker locks the mutex and asks for it again; the second one fails to get it. -/
theorem mutex_exclusion_run : ∃ s, (machine (Fin 2)).Reachable s ∧
    s.ctl 0 = .lock ⟨0, true⟩ .threw ∧ (s.ctl 0).owns = true ∧
    s.ctl 1 = .tryLock ⟨1, false⟩ (.leave false) ∧ (s.ctl 1).owns = false := by
  obtain ⟨s, hr, hp⟩ := Lib.Machine.exists_of_run (M := machine (Fin 2))
    (p := fun s => decide (s.ctl 0 = .lock ⟨0, true⟩ .threw ∧
      s.ctl 1 = .tryLock ⟨1, false⟩ (.leave false)))
    (.init ⟨0, rfl⟩)
    [.choose 0 (.lock ⟨0, false⟩ .tidLoad), .choose 1 (.tryLock ⟨1, false⟩ (.spin .load)),
      .step 0, .step 1, .step 0, .step 0, .step 0, .step 1,
      .choose 0 (.lock ⟨0, true⟩ .tidLoad), .step 0] (by decide +kernel)
  obtain ⟨h0, h1⟩ := of_decide_eq_true hp
  obtain ⟨hunique, -, -, hthrow⟩ := mutex_exclusion hr
  have howns : (s.ctl 0).owns = true := hthrow 0 _ h0
  refine ⟨s, hr, h0, howns, h1, ?_⟩
  by_contra hne
  cases hunique 0 1 howns (by simpa using hne)

end

end Ums.Mutex
