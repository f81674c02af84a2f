import Ums.Monitor.Elapsed
import Ums.TimedMutex.Recursive

/-!
# `try_lock_for` of the timed mutexes, and all timed operations

A `try_lock_for` that fails has found the lock taken in a last test, which it makes only when the
clock has reached its deadline. The recursive mutex has one more way to fail, and no way to wait
for a caller that holds it already.
-/

namespace Ums

open Monitor

/-! ## `Timed_mutex` -/

namespace TimedMutex

variable {T : Type} [DecidableEq T] {s s' : State T Unit Unit Bool Ctl} {t : T} {c k : Ctl}
  {x y o : Bool} {now d : Time} {p : LockPoint} {now₀ : Time} {r : Duration}

/-- `Timed_mutex::try_lock_for`, which returns `false` when the lock is taken in its last test. -/
def tryLockFor (T : Type) : TimedCall T Unit Unit Bool Ctl where
  code := code
  ctl _ := .idle false
  data := false
  enters d k := ∃ o, k = .tryLockUntil d o .enter
  inside d k := ∃ o p, k = .tryLockUntil d o p
  reports d _ _ k := ∃ o, k = .tryLockUntil d o (.leave false)
  refused s t := s.owner () = some t ∧ s.data = true

/-- The worker is about to test `m_locked` after a time-out. -/
def late (c : Ctl) (d : Time) : Prop := ∃ o g, c = .tryLockUntil d o (.wait g .last)

/-- A worker is about to make its last test when the clock has reached its deadline. -/
theorem late_of_jump (hj : Jump code now c x k y) (hl : late k d) : d ≤ now := by
  obtain ⟨o, g, rfl⟩ := hl
  cases goes_of_jump hj with
  | calls hk => cases hk
  | untilOn hb => exact hb rfl

/-- It fails in that test. -/
theorem fails_of_jump (hj : Jump code now c x (.tryLockUntil d o (.leave false)) y) :
    late c d ∧ x = true := by
  cases goes_of_jump hj with
  | calls hk => cases hk
  | untilFails hx => exact ⟨⟨_, _, rfl⟩, hx⟩

/-- **A `try_lock_for` that fails** has seen the clock at its deadline, and the lock taken. -/
theorem late_of_failed (h : (tryLockFor T).machine.Reachable s)
    (hnext : (tryLockFor T).machine.next s (.step t) = some s')
    (hk : s'.ctl t = .tryLockUntil d o (.leave false)) :
    d ≤ s.now ∧ s.owner () = some t ∧ s.data = true := by
  have hnext' : next code s (.step t) = some s' := hnext
  rcases jump_of_next (t := t) hnext' nofun with hsame | ⟨-, hj⟩
  · -- it has returned already
    rw [hk] at hsame
    have hleft : s'.ctl t = .idle o := ctl_of_unlock (by rw [← hsame]; rfl) hnext'
    rw [hk] at hleft
    cases hleft
  · rw [hk] at hj
    obtain ⟨⟨o', g, hc⟩, hx⟩ := fails_of_jump hj
    refine ⟨?_, ?_, hx⟩
    · refine late_reachable late ?_ (fun _ hj hl => late_of_jump hj hl) h t d ⟨o', g, hc⟩
      rintro t d ⟨_, _, he⟩
      cases he
    · have hg := guarded_reachable disciplined (fun _ _ => rfl) h
      refine (hg () t).mpr ?_
      rw [Holding, hc]
      rfl

theorem tryLockFor_neverEarly (hmin : Time.min ≤ now₀) (hfit : now₀ + r.ns ≤ Time.max) :
    (tryLockFor T).NeverEarly now₀ r := by
  refine TimedCall.neverEarly hmin hfit ?_
  rintro d t s s' hr hnext ⟨o, hk⟩
  exact late_of_failed hr hnext hk

/-- **`try_lock_for` fails as soon as the clock has reached its deadline**, if another worker keeps
the lock. -/
theorem tryLockFor_timesOut {n : Nat} (hd : d ≤ now₀ + n) (hn : now₀ + n ≤ Time.max) :
    ∃ t s, (tryLockFor Bool).TimesOut now₀ d t s ∧ s.now = now₀ + n := by
  obtain ⟨s, hreach, hctl, howner, hdata, hnow⟩ : ∃ s, (tryLockFor Bool).machine.Reach Clocked s ∧
      s.ctl true = .idle false ∧ s.owner () = none ∧ s.data = true ∧ s.now = now₀ :=
    ⟨_, .tail (e := .step false) (.tail (e := .step false) (.tail (e := .step false)
      (.tail (e := .choose false (.tryLock false .enter)) (.init ⟨now₀, rfl⟩) nofun rfl)
      nofun rfl) nofun rfl) nofun rfl, rfl, rfl, rfl, rfl⟩
  have hin : ∀ p, (tryLockFor Bool).inside d (.tryLockUntil d false p) := fun p => ⟨false, p, rfl⟩
  let s₁ := s.goto true (.tryLockUntil d false .enter)
  let s₂ := (s₁.setOwner () (some true)).goto true (.tryLockUntil d false (.wait false .test))
  have hctl₁ : s₁.ctl true = .tryLockUntil d false .enter := State.goto_ctl_self ..
  have hctl₂ : s₂.ctl true = .tryLockUntil d false (.wait false .test) := State.goto_ctl_self ..
  have h₁ : (tryLockFor Bool).Underway now₀ d true s₁ := by
    refine .call hreach hnow ⟨false, rfl⟩ ?_ ?_
    · have hchoose : code (s.ctl true) = .choose (Ctl.calls false) := by
        rw [hctl]
        rfl
      exact next_call hchoose rfl
    · rw [hctl₁]
      exact hin _
  have h₂ : (tryLockFor Bool).Underway now₀ d true s₂ := by
    have howner₁ : s₁.owner () = none := howner
    have hlock : next code s₁ (.step true) = some s₂ := next_lock (by rw [hctl₁]; rfl) howner₁
    refine h₁.step (e := .step true) nofun hlock ?_
    rw [hctl₂]
    exact hin _
  have hcode : ∀ g b, code (.tryLockUntil d false (.wait g b)) = b.codeWith () ()
      (fun locked => !locked) (some d) (fun _ => ()) (fun b => .tryLockUntil d false (.wait true b))
      fun _ locked => if !locked then (true, .tryLockUntil d true (.leave true))
        else (locked, .tryLockUntil d false (.leave false)) := fun _ _ => rfl
  refine h₂.timesOut hnow (fun b => .tryLockUntil d false (.wait true b)) ?_ (hcode true)
    (fun b => hin (.wait true b)) ?_ ?_ hd hn
  · rw [hctl₂]
    exact hcode false .test
  · have hdata₂ : s₂.data = true := hdata
    rw [hdata₂]
    rfl
  · have hdata₂ : s₂.data = true := hdata
    rw [hdata₂]
    exact ⟨false, rfl⟩

end TimedMutex

/-! ## `Recursive_timed_mutex` -/

namespace RecursiveTimedMutex

variable {T : Type} [DecidableEq T] {s s' : State T Unit Unit (Data T) (Ctl T)} {t : T}
  {c k : Ctl T} {x y : Data T} {h : Caller T} {now d : Time} {p : LockPoint} {now₀ : Time}
  {r : Duration} {n : Nat}

/-- `Recursive_timed_mutex::try_lock_for` of a caller that holds the lock `n` times. -/
def tryLockFor (T : Type) [DecidableEq T] (n : Nat) :
    TimedCall T Unit Unit (Data T) (Ctl T) where
  code := code
  ctl t := .idle { thisTid := t }
  data := {}
  enters d k := ∃ h, h.depth = n ∧ k = .tryLockUntil d h .enter
  inside d k := ∃ h p, h.depth = n ∧ k = .tryLockUntil d h p
  reports d _ _ k := ∃ h, k = .tryLockUntil d h (.leave .failed)
  refused s t := s.owner () = some t ∧ s.data.locksCount ≠ 0#32

/-- The worker is about to test `m_locks_count` after a time-out. -/
def late (c : Ctl T) (d : Time) : Prop := ∃ h g, c = .tryLockUntil d h (.wait g .last)

/-- Where a worker in `try_lock_until_internal` that does not succeed comes from. -/
inductive Origin (now d : Time) (h : Caller T) (c : Ctl T) (x : Data T) : LockPoint → Prop
  /-- It does not hold the lock, and begins to wait. -/
  | waits (hc : c = .tryLockUntil d h .test) (hx : x.tid ≠ some h.thisTid) :
      Origin now d h c x (.wait false .test)
  /-- It holds the lock, too often to be counted in. -/
  | full (hc : c = .tryLockUntil d h .test) (hx : x.tid = some h.thisTid)
      (hn : x.locksCount.toNat + 1 = 2 ^ 32 - 1) : Origin now d h c x (.leave .failed)
  /-- It waits. -/
  | on (g a b) (hc : c = .tryLockUntil d h (.wait g a)) (hb : b = .last → d ≤ now) :
      Origin now d h c x (.wait true b)
  /-- It has waited in vain. -/
  | fails (g) (hc : c = .tryLockUntil d h (.wait g .last)) (hx : x.locksCount ≠ 0#32) :
      Origin now d h c x (.leave .failed)

/-- **A `try_lock_for` that does not succeed** waits for its deadline, or is refused at the
limit. -/
theorem origin_of_jump (hj : Jump code now c x (.tryLockUntil d h p) y)
    (hb : x.locksCount.toNat < 2 ^ 32 - 1) (henter : p ≠ .enter) (htest : p ≠ .test)
    (hleave : p ≠ .leave .acquired) : Origin now d h c x p := by
  cases goes_of_jump hj with
  | calls hk =>
      unfold Ctl.calls at hk
      split at hk
      case h_3 he =>
        cases he
        exact absurd rfl henter
      all_goals first | cases ‹Ctl.tryLockUntil d h p = _› | cases hk
  | untilEnter => exact absurd rfl htest
  | untilAgain | untilTakes => exact absurd rfl hleave
  | untilFull ht hn => exact .full rfl ht (rmtxIncLc_full hb hn).1
  | untilWait ht => exact .waits rfl ht
  | untilOn hlate => exact .on _ _ _ rfl hlate
  | untilFails h0 => exact .fails _ rfl h0

theorem late_of_jump (hj : Jump code now c x k y) (hb : x.locksCount.toNat < 2 ^ 32 - 1)
    (hl : late k d) : d ≤ now := by
  obtain ⟨h, g, rfl⟩ := hl
  cases origin_of_jump hj hb nofun nofun nofun with
  | on g a b hc hlate => exact hlate rfl

/-- **A worker that waits for the lock does not hold it.** -/
theorem depth_of_wait (hr : (machine T).Reachable s) {g : Bool} {a : Await Unit}
    (hc : s.ctl t = .tryLockUntil d h (.wait g a)) : h.depth = 0 := by
  refine hr.invariant (I := fun s => ∀ t d h g a, s.ctl t = .tryLockUntil d h (.wait g a) →
    h.depth = 0) ?_ ?_ t d h g a hc
  · rintro s ⟨now, rfl⟩ t d h g a hc
    cases hc
  · intro s e s' hr _ hs hi
    have ho := owned_reachable hr
    refine (step_of_next hs).forall_ctl (Q := fun _ (c : Ctl T) _ =>
      ∀ (d : Time) (h : Caller T) (g : Bool) (a : Await Unit),
        c = .tryLockUntil d h (.wait g a) → h.depth = 0) ?_ (fun _ _ _ _ hq => hq) hi
    intro t hj d h g a hc
    rw [hc] at hj
    cases origin_of_jump hj ho.bound nofun nofun nofun with
    | waits hc' hx =>
        have hme := ho.me t
        have hdepth := ho.others t
        rw [hc'] at hme hdepth
        refine hdepth fun htid => hx ?_
        rw [htid]
        exact congrArg some hme.symm
    | on g' a' b hc' => exact hi t d h g' a' hc'

/-- **A `try_lock_for` that fails** has found the lock taken, when the clock had reached its
deadline or because its caller holds it as often as it may. -/
theorem failed_cases (hr : (tryLockFor T n).machine.Reachable s)
    (hin : (tryLockFor T n).inside d (s.ctl t))
    (hnext : (tryLockFor T n).machine.next s (.step t) = some s')
    (hk : s'.ctl t = .tryLockUntil d h (.leave .failed)) :
    (n = 0 ∧ d ≤ s.now ∨ n + 1 = 2 ^ 32 - 1) ∧ s.owner () = some t ∧
      s.data.locksCount ≠ 0#32 := by
  have ho := owned_reachable hr
  have hg := guarded_reachable disciplined (fun _ _ => rfl) hr
  obtain ⟨h', p', hn, hc⟩ := hin
  have hnext' : next code s (.step t) = some s' := hnext
  rcases jump_of_next (t := t) hnext' nofun with hsame | ⟨-, hj⟩
  · -- it has returned already
    rw [hk] at hsame
    have hleft : s'.ctl t = .idle h := ctl_of_unlock (by rw [← hsame]; rfl) hnext'
    rw [hk] at hleft
    cases hleft
  · rw [hk] at hj
    cases origin_of_jump hj ho.bound nofun nofun nofun with
    | full hc' hx hfull =>
        have htid : s.data.tid = some t := by
          have hme := ho.me t
          rw [hc'] at hme
          rw [hx]
          exact congrArg some hme
        have hcount := ho.count t htid
        rw [hc'] at hc hcount
        cases hc
        have hdepth : s.data.locksCount.toNat = n := by
          rw [hcount, ← hn]
          rfl
        refine ⟨Or.inr (by rw [← hdepth, hfull]), ?_, ?_⟩
        · refine (hg () t).mpr ?_
          rw [Holding, hc']
          rfl
        · intro h0
          rw [h0] at hfull
          cases hfull
    | fails g hc' hx =>
        have hzero := depth_of_wait hr hc'
        have hlate : d ≤ s.now := by
          refine late_reachable late ?_ (fun hr hj hl => ?_) hr t d ⟨h, g, hc'⟩
          · rintro t d ⟨_, _, he⟩
            cases he
          · exact late_of_jump hj (owned_reachable hr).bound hl
        rw [hc'] at hc
        cases hc
        refine ⟨Or.inl ⟨by rw [← hn, hzero], hlate⟩, ?_, hx⟩
        refine (hg () t).mpr ?_
        rw [Holding, hc']
        rfl

theorem tryLockFor_neverEarly (hmin : Time.min ≤ now₀)
    (hfit : n = 0 → now₀ + r.ns ≤ Time.max) (hfull : n + 1 = 2 ^ 32 - 1 → r.ns = 0) :
    (tryLockFor T n).NeverEarly now₀ r := by
  intro t s hout
  have hcall := hout.underway
  obtain ⟨s', hnext, h, hrep⟩ := hout.out
  obtain ⟨hwhy, hrefused⟩ := failed_cases hcall.reachable hcall.inside hnext hrep
  refine ⟨?_, hrefused⟩
  rcases hwhy with ⟨h0, hlate⟩ | hn
  · rwa [(deadline_eq_iff hmin).mpr (hfit h0)] at hlate
  · rw [hfull hn, Int.add_zero]
    exact hcall.now_le

/-- **`try_lock_for` fails as soon as the clock has reached its deadline**, if another worker keeps
the lock. -/
theorem tryLockFor_timesOut {m : Nat} (hd : d ≤ now₀ + m) (hm : now₀ + m ≤ Time.max) :
    ∃ t s, (tryLockFor Bool 0).TimesOut now₀ d t s ∧ s.now = now₀ + m := by
  obtain ⟨s, hreach, hctl, howner, hdata, hnow⟩ : ∃ s,
      (tryLockFor Bool 0).machine.Reach Clocked s ∧ s.ctl true = .idle { thisTid := true } ∧
      s.owner () = none ∧ s.data = { tid := some false, locksCount := 1#32 } ∧ s.now = now₀ :=
    ⟨_, .tail (e := .step false) (.tail (e := .step false) (.tail (e := .step false)
      (.tail (e := .choose false (.tryLock { thisTid := false } .enter)) (.init ⟨now₀, rfl⟩)
      nofun rfl) nofun rfl) nofun rfl) nofun rfl, rfl, rfl, rfl, rfl⟩
  have hin : ∀ p, (tryLockFor Bool 0).inside d (.tryLockUntil d { thisTid := true } p) := fun p =>
    ⟨_, p, rfl, rfl⟩
  let s₁ := s.goto true (.tryLockUntil d { thisTid := true } .enter)
  let s₂ := (s₁.setOwner () (some true)).goto true (.tryLockUntil d { thisTid := true } .test)
  let s₃ := s₂.goto true (.tryLockUntil d { thisTid := true } (.wait false .test))
  have hctl₁ : s₁.ctl true = .tryLockUntil d { thisTid := true } .enter := State.goto_ctl_self ..
  have hctl₂ : s₂.ctl true = .tryLockUntil d { thisTid := true } .test := State.goto_ctl_self ..
  have hctl₃ : s₃.ctl true = .tryLockUntil d { thisTid := true } (.wait false .test) :=
    State.goto_ctl_self ..
  have h₁ : (tryLockFor Bool 0).Underway now₀ d true s₁ := by
    refine .call hreach hnow ⟨{ thisTid := true }, rfl, rfl⟩ ?_ ?_
    · have hchoose : code (s.ctl true) = .choose (Ctl.calls { thisTid := true }) := by
        rw [hctl]
        rfl
      exact next_call hchoose rfl
    · rw [hctl₁]
      exact hin _
  have h₂ : (tryLockFor Bool 0).Underway now₀ d true s₂ := by
    have howner₁ : s₁.owner () = none := howner
    have hlock : next code s₁ (.step true) = some s₂ := next_lock (by rw [hctl₁]; rfl) howner₁
    refine h₁.step (e := .step true) nofun hlock ?_
    rw [hctl₂]
    exact hin _
  have h₃ : (tryLockFor Bool 0).Underway now₀ d true s₃ := by
    have hc : code (s₂.ctl true) = tryLockUntilCode d { thisTid := true } .test := by
      rw [hctl₂]
      rfl
    have hdata₂ : s₂.data = { tid := some false, locksCount := 1#32 } := hdata
    have htest : next code s₂ (.step true) = some s₃ := by
      refine next_act (x := s₂.data) hc ?_
      simp [hdata₂]
    refine h₂.step (e := .step true) nofun htest ?_
    rw [hctl₃]
    exact hin _
  have hcode : ∀ g b, code (.tryLockUntil d { thisTid := true } (.wait g b)) = b.codeWith () ()
      (fun x : Data Bool => x.locksCount == 0#32) (some d) (fun _ => ())
      (fun b => .tryLockUntil d { thisTid := true } (.wait true b))
      fun _ x => if x.locksCount = 0#32 then
          ({ tid := some true, locksCount := (rmtxIncLc x.locksCount).1 },
            .tryLockUntil d { thisTid := true, depth := 1 } (.leave .acquired))
        else (x, .tryLockUntil d { thisTid := true } (.leave .failed)) := fun _ _ => rfl
  have hdata₃ : s₃.data = { tid := some false, locksCount := 1#32 } := hdata
  refine h₃.timesOut hnow (fun b => .tryLockUntil d { thisTid := true } (.wait true b)) ?_
    (hcode true) (fun b => hin (.wait true b)) ?_ ?_ hd hm
  · rw [hctl₃]
    exact hcode false .test
  · rw [hdata₃]
    rfl
  · rw [hdata₃]
    exact ⟨_, rfl⟩

/-- The only worker knows the counter. -/
theorem count_of_only {s : State Unit Unit Unit (Data Unit) (Ctl Unit)} {h : Caller Unit}
    (ho : Owned s) (hc : (s.ctl ()).caller = h) :
    s.data.locksCount.toNat = h.depth ∧ (s.data.locksCount = 0#32 ∨ s.data.tid = some ()) := by
  cases htid : s.data.tid with
  | none =>
      have h0 := ho.free.mp htid
      have hdepth := ho.others () (by rw [htid]; nofun)
      rw [Ctl.depth, hc] at hdepth
      rw [h0, hdepth]
      exact ⟨rfl, Or.inl rfl⟩
  | some u =>
      have hcount := ho.count () htid
      rw [Ctl.depth, hc] at hcount
      exact ⟨hcount, Or.inr rfl⟩

/-- **A worker can lock the mutex again and again**, up to the limit. -/
theorem exists_depth (now₀ : Time) (m : Nat) (hm : m < 2 ^ 32 - 1) :
    ∃ s, (machine Unit).Reach Clocked s ∧ s.ctl () = .idle { thisTid := (), depth := m } ∧
      s.owner () = none ∧ s.now = now₀ := by
  induction m with
  | zero => exact ⟨_, .init ⟨now₀, rfl⟩, rfl, rfl, rfl⟩
  | succ m ih =>
      obtain ⟨s, hr, hctl, howner, hnow⟩ := ih (by omega)
      obtain ⟨hcount, hfree⟩ := count_of_only (owned_reachable hr.reachable)
        (h := { thisTid := (), depth := m }) (by rw [hctl]; rfl)
      have hinc : rmtxIncLc s.data.locksCount = (s.data.locksCount + 1#32, true) :=
        rmtxIncLc_of_lt (by rw [hcount]; exact hm)
      let s₁ := s.goto () (.tryLock { thisTid := (), depth := m } .enter)
      let s₂ := (s₁.setOwner () (some ())).goto () (.tryLock { thisTid := (), depth := m } .test)
      let s₃ := ({ s₂ with data := { tid := some (), locksCount := s.data.locksCount + 1#32 } } :
        State Unit Unit Unit (Data Unit) (Ctl Unit)).goto ()
        (.tryLock { thisTid := (), depth := m + 1 } (.leave .acquired))
      let s₄ := (s₃.setOwner () none).goto () (.idle { thisTid := (), depth := m + 1 })
      have hctl₁ : s₁.ctl () = .tryLock { thisTid := (), depth := m } .enter :=
        State.goto_ctl_self ..
      have hctl₂ : s₂.ctl () = .tryLock { thisTid := (), depth := m } .test :=
        State.goto_ctl_self ..
      have hctl₃ : s₃.ctl () = .tryLock { thisTid := (), depth := m + 1 } (.leave .acquired) :=
        State.goto_ctl_self ..
      have howner₁ : s₁.owner () = none := howner
      have hdata₂ : s₂.data = s.data := rfl
      have hcall : next code s (.choose () (.tryLock { thisTid := (), depth := m } .enter)) =
          some s₁ := by
        refine next_call (by rw [hctl]; rfl) ?_
        simp [Ctl.calls]
      have hlock : next code s₁ (.step ()) = some s₂ := next_tryLock (by rw [hctl₁]; rfl) howner₁
      have htest : next code s₂ (.step ()) = some s₃ := by
        have hc : code (s₂.ctl ()) = tryLockCode { thisTid := (), depth := m } .test := by
          rw [hctl₂]
          rfl
        refine next_act (x := { tid := some (), locksCount := s.data.locksCount + 1#32 }) hc ?_
        simp [hdata₂, hfree, hinc]
      have hleave : next code s₃ (.step ()) = some s₄ := next_unlock (by rw [hctl₃]; rfl)
      have hr₄ : (machine Unit).Reach Clocked s₄ :=
        .tail (e := .step ()) (.tail (e := .step ()) (.tail (e := .step ())
          (.tail (e := .choose () _) hr nofun hcall) nofun hlock) nofun htest) nofun hleave
      refine ⟨s₄, hr₄, State.goto_ctl_self .., ?_, hnow⟩
      simp [s₄]

/-- **At the limit `try_lock_for` fails at once.** -/
theorem tryLockFor_full (now₀ d : Time) (hn : n + 1 = 2 ^ 32 - 1) :
    ∃ t s, (tryLockFor Unit n).TimesOut now₀ d t s ∧ s.now = now₀ := by
  obtain ⟨s, hr, hctl, howner, hnow⟩ := exists_depth now₀ n (by omega)
  obtain ⟨hcount, hfree⟩ := count_of_only (owned_reachable hr.reachable)
    (h := { thisTid := (), depth := n }) (by rw [hctl]; rfl)
  have htid : s.data.tid = some () := by
    rcases hfree with h0 | htid
    · rw [h0] at hcount
      simp only [BitVec.toNat_ofNat] at hcount
      omega
    · exact htid
  have hinc : rmtxIncLc s.data.locksCount = (s.data.locksCount, false) :=
    rmtxIncLc_of_eq (by rw [hcount]; exact hn)
  have hin : ∀ p, (tryLockFor Unit n).inside d
      (.tryLockUntil d { thisTid := (), depth := n } p) := fun p => ⟨_, p, rfl, rfl⟩
  let s₁ := s.goto () (.tryLockUntil d { thisTid := (), depth := n } .enter)
  let s₂ := (s₁.setOwner () (some ())).goto () (.tryLockUntil d { thisTid := (), depth := n } .test)
  have hctl₁ : s₁.ctl () = .tryLockUntil d { thisTid := (), depth := n } .enter :=
    State.goto_ctl_self ..
  have hctl₂ : s₂.ctl () = .tryLockUntil d { thisTid := (), depth := n } .test :=
    State.goto_ctl_self ..
  have h₁ : (tryLockFor Unit n).Underway now₀ d () s₁ := by
    refine .call hr hnow ⟨{ thisTid := (), depth := n }, rfl, rfl⟩ ?_ ?_
    · refine next_call (s := s) (by rw [hctl]; rfl) ?_
      simp [Ctl.calls]
    · rw [hctl₁]
      exact hin _
  have h₂ : (tryLockFor Unit n).Underway now₀ d () s₂ := by
    have howner₁ : s₁.owner () = none := howner
    have hlock : next code s₁ (.step ()) = some s₂ := next_lock (by rw [hctl₁]; rfl) howner₁
    refine h₁.step (e := .step ()) nofun hlock ?_
    rw [hctl₂]
    exact hin _
  have hfail : next code s₂ (.step ()) =
      some (s₂.goto () (.tryLockUntil d { thisTid := (), depth := n } (.leave .failed))) := by
    have hc : code (s₂.ctl ()) = tryLockUntilCode d { thisTid := (), depth := n } .test := by
      rw [hctl₂]
      rfl
    have hdata₂ : s₂.data = s.data := rfl
    refine next_act (x := s₂.data) hc ?_
    simp [hdata₂, htid, inc, hinc]
    rw [← htid]
  exact ⟨(), s₂, ⟨h₂, _, hfail, _, State.goto_ctl_self ..⟩, hnow⟩

end RecursiveTimedMutex

/-! ## All timed operations -/

section

variable {now₀ : Time} {r : Duration}

/--
**A timed operation gives up early exactly if its deadline wraps.** As long as `now() + rel_time`
fits a time point, `wait_for`, `try_lock_for` and `sleep_for` report a time-out only when that
much time has passed since the call, and the first two after a last test under the mutex that was
false; otherwise each of them has runs in which it does not wait. A `try_lock_for` of a recursive
mutex that its caller holds already does not wait in any case: it fails at the limit only.
-/
theorem never_early_iff (hmin : Time.min ≤ now₀) (hmax : now₀ ≤ Time.max) :
    (deadline now₀ r = now₀ + r.ns ↔ now₀ + r.ns ≤ Time.max) ∧
    ((∀ (T D : Type) [DecidableEq T] (x : D) (pred : D → Bool),
      (Client.waitFor T x pred).NeverEarly now₀ r) ↔ now₀ + r.ns ≤ Time.max) ∧
    ((∀ (T : Type) [DecidableEq T], (TimedMutex.tryLockFor T).NeverEarly now₀ r) ↔
      now₀ + r.ns ≤ Time.max) ∧
    (∀ n, (∀ (T : Type) [DecidableEq T], (RecursiveTimedMutex.tryLockFor T n).NeverEarly now₀ r) ↔
      (n = 0 → now₀ + r.ns ≤ Time.max) ∧ (n + 1 = 2 ^ 32 - 1 → r.ns = 0)) ∧
    ((∀ (T D : Type) [DecidableEq T] (x : D), (Client.sleepFor T x).NeverEarly now₀ r) ↔
      now₀ + r.ns ≤ Time.max) := by
  refine ⟨deadline_eq_iff hmin, ⟨fun h => ?_, fun hfit T D _ x pred => ?_⟩,
    ⟨fun h => ?_, fun hfit T _ => ?_⟩,
    fun n => ⟨fun h => ⟨?_, fun hn => ?_⟩, fun ⟨hfit, hfull⟩ T _ => ?_⟩,
    ⟨fun h => ?_, fun hfit T D _ x => ?_⟩⟩
  · exact TimedCall.fits_of_neverEarly hmax (fun d n => Client.waitFor_timesOut)
      (h Unit Unit () fun _ => false)
  · exact Client.waitFor_neverEarly hmin hfit
  · exact TimedCall.fits_of_neverEarly hmax (fun d n => TimedMutex.tryLockFor_timesOut) (h Bool)
  · exact TimedMutex.tryLockFor_neverEarly hmin hfit
  · rintro rfl
    exact TimedCall.fits_of_neverEarly hmax (fun d n => RecursiveTimedMutex.tryLockFor_timesOut)
      (h Bool)
  · obtain ⟨t, s, hout, hnow⟩ := RecursiveTimedMutex.tryLockFor_full now₀
      (deadline now₀ r) hn
    have hle := (h Unit t s hout).1
    have hns := r.ns_nonneg
    rw [hnow] at hle
    unfold Time at *
    omega
  · exact RecursiveTimedMutex.tryLockFor_neverEarly hmin hfit hfull
  · exact TimedCall.fits_of_neverEarly hmax (fun d n => Client.sleepFor_timesOut) (h Unit Unit ())
  · exact Client.sleepFor_neverEarly hmin hfit

/-- `std::chrono::seconds{1}`. -/
def second : Duration := ⟨1, 10 ^ 9, by decide, by decide⟩

theorem never_early_iff_second : Time.min ≤ (0 : Time) ∧ (0 : Time) ≤ Time.max ∧
    ∀ (T : Type) [DecidableEq T], (TimedMutex.tryLockFor T).NeverEarly 0 second :=
  ⟨by decide, by decide, (never_early_iff (by decide) (by decide)).2.2.1.mpr (by decide)⟩

/-- `std::chrono::nanoseconds::max()`. -/
def forever : Duration := ⟨Time.max, 1, by decide, by decide⟩

/-- **Whoever waits forever does not wait at all.** -/
theorem forever_gives_up_at_once : deadline 1 forever = Time.min ∧
    (∃ t s, (TimedMutex.tryLockFor Bool).TimesOut 1 (deadline 1 forever) t s ∧ s.now = 1) ∧
    ¬(TimedMutex.tryLockFor Bool).NeverEarly 1 forever := by
  have hd : deadline 1 forever = Time.min := by decide
  have hout : ∃ t s, (TimedMutex.tryLockFor Bool).TimesOut 1 (deadline 1 forever) t s ∧
      s.now = 1 := by
    rw [hd]
    exact TimedMutex.tryLockFor_timesOut (n := 0) (by decide) (by decide)
  refine ⟨hd, hout, fun h => ?_⟩
  obtain ⟨t, s, hs, hnow⟩ := hout
  have hle := (h t s hs).1
  rw [hnow] at hle
  exact absurd hle (by decide)

end

end Ums
