import Ums.Monitor.Section
import Ums.Monitor.WaiterNode

/-!
# Timed operations and the time that has elapsed

An operation with a relative time forms its deadline when it is called, by 64-bit arithmetic, and
looks at the clock afterwards. A `TimedCall` names the control points of such an operation in a
program, and `NeverEarly` says that it does not report a time-out before the time has really
passed, and not without having tested what it waits for. A call keeps that promise if its
deadline does not wrap; if it does, there are runs that end early.
-/

namespace Ums

/-! ## Deadlines -/

/-- A `std::chrono::duration` that is not negative. -/
structure Duration where
  /-- The number of ticks, a signed 64-bit integer. -/
  count : Int
  /-- The nanoseconds of a tick. -/
  period : Nat
  /-- It is not negative. -/
  nonneg : 0 ≤ count
  /-- It fits 64 bits. -/
  fits : count ≤ Time.max

/-- The duration in nanoseconds. -/
def Duration.ns (r : Duration) : Int := r.count * r.period

/-- `now() + rel_time`: the ticks are converted to nanoseconds and added to the clock. -/
def deadline (now : Time) (r : Duration) : Time := wrap64 (now + wrap64 (r.count * r.period))

theorem Duration.ns_nonneg (r : Duration) : 0 ≤ r.ns :=
  Int.mul_nonneg r.nonneg (Int.natCast_nonneg _)

/-- Only the sum matters: a conversion that wraps is undone if the sum does not. -/
theorem deadline_eq_wrap64 (now : Time) (r : Duration) : deadline now r = wrap64 (now + r.ns) := by
  unfold deadline wrap64 Duration.ns
  rw [Int.add_bmod_bmod]

theorem wrap64_le_max (x : Int) : wrap64 x ≤ Time.max := by
  unfold wrap64 Time.max
  have hlt : x.bmod (2 ^ 64) < _ := Int.bmod_lt (by decide)
  omega

/-- **The deadline is exact as long as it fits 64 bits, and only then.** -/
theorem deadline_eq_iff {now : Time} {r : Duration} (h : Time.min ≤ now) :
    deadline now r = now + r.ns ↔ now + r.ns ≤ Time.max := by
  have hns := r.ns_nonneg
  rw [deadline_eq_wrap64]
  constructor
  · intro he
    rw [← he]
    exact wrap64_le_max _
  · intro hle
    exact wrap64_of_mem (by omega) hle

namespace Monitor

variable {T μ γ δ κ σ : Type} [DecidableEq T] [DecidableEq μ] [DecidableEq γ]

/-! ## Timed calls -/

/-- The clock does not go back. -/
theorem Step.now_le {code : κ → Cmd μ γ δ κ} {s s' : State T μ γ δ κ} {e : Event T κ}
    (hs : Step code s e s') : s.now ≤ s'.now := by
  cases hs with
  | tick =>
      exact Int.le_add_of_nonneg_right (Int.natCast_nonneg _)
  | _ => exact Int.le_refl _

/-- The clock shows a signed 64-bit number. -/
def Clocked (s : State T μ γ δ κ) (e : Event T κ) : Prop := ∀ d, e = .tick d → s.now + d ≤ Time.max

/-- A timed operation in a program. -/
structure TimedCall (T μ γ δ κ : Type) where
  /-- The program. -/
  code : κ → Cmd μ γ δ κ
  /-- Where its workers start. -/
  ctl : T → κ
  /-- The data at the start. -/
  data : δ
  /-- The first control points of a call with a deadline. -/
  enters : Time → κ → Prop
  /-- The control points of a call with a deadline. -/
  inside : Time → κ → Prop
  /-- A statement in a call with a deadline, on the data, that reports a time-out. -/
  reports : Time → κ → δ → κ → Prop
  /-- What the worker has found in its last test. -/
  refused : State T μ γ δ κ → T → Prop

namespace TimedCall

/-- The workers that run the program. -/
abbrev machine (op : TimedCall T μ γ δ κ) : Lib.Machine (State T μ γ δ κ) (Event T κ) :=
  Monitor.machine op.code op.ctl op.data

/-- A worker is in a call of the operation, which it has begun at the time `now₀` with the deadline
`d`. -/
inductive Underway (op : TimedCall T μ γ δ κ) (now₀ d : Time) (t : T) : State T μ γ δ κ → Prop
  /-- It has just begun. -/
  | call {s s' : State T μ γ δ κ} {k : κ} (hr : op.machine.Reach Clocked s) (hnow : s.now = now₀)
      (hk : op.enters d k) (hs : op.machine.next s (.choose t k) = some s')
      (hin : op.inside d (s'.ctl t)) : Underway op now₀ d t s'
  /-- Somebody takes a step. -/
  | step {s s' : State T μ γ δ κ} {e : Event T κ} (h : Underway op now₀ d t s) (hok : Clocked s e)
      (hs : op.machine.next s e = some s') (hin : op.inside d (s'.ctl t)) :
      Underway op now₀ d t s'

/-- A worker in such a call reports a time-out when it takes its next step. -/
structure TimesOut (op : TimedCall T μ γ δ κ) (now₀ d : Time) (t : T) (s : State T μ γ δ κ) :
    Prop where
  /-- It is in the call. -/
  underway : op.Underway now₀ d t s
  /-- It reports a time-out. -/
  out : ∃ s', op.machine.next s (.step t) = some s' ∧
    op.reports d (s.ctl t) s.data (s'.ctl t)

/-- **It does not give up early.** -/
def NeverEarly (op : TimedCall T μ γ δ κ) (now₀ : Time) (r : Duration) : Prop :=
  ∀ t s, op.TimesOut now₀ (deadline now₀ r) t s → now₀ + r.ns ≤ s.now ∧ op.refused s t

variable {op : TimedCall T μ γ δ κ} {now₀ d : Time} {r : Duration} {t : T} {s : State T μ γ δ κ}

theorem Underway.reachable (h : op.Underway now₀ d t s) : op.machine.Reachable s := by
  induction h with
  | call hr _ _ hs => exact hr.reachable.tail hs
  | step _ _ hs _ ih => exact ih.tail hs

theorem Underway.inside (h : op.Underway now₀ d t s) : op.inside d (s.ctl t) := by
  cases h with
  | call _ _ _ _ hin => exact hin
  | step _ _ _ hin => exact hin

/-- A call ends after it has begun. -/
theorem Underway.now_le (h : op.Underway now₀ d t s) : now₀ ≤ s.now := by
  induction h with
  | @call s s' k _ hnow _ hs =>
      have hst : Step op.code s (.choose t k) s' := step_of_next hs
      rw [← hnow]
      exact hst.now_le
  | @step s s' e _ _ hs _ ih =>
      have hst : Step op.code s e s' := step_of_next hs
      exact Int.le_trans ih hst.now_le

/-- An operation that looks at the clock is never early if its deadline is exact. -/
theorem neverEarly (hmin : Time.min ≤ now₀) (hfit : now₀ + r.ns ≤ Time.max)
    (h : ∀ d t s s', op.machine.Reachable s → op.machine.next s (.step t) = some s' →
      op.reports d (s.ctl t) s.data (s'.ctl t) → d ≤ s.now ∧ op.refused s t) :
    op.NeverEarly now₀ r := by
  intro t s hout
  obtain ⟨s', hnext, hrep⟩ := hout.out
  have hlate := h _ t s s' hout.underway.reachable hnext hrep
  rwa [(deadline_eq_iff hmin).mpr hfit] at hlate

/-- An operation that can time out as soon as the clock has reached its deadline is early when the
deadline has wrapped. -/
theorem fits_of_neverEarly (hmax : now₀ ≤ Time.max)
    (h : ∀ d (n : Nat), d ≤ now₀ + n → now₀ + n ≤ Time.max →
      ∃ t s, op.TimesOut now₀ d t s ∧ s.now = now₀ + n)
    (hnever : op.NeverEarly now₀ r) : now₀ + r.ns ≤ Time.max := by
  -- the clock goes on to its last value, which no deadline exceeds
  have hn : now₀ + ((Time.max - now₀).toNat : Int) = Time.max := by
    rw [Int.toNat_of_nonneg (Int.sub_nonneg.mpr hmax), Int.add_comm, Int.sub_add_cancel]
  have hd : deadline now₀ r ≤ Time.max := wrap64_le_max _
  obtain ⟨t, s, hout, hnow⟩ :=
    h (deadline now₀ r) _ (by rw [hn]; exact hd) (Int.le_of_eq hn)
  have hle := (hnever t s hout).1
  rwa [hnow, hn] at hle

end TimedCall

/-! ## What is known of the clock -/

section

variable {code : κ → Cmd μ γ δ κ} {ctl : T → κ} {data : δ} {s s' : State T μ γ δ κ} {t : T}

/-- **What a worker has learned about the clock stays true.** -/
theorem late_reachable (late : κ → Time → Prop) (hstart : ∀ t d, ¬late (ctl t) d)
    (hj : ∀ {s t k y d}, (machine code ctl data).Reachable s →
      Jump code s.now (s.ctl t) s.data k y → late k d → d ≤ s.now)
    (h : (machine code ctl data).Reachable s) (t : T) (d : Time) (hl : late (s.ctl t) d) :
    d ≤ s.now := by
  refine h.invariant (I := fun s => ∀ t d, late (s.ctl t) d → d ≤ s.now) ?_ ?_ t d hl
  · rintro s ⟨now, rfl⟩ t d hl
    exact absurd hl (hstart t d)
  · intro s e s' hr _ hs hi t d hl
    have hst : Step code s e s' := step_of_next hs
    rcases hst.jump with ⟨hctl, -⟩ | ⟨u, hctl, hjump⟩
    · rw [hctl] at hl
      exact Int.le_trans (hi t d hl) hst.now_le
    · by_cases hu : t = u
      · subst hu
        exact Int.le_trans (hj hr hjump hl) hst.now_le
      · rw [hctl, Function.update_of_ne hu] at hl
        exact Int.le_trans (hi t d hl) hst.now_le

/-! ## The predicate wait -/

variable {v : γ} {m : μ} {pred : δ → Bool} {d : Time} {note : δ → σ} {inside : Await σ → κ}
  {fin : Bool → δ → δ × κ} {now : Time} {c k : κ} {x y : δ} {a : Await σ}

omit [DecidableEq μ] [DecidableEq γ] in
/-- A predicate wait whose caller does nothing in the same step. -/
theorem Await.code_eq (dl : Option Time) (ret : Bool → κ) (a : Await σ) :
    a.code v m pred dl note inside ret =
      a.codeWith v m pred dl note inside fun r x => (x, ret r) := by
  cases a with
  | test =>
      refine congrArg Cmd.act ?_
      funext now x
      split <;> rfl
  | _ => rfl

omit [DecidableEq μ] [DecidableEq γ] in
/-- **A worker stops waiting only when the clock has reached its deadline.** -/
theorem Await.late (hc : code c = a.codeWith v m pred (some d) note inside fin)
    (hj : Jump code now c x k y) :
    (∃ b, k = inside b ∧ y = x ∧ (b = .last → d ≤ now)) ∨
      ((y, k) = fin (pred x) x ∧ (a = .test ∧ pred x = true ∨ a = .last)) := by
  cases a with
  | test =>
      cases hj with
      | act hc' =>
          rw [hc] at hc'
          cases hc'
          by_cases hp : pred x = true
          · refine Or.inr ⟨?_, Or.inl ⟨rfl, hp⟩⟩
            simp only [hp, if_true]
          · exact Or.inl ⟨_, congrArg Prod.snd (if_neg hp), congrArg Prod.fst (if_neg hp), nofun⟩
      | _ hc' => rw [hc] at hc'; cases hc'
  | clock | after =>
      cases hj with
      | act hc' =>
          rw [hc] at hc'
          cases hc'
          refine Or.inl ⟨_, rfl, rfl, fun hb => ?_⟩
          by_cases hd : now ≥ (some d).getD Time.max
          · exact hd
          · rw [if_neg hd] at hb
            cases hb
      | _ hc' => rw [hc] at hc'; cases hc'
  | body =>
      cases hj with
      | wait hc' =>
          rw [hc] at hc'
          cases hc'
          exact Or.inl ⟨_, rfl, rfl, nofun⟩
      | _ hc' => rw [hc] at hc'; cases hc'
  | last =>
      cases hj with
      | act hc' =>
          rw [hc] at hc'
          cases hc'
          exact Or.inr ⟨rfl, Or.inr rfl⟩
      | _ hc' => rw [hc] at hc'; cases hc'

end

namespace TimedCall

variable {op : TimedCall T μ γ δ κ} {now₀ : Time} {v : γ} {m : μ} {pred : δ → Bool} {d : Time}
  {note : δ → σ} {fin : Bool → δ → δ × κ} {s : State T μ γ δ κ} {t : T}

/-- **A call that comes to wait in vain** times out as soon as the clock has reached its deadline,
whatever that is. -/
theorem Underway.timesOut {n : Nat} (h : op.Underway now₀ d t s) (hnow : s.now = now₀)
    (inside : Await σ → κ)
    (hc : op.code (s.ctl t) = Await.test.codeWith v m pred (some d) note inside fin)
    (hi : ∀ b, op.code (inside b) = b.codeWith v m pred (some d) note inside fin)
    (hin : ∀ b, op.inside d (inside b)) (hp : pred s.data = false)
    (hrep : op.reports d (inside .last) s.data (fin false s.data).2)
    (hd : d ≤ now₀ + n) (hn : now₀ + n ≤ Time.max) :
    ∃ t s, op.TimesOut now₀ d t s ∧ s.now = now₀ + n := by
  subst hnow
  -- past the tick, at the comparison with the clock, and at the last test
  let s₁ : State T μ γ δ κ := { s with now := s.now + n }
  let s₂ := s₁.goto t (inside (.clock (note s.data)))
  let s₃ := s₂.goto t (inside .last)
  have h₁ : op.Underway s.now d t s₁ := by
    refine h.step (e := .tick n) ?_ rfl h.inside
    intro m' hm
    cases hm
    exact hn
  have h₂ : op.Underway s.now d t s₂ := by
    refine h₁.step (e := .step t) nofun (next_act hc (by simp [s₁, hp])) ?_
    rw [State.goto_ctl_self]
    exact hin _
  have hctl₂ : s₂.ctl t = inside (.clock (note s.data)) := State.goto_ctl_self ..
  have h₃ : op.Underway s.now d t s₃ := by
    refine h₂.step (e := .step t) nofun (next_act (by rw [hctl₂, hi]; rfl) ?_) ?_
    · have hclock : s.now + (n : Int) ≥ d := hd
      simp [s₂, s₁, hclock]
    · rw [State.goto_ctl_self]
      exact hin _
  have hctl₃ : s₃.ctl t = inside .last := State.goto_ctl_self ..
  have hdata₃ : s₃.data = s.data := rfl
  refine ⟨t, s₃, ⟨h₃, _, next_act (by rw [hctl₃, hi]; rfl) rfl, ?_⟩, rfl⟩
  rw [hctl₃, State.goto_ctl_self, hdata₃, hp]
  exact hrep

end TimedCall

/-! ## `wait_for` and `sleep_for` of the client -/

namespace Client

variable {D : Type} {now₀ : Time} {r : Duration}

/-- `Condition_variable::wait_for` with the predicate `pred`. It returns `false` when the predicate
is false in its last test. -/
def waitFor (T : Type) (x : D) (pred : D → Bool) :
    TimedCall T Unit Unit (Shared D) (Client D) where
  code := code
  ctl _ := .free 0
  data := { value := x }
  enters d k := ∃ n, k = .await pred (some d) n .test
  inside d k := ∃ n a, k = .await pred (some d) n a
  reports d c x _ := ∃ n, c = .await pred (some d) n .last ∧ pred x.value = false
  refused s t := s.owner () = some t ∧ pred s.data.value = false

/-- `Worker::sleep_for`. -/
def sleepFor (T : Type) (x : D) : TimedCall T Unit Unit (Shared D) (Client D) where
  code := code
  ctl _ := .free 0
  data := { value := x }
  enters d k := ∃ locked n, k = .sleep locked d n
  inside d k := ∃ locked n, k = .sleep locked d n
  reports d c _ k := ∃ locked n, c = .sleep locked d n ∧ k = back locked n
  refused _ _ := True

/-- The worker is about to evaluate the predicate after a time-out. -/
def late (c : Client D) (d : Time) : Prop := ∃ pred n, c = .await pred (some d) n .last

theorem late_of_jump {now d : Time} {c k : Client D} {x y : Shared D}
    (hj : Jump code now c x k y) (hl : k.late d) : d ≤ now := by
  obtain ⟨pred, n, rfl⟩ := hl
  have hback : ∀ (l : Bool) (m : Nat), Client.await pred (some d) n .last ≠ back l m := by
    intro l m
    cases l <;> nofun
  cases c with
  | await pred' deadline n' a =>
      cases deadline with
      | none =>
          have hc : code (.await pred' none n' a) = a.code () () (fun y => pred' y.value) none
            Shared.version (.await pred' none n') (fun _ => .held n') := rfl
          rcases (Await.jump hc hj).2 with ⟨b, hb⟩ | hb
          · cases hb
          · cases hb
      | some d' =>
          have hc : code (.await pred' (some d') n' a) = a.code () () (fun y => pred' y.value)
            (some d') Shared.version (.await pred' (some d') n') (fun _ => .held n') := rfl
          rw [Await.code_eq] at hc
          rcases Await.late hc hj with ⟨b, hb, -, hlate⟩ | ⟨he, -⟩
          · cases hb
            exact hlate rfl
          · cases he
  | free n' | held n' =>
      generalize he : Client.await pred (some d) n .last = k at hj
      cases hj with
      | choose hc hk =>
          cases hc
          subst he
          cases hk
      | _ hc => cases hc
  | timedWait d' n' =>
      generalize he : Client.await pred (some d) n .last = k at hj
      cases hj with
      | act hc =>
          cases hc
          simp only at he
          split at he <;> cases he
      | _ hc => cases hc
  | notifyOne l m =>
      generalize he : Client.await pred (some d) n .last = k at hj
      cases hj with
      | notifyOne hc =>
          cases hc
          exact absurd he (hback l m)
      | _ hc => cases hc
  | notified l m =>
      generalize he : Client.await pred (some d) n .last = k at hj
      cases hj with
      | act hc =>
          cases hc
          exact absurd he (hback l m)
      | _ hc => cases hc
  | sleep l _ m =>
      generalize he : Client.await pred (some d) n .last = k at hj
      cases hj with
      | sleep hc =>
          cases hc
          exact absurd he (hback l m)
      | _ hc => cases hc
  | acquire | tryAcquire | release | change | plainWait | notifyAll =>
      generalize he : Client.await pred (some d) n .last = k at hj
      cases hj with
      | _ hc =>
          cases hc <;> cases he

variable {T : Type} [DecidableEq T] {x : D} {pred : D → Bool} {d : Time} {t : T}
  {s : State T Unit Unit (Shared D) (Client D)}

/-- **A `wait_for` that fails** has seen the clock at its deadline and has the mutex. -/
theorem waitFor_late {n : Nat} (h : (waitFor T x pred).machine.Reachable s)
    (hc : s.ctl t = .await pred (some d) n .last) : d ≤ s.now ∧ s.owner () = some t := by
  constructor
  · refine late_reachable late ?_ (fun _ hj hl => late_of_jump hj hl) h t d ⟨pred, n, hc⟩
    rintro t d ⟨_, _, he⟩
    cases he
  · have hg := guarded_reachable disciplined (fun _ _ => rfl) h
    refine (hg () t).mpr ?_
    rw [Holding, hc]
    rfl

theorem waitFor_neverEarly (hmin : Time.min ≤ now₀) (hfit : now₀ + r.ns ≤ Time.max) :
    (waitFor T x pred).NeverEarly now₀ r := by
  refine TimedCall.neverEarly hmin hfit ?_
  rintro d t s s' hr - ⟨n, hc, hp⟩
  obtain ⟨hlate, howner⟩ := waitFor_late hr hc
  exact ⟨hlate, howner, hp⟩

/-- **`wait_for` returns `false` as soon as the clock has reached its deadline.** -/
theorem waitFor_timesOut {n : Nat} (hd : d ≤ now₀ + n) (hn : now₀ + n ≤ Time.max) :
    ∃ t s, (waitFor Unit () fun _ => false).TimesOut now₀ d t s ∧ s.now = now₀ + n := by
  obtain ⟨s, hreach, hctl, hnow⟩ : ∃ s, (waitFor Unit () fun _ => false).machine.Reach Clocked s ∧
      s.ctl () = .held 0 ∧ s.now = now₀ :=
    ⟨_, .tail (e := .step ()) (.tail (e := .choose () (.acquire 0)) (.init ⟨now₀, rfl⟩) nofun rfl)
      nofun rfl, rfl, rfl⟩
  have hcode : ∀ b, code (.await (fun _ => false) (some d) 0 b) = b.codeWith () ()
      (fun _ => false) (some d) Shared.version (.await (fun _ => false) (some d) 0)
      fun _ (x : Shared Unit) => (x, .held 0) :=
    Await.code_eq (some d) fun _ => Client.held 0
  have hchoose : code (s.ctl ()) = .choose (fromHeld 0) := by
    rw [hctl]
    rfl
  have hat : (s.goto () (.await (fun _ => false) (some d) 0 .test)).ctl () =
      .await (fun _ => false) (some d) 0 .test := State.goto_ctl_self ..
  have hcall : (waitFor Unit () fun _ => false).Underway now₀ d ()
      (s.goto () (.await (fun _ => false) (some d) 0 .test)) :=
    .call hreach hnow ⟨0, rfl⟩ (next_call hchoose rfl) ⟨0, .test, hat⟩
  refine hcall.timesOut hnow (.await (fun _ => false) (some d) 0) ?_ hcode ?_ ?_ ?_ hd hn
  · rw [hat]
    exact hcode .test
  · intro b
    exact ⟨0, b, rfl⟩
  · rfl
  · exact ⟨0, rfl, rfl⟩

/-- **`sleep_for` returns only when the clock has reached its deadline.** -/
theorem sleepFor_neverEarly (hmin : Time.min ≤ now₀) (hfit : now₀ + r.ns ≤ Time.max) :
    (sleepFor T x).NeverEarly now₀ r := by
  refine TimedCall.neverEarly hmin hfit ?_
  rintro d t s s' hr hnext ⟨locked, n, hc, hk⟩
  have hcode : code (s.ctl t) = .sleep d (back locked n) := by
    rw [hc]
    rfl
  rcases (sleeping_reachable hr).sleep_cases hcode hnext with ⟨hctl, -⟩ | ⟨-, -, hlate⟩
  · rw [hctl, hc] at hk
    cases locked <;> cases hk
  · exact ⟨hlate, trivial⟩

/-- And it returns as soon as it has. -/
theorem sleepFor_timesOut {n : Nat} (hd : d ≤ now₀ + n) (hn : now₀ + n ≤ Time.max) :
    ∃ t s, (sleepFor Unit ()).TimesOut now₀ d t s ∧ s.now = now₀ + n := by
  obtain ⟨s, hreach, hctl, hphase, hnow⟩ : ∃ s, (sleepFor Unit ()).machine.Reach Clocked s ∧
      s.ctl () = .free 0 ∧ s.phase () = .start ∧ s.now = now₀ :=
    ⟨_, .init ⟨now₀, rfl⟩, rfl, rfl, rfl⟩
  subst hnow
  have hin : (sleepFor Unit ()).inside d (.sleep false d 0) := ⟨false, 0, rfl⟩
  -- past the tick, and past `set_wait_info`
  let s₁ := s.goto () (.sleep false d 0)
  let s₂ : State Unit Unit Unit (Shared Unit) (Client Unit) := { s₁ with now := s.now + n }
  let s₃ := (s₂.setWaitInfo () false d).setPhase () .dozing
  have hctl₁ : s₁.ctl () = .sleep false d 0 := State.goto_ctl_self ..
  have hctl₂ : code (s₂.ctl ()) = .sleep d (.free 0) := congrArg code hctl₁
  have hctl₃ : code (s₃.ctl ()) = .sleep d (.free 0) := hctl₂
  have h₁ : (sleepFor Unit ()).Underway s.now d () s₁ := by
    refine .call hreach rfl ⟨false, 0, rfl⟩ ?_ ?_
    · have hchoose : code (s.ctl ()) = .choose (fromFree 0) := by
        rw [hctl]
        rfl
      exact next_call hchoose rfl
    · rw [hctl₁]
      exact hin
  have h₂ : (sleepFor Unit ()).Underway s.now d () s₂ := by
    refine h₁.step (e := .tick n) ?_ rfl h₁.inside
    intro m hm
    cases hm
    exact hn
  have h₃ : (sleepFor Unit ()).Underway s.now d () s₃ := by
    refine h₂.step (e := .step ()) nofun ?_ h₂.inside
    have hphase : s₂.phase () = .start := by simp [s₂, s₁]
    simp only [Monitor.machine, next, sleepFor, hctl₂, cmdStep, hphase, sleepStep, s₃]
  have hawake : (sleepFor Unit ()).machine.next s₃ (.step ()) = some (s₃.goto () (.free 0)) := by
    have hphase : s₃.phase () = .dozing := by simp [s₃]
    have hinfo : s₃.info () = ⟨false, d⟩ := by simp [s₃]
    have hwake : checkWaitInfo (s₃.info ()) s₃.now = true := by
      rw [hinfo]
      exact decide_eq_true hd
    simp only [Monitor.machine, next, sleepFor, hctl₃, cmdStep, hphase, sleepStep, hwake, if_true]
  refine ⟨(), s₃, ⟨h₃, _, hawake, false, 0, hctl₁, ?_⟩, rfl⟩
  exact State.goto_ctl_self ..

end Client

end Monitor

end Ums
