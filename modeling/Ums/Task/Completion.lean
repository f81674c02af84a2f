import Ums.Task.Basic

/-!
# What `notify` does for the workers that wait

`notify` sets the done bit with `m_mtx`, so that nobody who tests it afterwards goes on
to wait, and then notifies the worker at the front of the list. The others that are
blocked there stay blocked.
-/

namespace Ums.Task

open Monitor TaskState

variable {R E T : Type} [DecidableEq T] {moved : R → R} {c k : Ctl R E} {x y : Data R E}
  {s s' : State T Unit Unit (Data R E) (Ctl R E)} {e : Event T (Ctl R E)} {t u w : T} {now : Time}

/-- What a statement does to the done bit and to the executing worker. -/
inductive Change (c : Ctl R E) (x : Data R E) (k : Ctl R E) (y : Data R E) : Prop
  /-- A statement of another worker. -/
  | call (hc : c.executes = false) (hk : k.executes = false)
      (hd : isDone y.state = isDone x.state) (hn : y.notified = x.notified)
  /-- A statement of the executing worker, on its way. -/
  | runs (hc : c.executes = true) (hk : k.executes = true)
      (hd : isDone y.state = isDone x.state) (hn : y.notified = x.notified)
      (hr : Ready x c → Ready y k) (ha : c.announces = true → k.announces = true ∨
        (c = .exec .notify ∧ k = .exec .returned ∧ y = x))
  /-- The done bit is set. -/
  | finishes (hc : c.executes = true) (hh : holds c () = true) (hk : k.announces = true)
      (hd : isDone y.state = true) (hn : y.notified = x.notified)
  /-- `notify` has returned. -/
  | returns (hc : c = .exec .returned) (hk : k = .idle) (hd : isDone y.state = isDone x.state)

/-- **Every statement makes one of the changes.** -/
theorem change_of_jump (hj : Jump (code moved) now c x k y) : Change c x k y := by
  cases goes_of_jump hj with
  | calls hk => rcases hk with rfl | rfl <;> exact .call rfl rfl rfl rfl
  | setTaken => exact .call rfl rfl (isDone_setTaken _) rfl
  | invokes | returns | throws | enter => exact .runs rfl rfl rfl rfl (fun _ => trivial) nofun
  | setDone => exact .finishes rfl rfl rfl (isDone_setDone _) rfl
  | leave => exact .runs rfl rfl rfl rfl id fun _ => Or.inl rfl
  | notify => exact .runs rfl rfl rfl rfl id fun _ => Or.inr ⟨rfl, rfl, rfl⟩
  | returned => exact .returns rfl rfl rfl
  | _ => exact .call rfl rfl rfl rfl

/-- The done bit is not taken back. -/
theorem Change.isDone_mono (h : Change c x k y) (hd : isDone x.state = true) :
    isDone y.state = true := by
  cases h with
  | call _ _ he | runs _ _ he | returns _ _ he => rwa [he]
  | finishes _ _ _ he => exact he

/-- The done bit is set with `m_mtx`. -/
theorem Change.holds (h : Change c x k y) (hd : isDone y.state = true)
    (hn : ¬isDone x.state = true) : holds c () = true := by
  cases h with
  | call _ _ he | runs _ _ he | returns _ _ he => exact absurd (he ▸ hd) hn
  | finishes _ hh => exact hh

/-! ## One worker executes the task -/

/-- Who executes the task, and what it has done so far. -/
structure Executed (w : T) (s : State T Unit Unit (Data R E) (Ctl R E)) : Prop where
  /-- Nobody else executes it, and nobody after `notify` has returned. -/
  one : ∀ t, (s.ctl t).executes = true → t = w ∧ s.data.notified = false
  /-- The done bit is set before the notification. -/
  ready : ∀ t, Ready s.data (s.ctl t)
  /-- The done bit is set when `notify` returns. -/
  done : s.data.notified = true → isDone s.data.state = true

theorem Ready.mono (h : Ready x c) (hd : isDone x.state = true → isDone y.state = true) :
    Ready y c := by
  unfold Ready at h ⊢
  split at h <;> first | exact hd h | trivial

theorem ready_of_call (h : c.executes = false) : Ready x c := by
  cases c with
  | exec => cases h
  | _ => trivial

theorem executes_of_announces (h : c.announces = true) : c.executes = true := by
  unfold Ctl.announces at h
  split at h <;> first | rfl | cases h

theorem Executed.step (hs : Step (code moved) s e s') (h : Executed w s) : Executed w s' := by
  have hone : ∀ u, (s'.ctl u).executes = true → u = w ∧ s'.data.notified = false := by
    refine hs.forall_ctl (Q := fun u (c : Ctl R E) (x : Data R E) =>
        c.executes = true → u = w ∧ x.notified = false)
      (fun t hj he => ?_) (fun t u hu hj hone he => ?_) h.one
    · cases change_of_jump hj with
      | call _ hk | returns _ hk =>
          rw [hk] at he
          cases he
      | runs hexec _ _ hn | finishes hexec _ _ _ hn =>
          rw [hn]
          exact h.one t hexec
    · cases change_of_jump hj with
      | call _ _ _ hn | runs _ _ _ hn | finishes _ _ _ _ hn =>
          rw [hn]
          exact hone he
      | returns hret =>
          -- the worker that executes the task has just stopped
          exact absurd ((hone he).1.trans (h.one t (by rw [hret]; rfl)).1.symm) hu
  have hready : ∀ u, Ready s'.data (s'.ctl u) := by
    refine hs.forall_ctl (Q := fun _ c x => Ready x c) (fun t hj => ?_)
      (fun t u _ hj hr => hr.mono (change_of_jump hj).isDone_mono) h.ready
    cases change_of_jump hj with
    | call _ hk => exact ready_of_call hk
    | runs _ _ _ _ hr => exact hr (h.ready t)
    | finishes _ _ _ hd =>
        unfold Ready
        split <;> first | exact hd | trivial
    | returns _ hk =>
        rw [hk]
        trivial
  have hdone : s'.data.notified = true → isDone s'.data.state = true := by
    rcases hs.jump with ⟨_, hd⟩ | ⟨t, _, hj⟩
    · rw [hd]
      exact h.done
    · cases change_of_jump hj with
      | call _ _ hd hn | runs _ _ hd hn =>
          rw [hn, hd]
          exact h.done
      | finishes _ _ _ hd => exact fun _ => hd
      | returns hret _ hd =>
          have hset := h.ready t
          rw [hret] at hset
          exact fun _ => by rwa [hd]
  exact ⟨hone, hready, hdone⟩

theorem executed_reachable (h : (machine moved E w).Reachable s) : Executed w s := by
  refine Lib.Machine.Reach.invariant ?_ ?_ h
  · rintro s ⟨now, rfl⟩
    refine ⟨fun t ht => ⟨?_, rfl⟩, fun t => ?_, nofun⟩
    · by_contra hn
      simp [State.start, hn, Ctl.executes] at ht
    · simp only [State.start]
      split <;> trivial
  · intro s e s' _ _ hs hi
    exact hi.step (step_of_next hs)

/-! ## Nobody goes to sleep after the done bit is set -/

/-- The worker has seen that the task is not done, and is about to wait. -/
def undone (c : Ctl R E) : Bool := refused Ctl.waits c

theorem tests : Tests (code (E := E) moved) holds () (fun _ _ => True)
    (fun x => isDone x.state = true) (fun c => undone c = true) :=
  awaits.tests fun hj _ hd hn => (change_of_jump hj).holds hd hn

theorem start_holds (t : T) (m : Unit) :
    holds (if t = w then .exec .invoke else .idle : Ctl R E) m = false := by
  split <;> rfl

theorem undone_reachable (h : (machine moved E w).Reachable s) :
    Refused (fun x => isDone x.state = true) (fun c => undone c = true) s :=
  refused_reachable tests disciplined start_holds (fun _ _ _ => trivial) h

theorem undone_of_waitsOn (h : (code moved c).waitsOn = some ()) : undone c = true := by
  obtain ⟨m, d, k, hc⟩ := Cmd.waitsOn_eq_some h
  exact (awaits.wait_cases hc).2.1

theorem done_step (hs : Step (code moved) s e s') (hd : isDone s.data.state = true) :
    isDone s'.data.state = true := by
  rcases hs.jump with ⟨_, he⟩ | ⟨t, _, hj⟩
  · rwa [he]
  · exact (change_of_jump hj).isDone_mono hd

/-- Once the task is done, a worker that is not waiting does not begin to. -/
theorem not_undone_step (hs : Step (code moved) s e s') (hd : isDone s.data.state = true)
    (ht : undone (s.ctl t) = false) : undone (s'.ctl t) = false := by
  cases hs.moves t with
  | stays hc | inside hc => rwa [hc]
  | jumps hj =>
      by_contra hn
      rcases awaits.refused_of_jump hj (by simpa [undone] using hn) with ⟨hr, _⟩ | hno
      · have hr : undone (s.ctl t) = true := hr
        rw [ht] at hr
        cases hr
      · exact hno (done_step hs hd)

/-- A call of `wait` that begins after the task is done returns without blocking. -/
theorem not_undone_run (es : List (Event T (Ctl R E))) (hd : isDone s.data.state = true)
    (ht : undone (s.ctl t) = false) (hr : (machine moved E w).run s es = some s') :
    (code moved (s'.ctl t)).waitsOn = none := by
  induction es generalizing s with
  | nil =>
      cases hr
      by_contra hn
      obtain ⟨v, hv⟩ := Option.ne_none_iff_exists'.mp hn
      rw [undone_of_waitsOn hv] at ht
      cases ht
  | cons e es ih =>
      obtain ⟨q, hq, hr⟩ := Lib.Machine.run_cons_some hr
      have hs := step_of_next hq
      exact ih (done_step hs hd) (not_undone_step hs hd ht) hr

/-! ## Whom `notify` releases -/

/-- At the `notify_one` of `notify`, whoever is blocked un-notified is at the front of the list. -/
def NotifyOk (moved : R → R) (s : State T Unit Unit (Data R E) (Ctl R E))
    (e : Event T (Ctl R E)) : Prop :=
  ∀ t, e = .step t → s.ctl t = .exec .notify →
    ∀ u, Asleep (code moved) s () u → (s.waiters ()).head? = some u

/-- When the task is done, the notification is still to come, or nobody is asleep. -/
def Released (moved : R → R) (s : State T Unit Unit (Data R E) (Ctl R E)) : Prop :=
  isDone s.data.state = true → (∃ u, (s.ctl u).announces = true) ∨ ∀ t, ¬Asleep (code moved) s () t

/-- A worker that begins another command is not asleep, and the others sleep on. -/
theorem asleep_goto {r : State T Unit Unit (Data R E) (Ctl R E)}
    (hr : r.ctl = s.ctl ∧ r.phase = s.phase) (hc : (code moved (s.ctl t)).waitsOn = none) :
    Asleep (code moved) (r.goto t k) () u ↔ ((code moved (s.ctl u)).waitsOn = some () ∧
      (s.phase u).blocks = true ∧ (r.info u).cond = false) := by
  by_cases hu : u = t
  · subst hu
    constructor
    · intro ha
      have hb := ha.2.1
      rw [State.goto_phase, Function.update_self] at hb
      cases hb
    · rintro ⟨hw, _⟩
      rw [hc] at hw
      cases hw
  · unfold Asleep
    rw [State.goto_ctl, State.goto_phase, State.goto_info, Function.update_of_ne hu,
      Function.update_of_ne hu, hr.1, hr.2]

/-- **The `notify_one` of `notify` releases the front of the list, and nobody else.** -/
theorem asleep_of_notify (hs : Step (code moved) s e s') (hc : s.ctl t = .exec .notify)
    (hc' : s'.ctl t ≠ s.ctl t) :
    Asleep (code moved) s' () u ↔ Asleep (code moved) s () u ∧ (s.waiters ()).head? ≠ some u := by
  have hcode : code moved (s.ctl t) = .notifyOne () (.exec .returned) := by
    rw [hc]
    rfl
  have hnone : (code moved (s.ctl t)).waitsOn = none := by
    rw [hcode]
    rfl
  rcases hs.notifyOne_cases hcode with hsame | ⟨hnil, rfl⟩ | ⟨v, rest, hv, rfl⟩
  · exact absurd hsame hc'
  · rw [asleep_goto ⟨rfl, rfl⟩ hnone, hnil]
    constructor
    · intro ha
      exact ⟨ha, nofun⟩
    · rintro ⟨ha, _⟩
      exact ha
  · rw [asleep_goto (r := s.notifyWaiter v) ⟨rfl, rfl⟩ hnone, hv]
    constructor
    · rintro ⟨hw, hb, hn⟩
      obtain ⟨hne, hi⟩ := cond_notifyWaiter hn
      exact ⟨⟨hw, hb, hi⟩, fun he => hne (Option.some.inj he).symm⟩
    · rintro ⟨⟨hw, hb, hi⟩, hne⟩
      have huv : u ≠ v := fun he => hne (by rw [he]; rfl)
      refine ⟨hw, hb, ?_⟩
      rwa [State.notifyWaiter_info, Function.update_of_ne huv]

/-- A step leaves somebody to notify, or everybody released. -/
theorem Released.step (hs : Step (code moved) s e s') (hok : NotifyOk moved s e)
    (he : Refused (fun x => isDone x.state = true) (fun c => undone c = true) s)
    (h : Released moved s) : Released moved s' := by
  intro hd
  by_cases hbefore : isDone s.data.state = true
  · -- nobody falls asleep any more
    have hsleep : ∀ u, Asleep (code moved) s' () u → Asleep (code moved) s () u := by
      intro u ha
      cases ha.of_step hs with
      | before ha => exact ha
      | release hw hp hdata => exact absurd hbefore (he u (undone_of_waitsOn hw) (by rw [hp]; rfl))
    rcases h hbefore with ⟨t, ht⟩ | hnone
    · cases hs.moves t with
      | stays hc | inside hc => exact Or.inl ⟨t, by rwa [hc]⟩
      | jumps hj =>
          have hch := change_of_jump hj
          cases hch with
          | call hc =>
              rw [executes_of_announces ht] at hc
              cases hc
          | finishes _ _ hk => exact Or.inl ⟨t, hk⟩
          | returns hc =>
              rw [hc] at ht
              cases ht
          | runs _ _ _ _ _ ha =>
              rcases ha ht with hk | ⟨hc, hk, _⟩
              · exact Or.inl ⟨t, hk⟩
              · -- the notification: whoever slept was at the front
                have hmove : s'.ctl t ≠ s.ctl t := by
                  rw [hc, hk]
                  nofun
                have hev := hs.event_eq hmove fun ok => by
                  rw [hc]
                  nofun
                refine Or.inr fun u ha => ?_
                obtain ⟨has, hne⟩ := (asleep_of_notify hs hc hmove).mp ha
                exact hne (hok t hev hc u has)
    · exact Or.inr fun u ha => hnone u (hsleep u ha)
  · -- the done bit has just been set
    have hdata : s'.data ≠ s.data := fun hsame => hbefore (hsame ▸ hd)
    obtain ⟨t, f, _, _, hj, _⟩ := hs.jump_of_data hdata
    cases change_of_jump hj with
    | call _ _ hsame | runs _ _ hsame | returns _ _ hsame => exact absurd (hsame ▸ hd) hbefore
    | finishes _ _ hk => exact Or.inl ⟨t, hk⟩

theorem released_reachable (h : (machine moved E w).Reach (NotifyOk moved) s) :
    Released moved s := by
  refine Lib.Machine.Reach.invariant ?_ ?_ h
  · rintro s ⟨now, rfl⟩ hd
    have hno : isDone 0#8 = false := by decide
    exact absurd (hno.symm.trans hd) nofun
  · intro s e s' hr hok hs hi
    exact hi.step (step_of_next hs) hok (undone_reachable hr.reachable)

/-- The worker that notifies moves on. -/
theorem notify_moves (hc : s.ctl t = .exec .notify)
    (hs : (machine moved E w).next s (.step t) = some s') :
    s'.ctl t ≠ s.ctl t := by
  simp only [Monitor.machine, next, hc, code, execCode, cmdStep] at hs
  split at hs
  · split at hs <;> cases hs <;> simp [hc]
  · cases hs

/--
**Whom completion releases.** In a run whose `notify` finds nobody blocked un-notified but at the
front of the list, nobody is blocked un-notified once `notify` has returned, and a call of
`wait` that begins later never blocks; and the condition is exact: the `notify_one` leaves
nobody blocked un-notified if and only if nobody was, except at the front.
-/
theorem completion_releases (w : T) :
    (∀ s, (machine moved E w).Reach (NotifyOk moved) s → s.data.notified = true →
      (∀ t, ¬Asleep (code moved) s () t) ∧
      ∀ t es s', (s.ctl t).waits = none → (machine moved E w).run s es = some s' →
        (code moved (s'.ctl t)).waitsOn = none) ∧
    ∀ s s' t, s.ctl t = .exec .notify →
      (machine moved E w).next s (.step t) = some s' →
      ((∀ u, ¬Asleep (code moved) s' () u) ↔ NotifyOk moved s (.step t)) := by
  refine ⟨fun s h hn => ?_, fun s s' t hc hs => ?_⟩
  · have he := executed_reachable h.reachable
    have hd := he.done hn
    refine ⟨?_, fun t es s' ht hr => ?_⟩
    · rcases released_reachable h hd with ⟨u, hu⟩ | hnone
      · have hno := (he.one u (executes_of_announces hu)).2
        rw [hn] at hno
        cases hno
      · exact hnone
    · refine not_undone_run es hd ?_ hr
      unfold undone refused
      rw [ht]
  · have hmove := notify_moves hc hs
    have hst : Step (code moved) s (.step t) s' := step_of_next hs
    constructor
    · intro hnone t' he _ u ha
      cases he
      by_contra hne
      exact hnone u ((asleep_of_notify hst hc hmove).mpr ⟨ha, hne⟩)
    · intro hok u ha
      obtain ⟨has, hne⟩ := (asleep_of_notify hst hc hmove).mp ha
      exact hne (hok t rfl hc u has)

/-- One worker waits, and is released. -/
theorem completion_releases_run :
    ∃ s, (machine zeroed Nat (0 : Fin 2)).Reach (NotifyOk zeroed) s ∧
      s.data.notified = true ∧ (code zeroed (s.ctl 1)).waitsOn = some () ∧
      ¬Asleep (code zeroed) s () 1 := by
  have hok : ∀ (s : State (Fin 2) Unit Unit (Data Nat Nat) (Ctl Nat Nat))
      (e : Event (Fin 2) (Ctl Nat Nat)),
      decide (∀ u, Asleep (code zeroed) s () u → (s.waiters ()).head? = some u) = true →
        NotifyOk zeroed s e :=
    fun s e hall _ _ _ => of_decide_eq_true hall
  obtain ⟨s, hr, hp⟩ := Lib.Machine.exists_reach_of_run (M := machine zeroed Nat (0 : Fin 2))
    (fun s _ => decide (∀ u, Asleep (code zeroed) s () u → (s.waiters ()).head? = some u))
    (fun s => decide (s.data.notified = true ∧ (code zeroed (s.ctl 1)).waitsOn = some ()))
    hok (.init ⟨0, rfl⟩)
    (List.flatten [
      [.choose 1 (.wait .enter)], List.replicate 6 (.step 1),
      [.choose 0 (.exec (.store (.ok 7)))], List.replicate 6 (.step 0)])
    (by decide +kernel) (by decide +kernel)
  obtain ⟨hn, hw⟩ := of_decide_eq_true hp
  exact ⟨s, hr, hn, hw, ((completion_releases 0).1 s hr hn).1 1⟩

/-- Two workers wait, and one of them still sleeps after `notify` has returned. -/
theorem waiter_left_behind : ∃ s, (machine zeroed Nat (0 : Fin 3)).Reachable s ∧
    s.data.notified = true ∧ Asleep (code zeroed) s () 2 := by
  obtain ⟨s, hr, hp⟩ := Lib.Machine.exists_of_run (M := machine zeroed Nat (0 : Fin 3))
    (p := fun s => decide (s.data.notified = true ∧ Asleep (code zeroed) s () 2)) (.init ⟨0, rfl⟩)
    (List.flatten [
      [.choose 1 (.wait .enter)], List.replicate 6 (.step 1),
      [.choose 2 (.wait .enter)], List.replicate 6 (.step 2),
      [.choose 0 (.exec (.store (.ok 7)))], List.replicate 6 (.step 0)])
    (by decide +kernel)
  exact ⟨s, hr, of_decide_eq_true hp⟩

end Ums.Task
