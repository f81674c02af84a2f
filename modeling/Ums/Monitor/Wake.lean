import Ums.Monitor.Discipline

/-!
# Who is asleep and who has been woken

A worker is asleep on a condition variable from the moment it lets go of the mutex
until somebody notifies it, and it is roused from the moment it is notified, or its
time has come, until it leaves `wait_internal`. Here is what a step of any program
does to the two, and why a notification is never lost: whoever is at the front of a
list in which somebody sleeps has let go of the mutex itself.
-/

namespace Ums.Monitor

variable {T μ γ δ κ : Type} [DecidableEq T] [DecidableEq μ] [DecidableEq γ]
  {code : κ → Cmd μ γ δ κ} {s s' : State T μ γ δ κ} {e : Event T κ} {t u : T} {v : γ}

/-- The condition variable a command waits on. -/
def Cmd.waitsOn : Cmd μ γ δ κ → Option γ
  | .wait v .. => some v
  | _ => none

/-- Past the unlock of the mutex: blocked, or about to find out whether it has to. -/
def Phase.blocks : Phase T → Bool
  | .released | .parked => true
  | _ => false

/-- Before the unlock of the mutex. -/
def Phase.enters : Phase T → Bool
  | .start | .linked | .armed => true
  | _ => false

/-- The worker has let go of the mutex in a wait on `v`, and nobody has notified it. -/
def Asleep (code : κ → Cmd μ γ δ κ) (s : State T μ γ δ κ) (v : γ) (t : T) : Prop :=
  (code (s.ctl t)).waitsOn = some v ∧ (s.phase t).blocks = true ∧ (s.info t).cond = false

/-- The worker was notified in a wait on `v`, or its time has come, and it has yet to return. -/
def Roused (code : κ → Cmd μ γ δ κ) (s : State T μ γ δ κ) (v : γ) (t : T) : Prop :=
  (code (s.ctl t)).waitsOn = some v ∧
    (((s.phase t).blocks = true ∧ checkWaitInfo (s.info t) s.now = true) ∨
      s.phase t = .resumed ∨ s.phase t = .relocked)

instance : Decidable (Asleep code s v t) := inferInstanceAs (Decidable (_ ∧ _ ∧ _))

instance : Decidable (Roused code s v t) := inferInstanceAs (Decidable (_ ∧ _))

section

omit [DecidableEq μ] [DecidableEq γ]

theorem Cmd.waitsOn_eq_some {c : Cmd μ γ δ κ} (h : c.waitsOn = some v) :
    ∃ m d k, c = .wait v m d k := by
  cases c with
  | wait v' m d k =>
      cases h
      exact ⟨m, d, k, rfl⟩
  | _ => cases h

omit [DecidableEq T] in
/-- A worker asleep is in the list. -/
theorem Asleep.mem (h : Asleep code s v t) (hl : Listed code s) : t ∈ s.waiters v := by
  obtain ⟨hw, hb, _⟩ := h
  obtain ⟨m, d, k, hc⟩ := Cmd.waitsOn_eq_some hw
  rw [hl.mem, hc]
  cases hp : s.phase t <;> rw [hp] at hb <;> first | rfl | cases hb

/-- A worker that was not notified has the flag it had. -/
theorem cond_notifyWaiter (h : ((s.notifyWaiter u).info t).cond = false) :
    t ≠ u ∧ (s.info t).cond = false := by
  by_cases ht : t = u
  · subst ht
    simp at h
  · rw [State.notifyWaiter_info, Function.update_of_ne ht] at h
    exact ⟨ht, h⟩

end

/-! ## What a step does to a worker -/

/-- What a worker does in a step. -/
inductive Moves (code : κ → Cmd μ γ δ κ) (s s' : State T μ γ δ κ) (t : T) : Prop
  /-- Nothing. -/
  | stays (hc : s'.ctl t = s.ctl t) (hp : s'.phase t = s.phase t)
  /-- It goes on inside its command, and does not go back before the unlock. -/
  | inside (hc : s'.ctl t = s.ctl t) (hd : s'.data = s.data)
      (hp : (s'.phase t).enters = true → (s.phase t).enters = true)
  /-- It begins another command. -/
  | jumps (hj : Jump code s.now (s.ctl t) s.data (s'.ctl t) s'.data) (hp : s'.phase t = .start)

omit [DecidableEq μ] [DecidableEq γ] in
theorem Moves.goto {r : State T μ γ δ κ} {k : κ} (hr : r.ctl = s.ctl ∧ r.phase = s.phase)
    (hj : Jump code s.now (s.ctl u) s.data k r.data) (t : T) : Moves code s (r.goto u k) t := by
  by_cases hu : t = u
  · subst hu
    refine .jumps ?_ ?_
    · rwa [State.goto_ctl, Function.update_self]
    · rw [State.goto_phase, Function.update_self]
  · refine .stays ?_ ?_
    · rw [State.goto_ctl, Function.update_of_ne hu, hr.1]
    · rw [State.goto_phase, Function.update_of_ne hu, hr.2]

omit [DecidableEq μ] [DecidableEq γ] in
theorem Moves.setPhase {r : State T μ γ δ κ} {p : Phase T}
    (hr : r.ctl = s.ctl ∧ r.phase = s.phase ∧ r.data = s.data)
    (hp : p.enters = true → (s.phase u).enters = true) (t : T) :
    Moves code s (r.setPhase u p) t := by
  by_cases hu : t = u
  · subst hu
    refine .inside ?_ hr.2.2 ?_
    · rw [State.setPhase_ctl, hr.1]
    · rw [State.setPhase_phase, Function.update_self]
      exact hp
  · refine .stays ?_ ?_
    · rw [State.setPhase_ctl, hr.1]
    · rw [State.setPhase_phase, Function.update_of_ne hu, hr.2.1]

/-- **A worker stays where it is, goes on inside its command, or jumps to another one.** -/
theorem Step.moves (hs : Step code s e s') (t : T) : Moves code s s' t := by
  cases hs with
  | choose hc hk => exact Moves.goto (s := s) ⟨rfl, rfl⟩ (.choose hc hk) t
  | @act _ f hc =>
      exact Moves.goto (s := s) (r := { s with data := (f s.now s.data).1 }) ⟨rfl, rfl⟩ (.act hc) t
  | lock hc => exact Moves.goto (s := s) (r := s.setOwner _ _) ⟨rfl, rfl⟩ (.lock hc) t
  | tryYes hc => exact Moves.goto (s := s) (r := s.setOwner _ _) ⟨rfl, rfl⟩ (.tryYes hc) t
  | tryNo hc => exact Moves.goto (s := s) ⟨rfl, rfl⟩ (.tryNo hc) t
  | unlock hc => exact Moves.goto (s := s) (r := s.setOwner _ _) ⟨rfl, rfl⟩ (.unlock hc) t
  | unlink hc => exact Moves.goto (s := s) (r := s.setWaiters _ _) ⟨rfl, rfl⟩ (.wait hc) t
  | awake hc => exact Moves.goto (s := s) ⟨rfl, rfl⟩ (.sleep hc) t
  | notifyNone hc => exact Moves.goto (s := s) ⟨rfl, rfl⟩ (.notifyOne hc) t
  | notifyOne hc => exact Moves.goto (s := s) (r := s.notifyWaiter _) ⟨rfl, rfl⟩ (.notifyOne hc) t
  | scanEnd hc => exact Moves.goto (s := s) (r := s.setScanner _ _) ⟨rfl, rfl⟩ (.notifyAll hc) t
  | link _ hp =>
      exact Moves.setPhase (s := s) (r := s.setWaiters _ _) ⟨rfl, rfl, rfl⟩
        (fun _ => by rw [hp]; rfl) t
  | arm _ hp =>
      exact Moves.setPhase (s := s) (r := s.setWaitInfo _ _ _) ⟨rfl, rfl, rfl⟩
        (fun _ => by rw [hp]; rfl) t
  | doze =>
      exact Moves.setPhase (s := s) (r := s.setWaitInfo _ _ _) ⟨rfl, rfl, rfl⟩
        (by simp [Phase.enters]) t
  | release | relock =>
      exact Moves.setPhase (s := s) (r := s.setOwner _ _) ⟨rfl, rfl, rfl⟩ (by simp [Phase.enters]) t
  | park | resume | fallAsleep =>
      exact Moves.setPhase (s := s) ⟨rfl, rfl, rfl⟩ (by simp [Phase.enters]) t
  | scan =>
      exact Moves.setPhase (s := s) (r := s.setScanner _ _) ⟨rfl, rfl, rfl⟩
        (by simp [Phase.enters]) t
  | scanOne =>
      exact Moves.setPhase (s := s) (r := s.notifyWaiter _) ⟨rfl, rfl, rfl⟩
        (by simp [Phase.enters]) t
  | tick => exact .stays rfl rfl

/-- Only a jump changes the data, and then no other worker moves. -/
theorem Step.jump_of_data (hs : Step code s e s') (hne : s'.data ≠ s.data) :
    ∃ t f, e = .step t ∧ code (s.ctl t) = .act f ∧
      Jump code s.now (s.ctl t) s.data (s'.ctl t) s'.data ∧
      s'.phase t = .start ∧ ∀ u, u ≠ t → s'.ctl u = s.ctl u ∧ s'.phase u = s.phase u := by
  cases hs with
  | @act t f hc =>
      refine ⟨t, f, rfl, hc, ?_, by simp, ?_⟩
      · rw [State.goto_ctl, Function.update_self]
        exact .act hc
      · intro u hu
        simp [hu]
  | _ => exact absurd rfl hne

/-- A worker leaves a list by its own `remove_waiter` only, while nobody goes through the list. -/
theorem Step.mem_waiters (hs : Step code s e s') (h : t ∈ s.waiters v) :
    t ∈ s'.waiters v ∨ (e = .step t ∧ s.phase t = .relocked ∧ s.scanner v = none) := by
  cases hs with
  | @link q w m d k =>
      refine Or.inl ?_
      by_cases hv : v = w
      · subst hv
        simp [h]
      · simpa [hv] using h
  | @unlink q w m d k _ hp hf =>
      by_cases hv : v = w
      · subst hv
        by_cases hq : t = q
        · subst hq
          exact Or.inr ⟨rfl, hp, hf⟩
        · exact Or.inl (by simpa using (List.mem_erase_of_ne hq).mpr h)
      · exact Or.inl (by simpa [hv] using h)
  | _ => exact Or.inl h

/-- What a worker does in a `notify_all`. -/
theorem Step.scan_cases {k : κ} (hs : Step code s e s') (hc : code (s.ctl t) = .notifyAll v k) :
    (s'.ctl t = s.ctl t ∧ s'.phase t = s.phase t) ∨
      (s'.ctl t = s.ctl t ∧ s.phase t = .start ∧ s'.phase t = .scanning (s.waiters v)) ∨
      (∃ u rest, e = .step t ∧ s'.ctl t = s.ctl t ∧ s.phase t = .scanning (u :: rest) ∧
        s'.phase t = .scanning rest) ∨
      (s.phase t = .scanning [] ∧ s'.ctl t = k) := by
  have hother : ∀ {q : T} {cmd : Cmd μ γ δ κ}, code (s.ctl q) = cmd → cmd ≠ .notifyAll v k →
      t ≠ q := by
    rintro q cmd hq hne rfl
    exact hne (hq.symm.trans hc)
  cases hs with
  | @scan q w k' hc' hp =>
      by_cases hq : t = q
      · subst hq
        rw [hc] at hc'
        cases hc'
        exact Or.inr (Or.inl ⟨rfl, hp, by simp⟩)
      · exact Or.inl (by simp [hq])
  | @scanOne q w k' u rest hc' hp =>
      by_cases hq : t = q
      · subst hq
        exact Or.inr (Or.inr (Or.inl ⟨u, rest, rfl, rfl, hp, by simp⟩))
      · exact Or.inl (by simp [hq])
  | @scanEnd q w k' hc' hp =>
      by_cases hq : t = q
      · subst hq
        rw [hc] at hc'
        cases hc'
        exact Or.inr (Or.inr (Or.inr ⟨hp, by simp⟩))
      · exact Or.inl (by simp [hq])
  | tick => exact Or.inl ⟨rfl, rfl⟩
  | choose hc' | act hc' | lock hc' | tryYes hc' | tryNo hc' | unlock hc' | link hc' | arm hc'
  | release hc' | park hc' | resume hc' | relock hc' | unlink hc' | doze hc' | fallAsleep hc'
  | awake hc' | notifyNone hc' | notifyOne hc' =>
      have hq := hother hc' nofun
      exact Or.inl (by simp [hq])

/-- A worker at a `notify_one` stays there, or it has notified the front of the list. -/
theorem Step.notifyOne_cases {k : κ} (hs : Step code s e s')
    (hc : code (s.ctl t) = .notifyOne v k) :
    s'.ctl t = s.ctl t ∨ (s.waiters v = [] ∧ s' = s.goto t k) ∨
      ∃ u rest, s.waiters v = u :: rest ∧ s' = (s.notifyWaiter u).goto t k := by
  have hgo : ∀ {r : State T μ γ δ κ} {q : T} {l : κ}, r.ctl = s.ctl →
      code (s.ctl q) ≠ .notifyOne v k → (r.goto q l).ctl t = s.ctl t := by
    intro r q l hr hq
    have hne : t ≠ q := fun he => hq (he ▸ hc)
    rw [State.goto_ctl, Function.update_of_ne hne, hr]
  cases hs with
  | choose hc' | tryNo hc' | awake hc' => exact Or.inl (hgo (r := s) rfl (by rw [hc']; simp))
  | act hc' => exact Or.inl (hgo (r := { s with data := _ }) rfl (by rw [hc']; simp))
  | lock hc' | tryYes hc' | unlock hc' =>
      exact Or.inl (hgo (r := s.setOwner _ _) rfl (by rw [hc']; simp))
  | unlink hc' => exact Or.inl (hgo (r := s.setWaiters _ _) rfl (by rw [hc']; simp))
  | scanEnd hc' => exact Or.inl (hgo (r := s.setScanner _ _) rfl (by rw [hc']; simp))
  | @notifyNone q v' k' hc' hf hl =>
      by_cases hq : t = q
      · subst hq
        rw [hc] at hc'
        cases hc'
        exact Or.inr (Or.inl ⟨hl, rfl⟩)
      · exact Or.inl (by simp [hq])
  | @notifyOne q v' k' u rest hc' hf hl =>
      by_cases hq : t = q
      · subst hq
        rw [hc] at hc'
        cases hc'
        exact Or.inr (Or.inr ⟨u, rest, hl, rfl⟩)
      · exact Or.inl (by simp [hq])
  | _ => exact Or.inl rfl

/-- Whoever is asleep after a step was asleep before, or has just let go of the mutex. -/
inductive Dozes (code : κ → Cmd μ γ δ κ) (s s' : State T μ γ δ κ) (v : γ) (t : T) : Prop
  /-- It was asleep, and it does not move. -/
  | before (h : Asleep code s v t) (hc : s'.ctl t = s.ctl t)
  /-- It unlocks the mutex. -/
  | release (hw : (code (s.ctl t)).waitsOn = some v) (hp : s.phase t = .armed)
      (hd : s'.data = s.data)

section

omit [DecidableEq μ] [DecidableEq γ]

omit [DecidableEq T] in
/-- A worker asleep whose place is the one it had. -/
theorem Dozes.same (hc : s'.ctl t = s.ctl t) (hp : s'.phase t = s.phase t)
    (hi : (s'.info t).cond = false → (s.info t).cond = false) (h : Asleep code s' v t) :
    Dozes code s s' v t := by
  obtain ⟨hw, hb, hn⟩ := h
  rw [hc] at hw
  rw [hp] at hb
  exact .before ⟨hw, hb, hi hn⟩ hc

theorem Dozes.goto {r : State T μ γ δ κ} {k : κ} (hr : r.ctl = s.ctl ∧ r.phase = s.phase)
    (hi : (r.info t).cond = false → (s.info t).cond = false)
    (h : Asleep code (r.goto u k) v t) : Dozes code s (r.goto u k) v t := by
  by_cases hu : t = u
  · subst hu
    have hb := h.2.1
    rw [State.goto_phase, Function.update_self] at hb
    cases hb
  · refine .same ?_ ?_ hi h
    · rw [State.goto_ctl, Function.update_of_ne hu, hr.1]
    · rw [State.goto_phase, Function.update_of_ne hu, hr.2]

/-- A worker goes on inside its command, and is past the unlock only if it was before. -/
theorem Dozes.setPhase {r : State T μ γ δ κ} {p : Phase T}
    (hr : r.ctl = s.ctl ∧ r.phase = s.phase)
    (hi : t ≠ u ∨ p.blocks = true → (r.info t).cond = false → (s.info t).cond = false)
    (hp : p.blocks = true → (s.phase u).blocks = true)
    (h : Asleep code (r.setPhase u p) v t) : Dozes code s (r.setPhase u p) v t := by
  by_cases hu : t = u
  · subst hu
    obtain ⟨hw, hb, hn⟩ := h
    rw [State.setPhase_phase, Function.update_self] at hb
    rw [State.setPhase_ctl, hr.1] at hw
    exact .before ⟨hw, hp hb, hi (Or.inr hb) hn⟩ (congrFun hr.1 t)
  · refine .same ?_ ?_ (hi (Or.inl hu)) h
    · rw [State.setPhase_ctl, hr.1]
    · rw [State.setPhase_phase, Function.update_of_ne hu, hr.2]

end

/-- **Nobody falls asleep but by unlocking the mutex.** -/
theorem Asleep.of_step (hs : Step code s e s') (h : Asleep code s' v t) : Dozes code s s' v t := by
  cases hs with
  | choose | tryNo | awake | notifyNone => exact Dozes.goto (r := s) ⟨rfl, rfl⟩ id h
  | @act _ f => exact Dozes.goto (r := { s with data := (f s.now s.data).1 }) ⟨rfl, rfl⟩ id h
  | lock | tryYes | unlock => exact Dozes.goto (r := s.setOwner _ _) ⟨rfl, rfl⟩ id h
  | unlink => exact Dozes.goto (r := s.setWaiters _ _) ⟨rfl, rfl⟩ id h
  | scanEnd => exact Dozes.goto (r := s.setScanner _ _) ⟨rfl, rfl⟩ id h
  | notifyOne =>
      exact Dozes.goto (r := s.notifyWaiter _) ⟨rfl, rfl⟩ (fun hn => (cond_notifyWaiter hn).2) h
  | link => exact Dozes.setPhase (r := s.setWaiters _ _) ⟨rfl, rfl⟩ (fun _ => id) nofun h
  | arm | doze =>
      refine Dozes.setPhase (r := s.setWaitInfo _ _ _) ⟨rfl, rfl⟩ (fun hu hn => ?_) nofun h
      have hne := hu.resolve_right nofun
      rwa [State.setWaitInfo_info, Function.update_of_ne hne] at hn
  | @release r _ _ _ _ hc hp =>
      by_cases hu : t = r
      · subst hu
        have hw := h.1
        exact .release hw hp rfl
      · refine Dozes.same rfl ?_ id h
        simp [hu]
  | park hc hp => exact Dozes.setPhase ⟨rfl, rfl⟩ (fun _ => id) (fun _ => by rw [hp]; rfl) h
  | resume => exact Dozes.setPhase ⟨rfl, rfl⟩ (fun _ => id) nofun h
  | fallAsleep => exact Dozes.setPhase ⟨rfl, rfl⟩ (fun _ => id) nofun h
  | relock => exact Dozes.setPhase (r := s.setOwner _ _) ⟨rfl, rfl⟩ (fun _ => id) nofun h
  | scan => exact Dozes.setPhase (r := s.setScanner _ _) ⟨rfl, rfl⟩ (fun _ => id) nofun h
  | scanOne =>
      exact Dozes.setPhase (r := s.notifyWaiter _) ⟨rfl, rfl⟩
        (fun _ hn => (cond_notifyWaiter hn).2) nofun h
  | tick => exact Dozes.same rfl rfl id h

/-- What becomes of a roused worker. -/
inductive Rises (code : κ → Cmd μ γ δ κ) (s s' : State T μ γ δ κ) (v : γ) (t : T) : Prop
  /-- It is still on its way. -/
  | still (h : Roused code s' v t)
  /-- It returns from `wait_internal`, with the mutex. -/
  | returns {m d k} (hc : code (s.ctl t) = .wait v m d k) (hk : s'.ctl t = k)
      (hd : s'.data = s.data)

section

omit [DecidableEq μ] [DecidableEq γ]

omit [DecidableEq T] in
/-- A roused worker that does not move stays roused. -/
theorem Rises.same (hc : s'.ctl t = s.ctl t) (hp : s'.phase t = s.phase t)
    (hi : checkWaitInfo (s.info t) s.now = true → checkWaitInfo (s'.info t) s'.now = true)
    (h : Roused code s v t) : Rises code s s' v t := by
  refine .still ⟨by rw [hc]; exact h.1, ?_⟩
  rw [hp]
  exact h.2.imp (fun hb => ⟨hb.1, hi hb.2⟩) id

omit [DecidableEq T] in
/-- A roused worker is inside `wait_internal`, past the unlock. -/
theorem Roused.phase (h : Roused code s v t) :
    (s.phase t).blocks = true ∨ s.phase t = .resumed ∨ s.phase t = .relocked :=
  h.2.imp (fun hb => hb.1) id

omit [DecidableEq T] in
theorem Roused.ne_start (h : Roused code s v t) : s.phase t ≠ .start := by
  intro hp
  rcases h.phase with hb | hb | hb <;> rw [hp] at hb <;> cases hb

/-- Another worker moves on. -/
theorem Rises.goto {r : State T μ γ δ κ} {k : κ} (hu : t ≠ u)
    (hr : r.ctl = s.ctl ∧ r.phase = s.phase ∧ r.now = s.now)
    (hi : checkWaitInfo (s.info t) s.now = true → checkWaitInfo (r.info t) s.now = true)
    (h : Roused code s v t) : Rises code s (r.goto u k) v t := by
  refine .same ?_ ?_ ?_ h
  · rw [State.goto_ctl, Function.update_of_ne hu, hr.1]
  · rw [State.goto_phase, Function.update_of_ne hu, hr.2.1]
  · rw [State.goto_info, State.goto_now, hr.2.2]
    exact hi

/-- A worker moves on inside its command; if it is the roused one, it is roused there. -/
theorem Rises.setPhase {r : State T μ γ δ κ} {p : Phase T}
    (hr : r.ctl = s.ctl ∧ r.phase = s.phase ∧ r.now = s.now)
    (hi : t ≠ u → checkWaitInfo (s.info t) s.now = true → checkWaitInfo (r.info t) s.now = true)
    (hp : t = u → p = .resumed ∨ p = .relocked) (h : Roused code s v t) :
    Rises code s (r.setPhase u p) v t := by
  by_cases hu : t = u
  · subst hu
    refine .still ⟨?_, Or.inr ?_⟩
    · rw [State.setPhase_ctl, hr.1]
      exact h.1
    · rw [State.setPhase_phase, Function.update_self]
      exact hp rfl
  · refine .same ?_ ?_ ?_ h
    · rw [State.setPhase_ctl, hr.1]
    · rw [State.setPhase_phase, Function.update_of_ne hu, hr.2.1]
    · rw [State.setPhase_info, State.setPhase_now, hr.2.2]
      exact hi hu

theorem checkWaitInfo_notifyWaiter (h : checkWaitInfo (s.info t) s.now = true) :
    checkWaitInfo ((s.notifyWaiter u).info t) s.now = true := by
  by_cases ht : t = u
  · subst ht
    simp [checkWaitInfo]
  · rwa [State.notifyWaiter_info, Function.update_of_ne ht]

end

theorem checkWaitInfo_mono {w : WaitInfo} {n : Time} {d : Nat} (h : checkWaitInfo w n = true) :
    checkWaitInfo w (n + d) = true := by
  simp only [checkWaitInfo, Bool.or_eq_true, decide_eq_true_eq] at h ⊢
  refine h.imp id fun hd => ?_
  have hle : (n : Int) ≤ n + d := Int.le_add_of_nonneg_right (Int.natCast_nonneg d)
  exact Int.le_trans hd hle

/-- **A roused worker stays so until it returns.** -/
theorem Roused.of_step (hs : Step code s e s') (h : Roused code s v t) : Rises code s s' v t := by
  -- a worker in another phase, or at another command, is another worker
  have hne : ∀ {r : T}, (code (s.ctl r)).waitsOn = none → t ≠ r := by
    intro r hr he
    subst he
    rw [h.1] at hr
    cases hr
  cases hs with
  | choose hc | tryNo hc | awake hc | notifyNone hc =>
      exact Rises.goto (r := s) (hne (by rw [hc]; rfl)) ⟨rfl, rfl, rfl⟩ id h
  | @act _ f hc =>
      exact Rises.goto (r := { s with data := (f s.now s.data).1 }) (hne (by rw [hc]; rfl))
        ⟨rfl, rfl, rfl⟩ id h
  | lock hc | tryYes hc | unlock hc =>
      exact Rises.goto (r := s.setOwner _ _) (hne (by rw [hc]; rfl)) ⟨rfl, rfl, rfl⟩ id h
  | scanEnd hc =>
      exact Rises.goto (r := s.setScanner _ _) (hne (by rw [hc]; rfl)) ⟨rfl, rfl, rfl⟩ id h
  | notifyOne hc =>
      exact Rises.goto (r := s.notifyWaiter _) (hne (by rw [hc]; rfl)) ⟨rfl, rfl, rfl⟩
        checkWaitInfo_notifyWaiter h
  | @unlink r _ _ _ _ hc hp =>
      by_cases hu : t = r
      · subst hu
        have hw := h.1
        rw [hc] at hw
        cases hw
        exact .returns hc (by simp) rfl
      · exact Rises.goto (r := s.setWaiters _ _) hu ⟨rfl, rfl, rfl⟩ id h
  | @link r _ _ _ _ hc hp =>
      refine Rises.setPhase (r := s.setWaiters _ _) ⟨rfl, rfl, rfl⟩ (fun _ => id) (fun hu => ?_) h
      subst hu
      exact absurd hp h.ne_start
  | @arm r _ _ _ _ hc hp =>
      refine Rises.setPhase (r := s.setWaitInfo _ _ _) ⟨rfl, rfl, rfl⟩ (fun hu hw => ?_)
        (fun hu => ?_) h
      · rwa [State.setWaitInfo_info, Function.update_of_ne hu]
      · subst hu
        rcases h.phase with hb | hb | hb <;> rw [hp] at hb <;> cases hb
  | @doze r _ _ hc =>
      have hu := hne (r := r) (by rw [hc]; rfl)
      refine Rises.setPhase (r := s.setWaitInfo _ _ _) ⟨rfl, rfl, rfl⟩ (fun _ hw => ?_)
        (fun he => absurd he hu) h
      rwa [State.setWaitInfo_info, Function.update_of_ne hu]
  | @release r _ _ _ _ hc hp =>
      refine Rises.setPhase (r := s.setOwner _ _) ⟨rfl, rfl, rfl⟩ (fun _ => id) (fun hu => ?_) h
      subst hu
      rcases h.phase with hb | hb | hb <;> rw [hp] at hb <;> cases hb
  | @park r _ _ _ _ hc hp hw =>
      refine Rises.setPhase ⟨rfl, rfl, rfl⟩ (fun _ => id) (fun hu => ?_) h
      subst hu
      rcases h.2 with hb | hb | hb
      · rw [hw] at hb
        cases hb.2
      · rw [hp] at hb
        cases hb
      · rw [hp] at hb
        cases hb
  | resume => exact Rises.setPhase ⟨rfl, rfl, rfl⟩ (fun _ => id) (fun _ => Or.inl rfl) h
  | relock =>
      exact Rises.setPhase (r := s.setOwner _ _) ⟨rfl, rfl, rfl⟩ (fun _ => id)
        (fun _ => Or.inr rfl) h
  | fallAsleep hc =>
      have hu := hne (by rw [hc]; rfl)
      exact Rises.setPhase ⟨rfl, rfl, rfl⟩ (fun _ => id) (fun he => absurd he hu) h
  | scan hc =>
      have hu := hne (by rw [hc]; rfl)
      exact Rises.setPhase (r := s.setScanner _ _) ⟨rfl, rfl, rfl⟩ (fun _ => id)
        (fun he => absurd he hu) h
  | scanOne hc =>
      have hu := hne (by rw [hc]; rfl)
      exact Rises.setPhase (r := s.notifyWaiter _) ⟨rfl, rfl, rfl⟩
        (fun _ => checkWaitInfo_notifyWaiter) (fun he => absurd he hu) h
  | tick => exact Rises.same rfl rfl checkWaitInfo_mono h

/-! ## The front of a list -/

/-- A worker that has entered the list and not let go of the mutex is the last one there. -/
def Newest (code : κ → Cmd μ γ δ κ) (s : State T μ γ δ κ) (v : γ) : Prop :=
  ∀ t, (code (s.ctl t)).waitsOn = some v → s.phase t = .linked ∨ s.phase t = .armed →
    ∃ l, s.waiters v = l ++ [t]

omit [DecidableEq μ] [DecidableEq γ] in
theorem Newest.goto {r : State T μ γ δ κ} {k : κ} (h : Newest code s v)
    (hr : r.ctl = s.ctl ∧ r.phase = s.phase ∧ r.waiters v = s.waiters v) :
    Newest code (r.goto u k) v := by
  intro t hw hp
  by_cases hu : t = u
  · subst hu
    rw [State.goto_phase, Function.update_self] at hp
    rcases hp with hp | hp <;> cases hp
  · rw [State.goto_ctl, Function.update_of_ne hu, hr.1] at hw
    rw [State.goto_phase, Function.update_of_ne hu, hr.2.1] at hp
    rw [State.goto_waiters, hr.2.2]
    exact h t hw hp

omit [DecidableEq μ] [DecidableEq γ] in
theorem Newest.setPhase {r : State T μ γ δ κ} {p : Phase T} (h : Newest code s v)
    (hr : r.ctl = s.ctl ∧ r.phase = s.phase ∧ r.waiters v = s.waiters v)
    (hp : (code (s.ctl u)).waitsOn = some v → p = .linked ∨ p = .armed →
      s.phase u = .linked ∨ s.phase u = .armed) : Newest code (r.setPhase u p) v := by
  intro t hw ht
  rw [State.setPhase_ctl, hr.1] at hw
  rw [State.setPhase_waiters, hr.2.2]
  refine h t hw ?_
  by_cases hu : t = u
  · subst hu
    rw [State.setPhase_phase, Function.update_self] at ht
    exact hp hw ht
  · rwa [State.setPhase_phase, Function.update_of_ne hu, hr.2.1] at ht

section

variable {holds : κ → μ → Bool} {m : μ}

omit [DecidableEq T] [DecidableEq γ] in
/-- A worker that waits has the mutex until it lets go of it. -/
theorem holding_enters (hd : Disciplined code holds)
    (hm : ∀ c m' d k, code c = .wait v m' d k → m' = m)
    (hw : (code (s.ctl t)).waitsOn = some v) (hp : (s.phase t).enters = true) :
    Holding code holds s t m = true := by
  obtain ⟨m', d, k, hc⟩ := Cmd.waitsOn_eq_some hw
  obtain rfl := hm _ _ _ _ hc
  rw [holding_of_away, (hd.keeps hc).1]
  rw [hc]
  cases hph : s.phase t <;> rw [hph] at hp <;> first | rfl | cases hp

theorem newest_step (hd : Disciplined code holds)
    (hm : ∀ c m' d k, code c = .wait v m' d k → m' = m) (hg : Guarded code holds s)
    (hs : Step code s e s') (h : Newest code s v) : Newest code s' v := by
  cases hs with
  | choose | tryNo | awake | notifyNone => exact h.goto (r := s) ⟨rfl, rfl, rfl⟩
  | @act _ f => exact h.goto (r := { s with data := (f s.now s.data).1 }) ⟨rfl, rfl, rfl⟩
  | lock | tryYes | unlock => exact h.goto (r := s.setOwner _ _) ⟨rfl, rfl, rfl⟩
  | scanEnd => exact h.goto (r := s.setScanner _ _) ⟨rfl, rfl, rfl⟩
  | notifyOne => exact h.goto (r := s.notifyWaiter _) ⟨rfl, rfl, rfl⟩
  | @link u v' _ _ _ hc hp =>
      by_cases hv : v' = v
      · subst hv
        intro t hw ht
        by_cases hu : t = u
        · subst hu
          exact ⟨s.waiters v', by simp⟩
        · -- the other one would have the mutex too
          simp only [State.setPhase_ctl, State.setWaiters_ctl, State.setPhase_phase,
            State.setWaiters_phase, Function.update_of_ne hu] at hw ht
          have h1 := holding_enters (s := s) hd hm hw
            (by rcases ht with ht | ht <;> rw [ht] <;> rfl)
          have h2 := holding_enters (s := s) (t := u) hd hm (by rw [hc]; rfl) (by rw [hp]; rfl)
          exact absurd (hg.unique h1 h2) hu
      · refine h.setPhase (r := s.setWaiters _ _) ⟨rfl, rfl, ?_⟩ fun hw _ => ?_
        · rw [State.setWaiters_waiters, Function.update_of_ne (Ne.symm hv)]
        · rw [hc] at hw
          exact absurd (Option.some.inj hw) hv
  | arm _ hp =>
      exact h.setPhase (r := s.setWaitInfo _ _ _) ⟨rfl, rfl, rfl⟩ fun _ _ => Or.inl hp
  | @unlink u v' _ _ _ hc hp =>
      by_cases hv : v' = v
      · subst hv
        intro t hw ht
        by_cases hu : t = u
        · subst hu
          rw [State.goto_phase, Function.update_self] at ht
          rcases ht with ht | ht <;> cases ht
        · simp only [State.goto_ctl, State.setWaiters_ctl, State.goto_phase,
            State.setWaiters_phase, Function.update_of_ne hu] at hw ht
          -- the newest waiter stays the last one when another one leaves the list
          obtain ⟨l, hl⟩ := h t hw ht
          refine ⟨l.erase u, ?_⟩
          simp only [State.goto_waiters, State.setWaiters_waiters, Function.update_self, hl]
          by_cases hm : u ∈ l
          · exact List.erase_append_left _ hm
          · rw [List.erase_append_right _ hm, List.erase_of_not_mem hm,
              List.erase_of_not_mem (by simpa using Ne.symm hu)]
      · refine h.goto (r := s.setWaiters _ _) ⟨rfl, rfl, ?_⟩
        rw [State.setWaiters_waiters, Function.update_of_ne (Ne.symm hv)]
  | release => exact h.setPhase (r := s.setOwner _ _) ⟨rfl, rfl, rfl⟩ nofun
  | park | resume | fallAsleep => exact h.setPhase ⟨rfl, rfl, rfl⟩ nofun
  | relock => exact h.setPhase (r := s.setOwner _ _) ⟨rfl, rfl, rfl⟩ nofun
  | doze => exact h.setPhase (r := s.setWaitInfo _ _ _) ⟨rfl, rfl, rfl⟩ nofun
  | scan => exact h.setPhase (r := s.setScanner _ _) ⟨rfl, rfl, rfl⟩ nofun
  | scanOne => exact h.setPhase (r := s.notifyWaiter _) ⟨rfl, rfl, rfl⟩ nofun
  | tick => exact h

theorem newest_reachable {ctl : T → κ} {data : δ} (hd : Disciplined code holds)
    (h0 : ∀ t m, holds (ctl t) m = false) (hm : ∀ c m' d k, code c = .wait v m' d k → m' = m)
    (h : (machine code ctl data).Reachable s) : Newest code s v := by
  refine Lib.Machine.Reach.invariant (I := fun s => Newest code s v) ?_ ?_ h
  · rintro s ⟨now, rfl⟩ t _ hp
    rcases hp with hp | hp <;> cases hp
  · intro s e s' hr _ hs hn
    exact newest_step hd hm (guarded_reachable hd h0 hr) (step_of_next hs) hn

omit [DecidableEq μ] [DecidableEq γ] in
/-- **A notification is not lost.** As long as somebody is asleep, the front of the list has let go
of the mutex, and so it is roused by the notification. -/
theorem roused_front (hl : Listed code s) (hn : Newest code s v) {rest : List T}
    (ha : Asleep code s v t) (hw : s.waiters v = u :: rest) :
    (code (s.ctl u)).waitsOn = some v ∧ ((s.phase u).blocks = true ∨ s.phase u = .resumed ∨
      s.phase u = .relocked) := by
  have hmem : u ∈ s.waiters v := by
    rw [hw]
    exact List.mem_cons_self
  have hlink := (hl.mem v u).mp hmem
  have hwait : (code (s.ctl u)).waitsOn = some v ∧ s.phase u ≠ .start := by
    cases hc : code (s.ctl u) with
    | wait v' m d k =>
        rw [hc] at hlink
        cases hp : s.phase u <;> rw [hp] at hlink <;> cases hlink <;> exact ⟨rfl, by simp⟩
    | _ => rw [hc] at hlink; cases hlink
  refine ⟨hwait.1, ?_⟩
  by_cases hen : s.phase u = .linked ∨ s.phase u = .armed
  · -- it would be the last one too, but the sleeper comes after it
    obtain ⟨l, hlast⟩ := hn u hwait.1 hen
    have hnd := hl.nodup v
    have hnil : l = [] := by
      rw [hw] at hlast
      cases l with
      | nil => rfl
      | cons a l =>
          rw [List.cons_append, List.cons.injEq] at hlast
          rw [hw, hlast.2] at hnd
          exact absurd (List.mem_append_right l (List.mem_singleton.mpr rfl))
            (List.nodup_cons.mp hnd).1
    have ht := ha.mem hl
    rw [hlast, hnil, List.nil_append, List.mem_singleton] at ht
    have hb := ha.2.1
    rw [ht] at hb
    rcases hen with hp | hp <;> rw [hp] at hb <;> cases hb
  · have hf := hl.fits u
    obtain ⟨m', d, k, hc⟩ := Cmd.waitsOn_eq_some hwait.1
    rw [hc] at hf
    cases hp : s.phase u <;> rw [hp] at hf hen hwait <;> simp_all [Phase.blocks, Cmd.fits]

end

end Ums.Monitor
