import Ums.Monitor.Steps
import Mathlib.Data.List.Infix

/-!
# The waiters lists and the mutexes

Two facts about every program. `Listed`: a worker is linked into the list of the
condition variable it waits on, once, and into no other, exactly between its
`add_waiter` and its `remove_waiter`; while `notify_all` holds `m_waiters_lock`, what
it has yet to notify is the end of the list.

`Guarded`: where a program can say at each control point which mutexes are held
there, the holder of a mutex is the worker at such a point, unless it is inside
`wait_internal` between its unlock and its lock.
-/

namespace Ums.Monitor

variable {T μ γ δ κ : Type} [DecidableEq T] [DecidableEq μ] [DecidableEq γ]
  {code : κ → Cmd μ γ δ κ} {s s' : State T μ γ δ κ}

/-! ## Commands and their phases -/

/-- A worker can be in this phase of the command. -/
def Cmd.fits : Cmd μ γ δ κ → Phase T → Bool
  | _, .start => true
  | .wait .., .linked | .wait .., .armed | .wait .., .released | .wait .., .parked
  | .wait .., .resumed | .wait .., .relocked => true
  | .sleep .., .dozing | .sleep .., .asleep => true
  | .notifyAll .., .scanning _ => true
  | _, _ => false

/-- The condition variable whose list a worker in this phase is linked into. -/
def Cmd.linkedOn : Cmd μ γ δ κ → Phase T → Option γ
  | .wait .., .start => none
  | .wait v .., _ => some v
  | _, _ => none

/-- The condition variable whose waiters a worker in this phase notifies, with those to come. -/
def Cmd.scans : Cmd μ γ δ κ → Phase T → Option (γ × List T)
  | .notifyAll v _, .scanning rest => some (v, rest)
  | _, _ => none

/-- A worker in this phase has let go of the mutex it waits with. -/
def Cmd.away : Cmd μ γ δ κ → Phase T → μ → Bool
  | .wait _ m' _ _, .released, m | .wait _ m' _ _, .parked, m | .wait _ m' _ _, .resumed, m =>
    decide (m = m')
  | _, _, _ => false

section

omit [DecidableEq T] [DecidableEq γ]

omit [DecidableEq μ] in
@[simp] theorem Cmd.linkedOn_start (c : Cmd μ γ δ κ) : c.linkedOn (.start : Phase T) = none := by
  cases c <;> rfl

omit [DecidableEq μ] in
@[simp] theorem Cmd.scans_start (c : Cmd μ γ δ κ) : c.scans (.start : Phase T) = none := by
  cases c <;> rfl

omit [DecidableEq μ] in
@[simp] theorem Cmd.fits_start (c : Cmd μ γ δ κ) : c.fits (.start : Phase T) = true := by
  cases c <;> rfl

@[simp] theorem Cmd.away_start (c : Cmd μ γ δ κ) (m : μ) :
    c.away (.start : Phase T) m = false := by
  cases c <;> rfl

/-- Only `wait` lets go of a mutex inside a command. -/
theorem Cmd.away_eq_false {c : Cmd μ γ δ κ} (h : ∀ v m d k, c ≠ .wait v m d k) (p : Phase T)
    (m : μ) : c.away p m = false := by
  cases c with
  | wait v m' d k => exact absurd rfl (h v m' d k)
  | _ => rfl

end

/-! ## The waiters lists -/

/-- Who is in which list, and who is going through it. -/
structure Listed (code : κ → Cmd μ γ δ κ) (s : State T μ γ δ κ) : Prop where
  /-- A worker is in a phase of the command it executes. -/
  fits : ∀ t, (code (s.ctl t)).fits (s.phase t) = true
  /-- Nobody is twice in a list. -/
  nodup : ∀ v, (s.waiters v).Nodup
  /-- A list has the workers that wait on its condition variable. -/
  mem : ∀ v t, t ∈ s.waiters v ↔ (code (s.ctl t)).linkedOn (s.phase t) = some v
  /-- `m_waiters_lock` is held by the one worker inside the loop of `notify_all`. -/
  scan : ∀ v t, s.scanner v = some t ↔ ∃ rest, (code (s.ctl t)).scans (s.phase t) = some (v, rest)
  /-- Who is yet to be notified is the end of the list. -/
  rest : ∀ v t rest, (code (s.ctl t)).scans (s.phase t) = some (v, rest) → rest <:+ s.waiters v

section

omit [DecidableEq μ]

omit [DecidableEq T] [DecidableEq γ] in
/-- Nobody enters or leaves a list, and nobody begins or ends to go through one. -/
theorem Listed.same (h : Listed code s) (hw : s'.waiters = s.waiters)
    (hc : s'.scanner = s.scanner) (hf : ∀ u, (code (s'.ctl u)).fits (s'.phase u) = true)
    (hl : ∀ u, (code (s'.ctl u)).linkedOn (s'.phase u) = (code (s.ctl u)).linkedOn (s.phase u))
    (hn : ∀ u, (code (s'.ctl u)).scans (s'.phase u) = (code (s.ctl u)).scans (s.phase u)) :
    Listed code s' where
  fits := hf
  nodup := by rw [hw]; exact h.nodup
  mem v t := by rw [hw, hl]; exact h.mem v t
  scan v t := by rw [hc, hn]; exact h.scan v t
  rest v t rest hr := by rw [hw]; exact h.rest v t rest (by rwa [hn] at hr)

omit [DecidableEq γ] in
/-- The worker that moves is alone in what it changes. -/
theorem Listed.own (h : Listed code s) {t : T} (hw : s'.waiters = s.waiters)
    (hc : s'.scanner = s.scanner) (hctl : ∀ u, u ≠ t → s'.ctl u = s.ctl u)
    (hph : ∀ u, u ≠ t → s'.phase u = s.phase u)
    (hf : (code (s'.ctl t)).fits (s'.phase t) = true)
    (hl : (code (s'.ctl t)).linkedOn (s'.phase t) = (code (s.ctl t)).linkedOn (s.phase t))
    (hn : (code (s'.ctl t)).scans (s'.phase t) = (code (s.ctl t)).scans (s.phase t)) :
    Listed code s' := by
  refine h.same hw hc (fun u => ?_) (fun u => ?_) (fun u => ?_)
  · by_cases hu : u = t
    · rw [hu]; exact hf
    · rw [hctl u hu, hph u hu]; exact h.fits u
  · by_cases hu : u = t
    · rw [hu]; exact hl
    · rw [hctl u hu, hph u hu]
  · by_cases hu : u = t
    · rw [hu]; exact hn
    · rw [hctl u hu, hph u hu]

omit [DecidableEq γ] in
/-- A worker outside of a list and of `notify_all` goes on at another control point. -/
theorem Listed.goto {r : State T μ γ δ κ} {t : T} {k : κ} (h : Listed code s)
    (hr : r.ctl = s.ctl ∧ r.phase = s.phase ∧ r.waiters = s.waiters ∧ r.scanner = s.scanner)
    (hl : (code (s.ctl t)).linkedOn (s.phase t) = none)
    (hn : (code (s.ctl t)).scans (s.phase t) = none) : Listed code (r.goto t k) := by
  obtain ⟨h1, h2, h3, h4⟩ := hr
  refine h.own (t := t) h3 h4 (fun u hu => ?_) (fun u hu => ?_) ?_ ?_ ?_
  · rw [State.goto_ctl, Function.update_of_ne hu, h1]
  · rw [State.goto_phase, Function.update_of_ne hu, h2]
  · rw [State.goto_phase, Function.update_self, Cmd.fits_start]
  · rw [State.goto_phase, Function.update_self, Cmd.linkedOn_start, hl]
  · rw [State.goto_phase, Function.update_self, Cmd.scans_start, hn]

omit [DecidableEq γ] in
/-- A worker goes on inside its command. -/
theorem Listed.setPhase {r : State T μ γ δ κ} {t : T} {p : Phase T} (h : Listed code s)
    (hr : r.ctl = s.ctl ∧ r.phase = s.phase ∧ r.waiters = s.waiters ∧ r.scanner = s.scanner)
    (hf : (code (s.ctl t)).fits p = true)
    (hl : (code (s.ctl t)).linkedOn p = (code (s.ctl t)).linkedOn (s.phase t))
    (hn : (code (s.ctl t)).scans p = (code (s.ctl t)).scans (s.phase t)) :
    Listed code (r.setPhase t p) := by
  obtain ⟨h1, h2, h3, h4⟩ := hr
  refine h.own (t := t) h3 h4 (fun u hu => ?_) (fun u hu => ?_) ?_ ?_ ?_
  · rw [State.setPhase_ctl, h1]
  · rw [State.setPhase_phase, Function.update_of_ne hu, h2]
  · rw [State.setPhase_phase, Function.update_self, State.setPhase_ctl, h1, hf]
  · rw [State.setPhase_phase, Function.update_self, State.setPhase_ctl, h1, hl]
  · rw [State.setPhase_phase, Function.update_self, State.setPhase_ctl, h1, hn]

omit [DecidableEq T] [DecidableEq γ] in
/-- A command that is one statement leaves no phase but its beginning. -/
theorem Listed.at_start (h : Listed code s) {t : T} {c : Cmd μ γ δ κ} (hc : code (s.ctl t) = c)
    (hs : ∀ p : Phase T, c.fits p = true → p = .start) : s.phase t = .start :=
  hs _ (hc ▸ h.fits t)

/-- **`add_waiter`.** -/
theorem Listed.link {t : T} {v : γ} {m : μ} {d : Time} {k : κ} (h : Listed code s)
    (hc : code (s.ctl t) = .wait v m d k) (hp : s.phase t = .start) (hf : s.scanner v = none) :
    Listed code ((s.setWaiters v (s.waiters v ++ [t])).setPhase t .linked) where
  fits u := by
    by_cases hu : u = t
    · subst hu; simp [hc, Cmd.fits]
    · simpa [hu] using h.fits u
  nodup v' := by
    by_cases hv : v' = v
    · subst hv
      -- a thread that begins to wait is on no list
      have hnot : t ∉ s.waiters v' := by
        rw [h.mem, hp, Cmd.linkedOn_start]
        simp
      simp only [State.setPhase_waiters, State.setWaiters_waiters, Function.update_self]
      exact List.nodup_append.mpr ⟨h.nodup v', by simp, fun a ha b hb => by
        rw [List.mem_singleton.mp hb]
        rintro rfl
        exact hnot ha⟩
    · simpa [hv] using h.nodup v'
  mem v' u := by
    have hm := h.mem v' u
    by_cases hu : u = t
    · subst hu
      rw [hp, Cmd.linkedOn_start] at hm
      by_cases hv : v' = v
      · subst hv; simp [hc, Cmd.linkedOn]
      · have hnot : u ∉ s.waiters v' := fun hx => by simpa using hm.mp hx
        simp [hc, Cmd.linkedOn, hv, hnot, Ne.symm hv]
    · by_cases hv : v' = v
      · subst hv; simpa [hu] using hm
      · simpa [hu, hv] using hm
  scan v' u := by
    have hm := h.scan v' u
    by_cases hu : u = t
    · subst hu
      rw [hp, Cmd.scans_start] at hm
      simpa [hc, Cmd.scans] using hm
    · simpa [hu] using hm
  rest v' u rest hr := by
    by_cases hu : u = t
    · subst hu
      simp [hc, Cmd.scans] at hr
    · have hr' : (code (s.ctl u)).scans (s.phase u) = some (v', rest) := by simpa [hu] using hr
      -- `m_waiters_lock` is free, so nobody scans `v`
      have hne : v' ≠ v := by
        rintro rfl
        have := (h.scan v' u).mpr ⟨rest, hr'⟩
        rw [hf] at this
        cases this
      simpa [hne] using h.rest v' u rest hr'

/-- **`remove_waiter`.** -/
theorem Listed.unlink {t : T} {v : γ} {m : μ} {d : Time} {k : κ} (h : Listed code s)
    (hc : code (s.ctl t) = .wait v m d k) (hp : s.phase t = .relocked) (hf : s.scanner v = none) :
    Listed code ((s.setWaiters v ((s.waiters v).erase t)).goto t k) where
  fits u := by
    by_cases hu : u = t
    · subst hu; simp
    · simpa [hu] using h.fits u
  nodup v' := by
    by_cases hv : v' = v
    · subst hv
      simpa using (h.nodup v').erase t
    · simpa [hv] using h.nodup v'
  mem v' u := by
    have hm := h.mem v' u
    by_cases hu : u = t
    · subst hu
      rw [hp, hc] at hm
      by_cases hv : v' = v
      · subst hv
        simpa using (h.nodup v').not_mem_erase
      · have hnot : u ∉ s.waiters v' := fun hx => by
          simp [Cmd.linkedOn] at hm
          exact hv (hm.mp hx).symm
        simp [hv, hnot]
    · by_cases hv : v' = v
      · subst hv
        simpa [hu, List.mem_erase_of_ne hu] using hm
      · simpa [hu, hv] using hm
  scan v' u := by
    have hm := h.scan v' u
    by_cases hu : u = t
    · subst hu
      rw [hp, hc] at hm
      simpa [Cmd.scans] using hm
    · simpa [hu] using hm
  rest v' u rest hr := by
    by_cases hu : u = t
    · subst hu
      simp at hr
    · have hr' : (code (s.ctl u)).scans (s.phase u) = some (v', rest) := by simpa [hu] using hr
      -- `m_waiters_lock` is free, so nobody scans `v`
      have hne : v' ≠ v := by
        rintro rfl
        have := (h.scan v' u).mpr ⟨rest, hr'⟩
        rw [hf] at this
        cases this
      simpa [hne] using h.rest v' u rest hr'

/-- `notify_all` takes `m_waiters_lock`. -/
theorem Listed.scanStart {t : T} {v : γ} {k : κ} (h : Listed code s)
    (hc : code (s.ctl t) = .notifyAll v k) (hp : s.phase t = .start) (hf : s.scanner v = none) :
    Listed code ((s.setScanner v (some t)).setPhase t (.scanning (s.waiters v))) where
  fits u := by
    by_cases hu : u = t
    · subst hu; simp [hc, Cmd.fits]
    · simpa [hu] using h.fits u
  nodup := h.nodup
  mem v' u := by
    have hm := h.mem v' u
    by_cases hu : u = t
    · subst hu
      rw [hp, Cmd.linkedOn_start] at hm
      simpa [hc, Cmd.linkedOn] using hm
    · simpa [hu] using hm
  scan v' u := by
    have hm := h.scan v' u
    by_cases hu : u = t
    · subst hu
      rw [hp, Cmd.scans_start] at hm
      by_cases hv : v' = v
      · subst hv; simp [hc, Cmd.scans]
      · simpa [hc, Cmd.scans, hv, Ne.symm hv] using hm
    · by_cases hv : v' = v
      · subst hv
        rw [hf] at hm
        simpa [hu, Ne.symm hu] using hm
      · simpa [hu, hv] using hm
  rest v' u rest hr := by
    by_cases hu : u = t
    · subst hu
      simp only [State.setPhase_ctl, State.setScanner_ctl, hc, State.setPhase_phase,
        Function.update_self, Cmd.scans, Option.some.injEq, Prod.mk.injEq] at hr
      obtain ⟨rfl, rfl⟩ := hr
      exact List.suffix_rfl
    · exact h.rest v' u rest (by simpa [hu] using hr)

omit [DecidableEq γ] in
/-- `notify_all` notifies one more worker. -/
theorem Listed.scanOne {t u : T} {v : γ} {k : κ} {rest : List T} (h : Listed code s)
    (hc : code (s.ctl t) = .notifyAll v k) (hp : s.phase t = .scanning (u :: rest)) :
    Listed code ((s.notifyWaiter u).setPhase t (.scanning rest)) where
  fits w := by
    by_cases hw : w = t
    · subst hw; simp [hc, Cmd.fits]
    · simpa [hw] using h.fits w
  nodup := h.nodup
  mem v' w := by
    have hm := h.mem v' w
    by_cases hw : w = t
    · subst hw
      rw [hp, hc] at hm
      simpa [hc, Cmd.linkedOn] using hm
    · simpa [hw] using hm
  scan v' w := by
    have hm := h.scan v' w
    by_cases hw : w = t
    · subst hw
      rw [hp, hc] at hm
      simpa [hc, Cmd.scans] using hm
    · simpa [hw] using hm
  rest v' w l hr := by
    by_cases hw : w = t
    · subst hw
      simp only [State.setPhase_ctl, State.notifyWaiter_ctl, hc, State.setPhase_phase,
        Function.update_self, Cmd.scans, Option.some.injEq, Prod.mk.injEq] at hr
      obtain ⟨rfl, rfl⟩ := hr
      have hold := h.rest v w (u :: rest) (by rw [hc, hp, Cmd.scans])
      exact (List.suffix_cons u rest).trans hold
    · exact h.rest v' w l (by simpa [hw] using hr)

/-- `notify_all` is through with the list. -/
theorem Listed.scanEnd {t : T} {v : γ} {k : κ} (h : Listed code s)
    (hc : code (s.ctl t) = .notifyAll v k) (hp : s.phase t = .scanning []) :
    Listed code ((s.setScanner v none).goto t k) where
  fits u := by
    by_cases hu : u = t
    · subst hu; simp
    · simpa [hu] using h.fits u
  nodup := h.nodup
  mem v' u := by
    have hm := h.mem v' u
    by_cases hu : u = t
    · subst hu
      rw [hp, hc] at hm
      have hnot : u ∉ s.waiters v' := by simpa [Cmd.linkedOn] using hm
      simp [hnot]
    · simpa [hu] using hm
  scan v' u := by
    have hm := h.scan v' u
    have hmine : s.scanner v = some t := (h.scan v t).mpr ⟨[], by rw [hc, hp, Cmd.scans]⟩
    by_cases hu : u = t
    · subst hu
      rw [hp, hc] at hm
      by_cases hv : v' = v
      · subst hv; simp
      · simpa [Cmd.scans, hv, Ne.symm hv] using hm
    · by_cases hv : v' = v
      · subst hv
        rw [hmine] at hm
        simpa [hu, Ne.symm hu] using hm
      · simpa [hu, hv] using hm
  rest v' u l hr := by
    by_cases hu : u = t
    · subst hu
      simp at hr
    · exact h.rest v' u l (by simpa [hu] using hr)

end

theorem listed_step {e : Event T κ} (hs : Step code s e s') (h : Listed code s) :
    Listed code s' := by
  -- a command that neither waits nor scans begins and ends in phase `start`
  have hgo : ∀ {r : State T μ γ δ κ} {t : T} {k : κ} {c : Cmd μ γ δ κ}, code (s.ctl t) = c →
      (∀ p : Phase T, c.fits p = true → p = .start) →
      (r.ctl = s.ctl ∧ r.phase = s.phase ∧ r.waiters = s.waiters ∧ r.scanner = s.scanner) →
      Listed code (r.goto t k) := by
    intro r t k c hc hp hr
    have hst := h.at_start hc hp
    exact h.goto hr (by rw [hst, Cmd.linkedOn_start]) (by rw [hst, Cmd.scans_start])
  cases hs with
  | choose hc => exact hgo hc (fun p => by cases p <;> simp [Cmd.fits]) ⟨rfl, rfl, rfl, rfl⟩
  | act hc =>
      exact hgo (r := { s with data := _ }) hc (fun p => by cases p <;> simp [Cmd.fits])
        ⟨rfl, rfl, rfl, rfl⟩
  | lock hc | tryYes hc =>
      exact hgo (r := s.setOwner _ _) hc (fun p => by cases p <;> simp [Cmd.fits])
        ⟨rfl, rfl, rfl, rfl⟩
  | unlock hc =>
      exact hgo (r := s.setOwner _ _) hc (fun p => by cases p <;> simp [Cmd.fits])
        ⟨rfl, rfl, rfl, rfl⟩
  | tryNo hc | notifyNone hc =>
      exact hgo hc (fun p => by cases p <;> simp [Cmd.fits]) ⟨rfl, rfl, rfl, rfl⟩
  | notifyOne hc =>
      exact hgo (r := s.notifyWaiter _) hc (fun p => by cases p <;> simp [Cmd.fits])
        ⟨rfl, rfl, rfl, rfl⟩
  | link hc hp hf => exact h.link hc hp hf
  | arm hc hp =>
      exact h.setPhase (r := s.setWaitInfo _ _ _) ⟨rfl, rfl, rfl, rfl⟩ (by rw [hc]; rfl)
        (by rw [hc, hp]; rfl) (by rw [hc, hp]; rfl)
  | release hc hp =>
      exact h.setPhase (r := s.setOwner _ _) ⟨rfl, rfl, rfl, rfl⟩ (by rw [hc]; rfl)
        (by rw [hc, hp]; rfl) (by rw [hc, hp]; rfl)
  | park hc hp =>
      exact h.setPhase ⟨rfl, rfl, rfl, rfl⟩ (by rw [hc]; rfl) (by rw [hc, hp]; rfl)
        (by rw [hc, hp]; rfl)
  | resume hc hp =>
      refine h.setPhase ⟨rfl, rfl, rfl, rfl⟩ (by rw [hc]; rfl) ?_ ?_
      · rcases hp with hp | hp <;> rw [hc, hp] <;> rfl
      · rcases hp with hp | hp <;> rw [hc, hp] <;> rfl
  | relock hc hp =>
      exact h.setPhase (r := s.setOwner _ _) ⟨rfl, rfl, rfl, rfl⟩ (by rw [hc]; rfl)
        (by rw [hc, hp]; rfl) (by rw [hc, hp]; rfl)
  | unlink hc hp hf => exact h.unlink hc hp hf
  | doze hc hp =>
      exact h.setPhase (r := s.setWaitInfo _ _ _) ⟨rfl, rfl, rfl, rfl⟩ (by rw [hc]; rfl)
        (by rw [hc, hp]; rfl) (by rw [hc, hp]; rfl)
  | fallAsleep hc hp =>
      exact h.setPhase ⟨rfl, rfl, rfl, rfl⟩ (by rw [hc]; rfl) (by rw [hc, hp]; rfl)
        (by rw [hc, hp]; rfl)
  | awake hc hp =>
      refine h.goto ⟨rfl, rfl, rfl, rfl⟩ ?_ ?_
      · rcases hp with hp | hp <;> rw [hc, hp] <;> rfl
      · rcases hp with hp | hp <;> rw [hc, hp] <;> rfl
  | scan hc hp hf => exact h.scanStart hc hp hf
  | scanOne hc hp => exact h.scanOne hc hp
  | scanEnd hc hp => exact h.scanEnd hc hp
  | tick => exact ⟨h.fits, h.nodup, h.mem, h.scan, h.rest⟩

omit [DecidableEq T] [DecidableEq μ] [DecidableEq γ] in
theorem listed_start (ctl : T → κ) (data : δ) (now : Time) :
    Listed code (State.start ctl data now : State T μ γ δ κ) where
  fits t := Cmd.fits_start _
  nodup v := List.nodup_nil
  mem v t := by simp [State.start]
  scan v t := by simp [State.start]
  rest v t rest hr := by simp [State.start] at hr

theorem listed_reachable {ctl : T → κ} {data : δ} (h : (machine code ctl data).Reachable s) :
    Listed code s := by
  refine Lib.Machine.Reach.invariant ?_ ?_ h
  · rintro s ⟨now, rfl⟩
    exact listed_start ctl data now
  · intro s e s' _ _ hs hl
    exact listed_step (step_of_next hs) hl

/-! ## The mutexes -/

/-- A command begun with the mutexes `h` ends with those that `holds` says are held after it. -/
def Cmd.Keeps (holds : κ → μ → Bool) (h : μ → Bool) : Cmd μ γ δ κ → Prop
  | .choose ok => ∀ k, ok k = true → holds k = h
  | .act f => ∀ now x, holds (f now x).2 = h
  | .lock m k => holds k = Function.update h m true
  | .tryLock m yes no => holds yes = Function.update h m true ∧ holds no = h
  | .unlock m k => h m = true ∧ holds k = Function.update h m false
  | .wait _ m _ k => h m = true ∧ holds k = h
  | .sleep _ k | .notifyOne _ k | .notifyAll _ k => holds k = h

/-- `holds` says of each control point which mutexes are held there. -/
def Disciplined (code : κ → Cmd μ γ δ κ) (holds : κ → μ → Bool) : Prop :=
  ∀ c, (code c).Keeps holds (holds c)

variable {holds : κ → μ → Bool}

/-- A worker holds a mutex now. -/
def Holding (code : κ → Cmd μ γ δ κ) (holds : κ → μ → Bool) (s : State T μ γ δ κ) (t : T) (m : μ) :
    Bool :=
  holds (s.ctl t) m && !(code (s.ctl t)).away (s.phase t) m

/-- The holder of a mutex is the worker that holds it. -/
def Guarded (code : κ → Cmd μ γ δ κ) (holds : κ → μ → Bool) (s : State T μ γ δ κ) : Prop :=
  ∀ m t, s.owner m = some t ↔ Holding code holds s t m = true

section

omit [DecidableEq γ]

omit [DecidableEq T] in
theorem Guarded.keep (h : Guarded code holds s) (ho : s'.owner = s.owner)
    (hh : ∀ u m, Holding code holds s' u m = Holding code holds s u m) :
    Guarded code holds s' := by
  intro m t
  rw [ho, hh]
  exact h m t

/-- A worker takes a free mutex. -/
theorem Guarded.take {t : T} {m : μ} (h : Guarded code holds s) (hn : s.owner m = none)
    (ho : s'.owner = Function.update s.owner m (some t))
    (ht : Holding code holds s' t m = true)
    (hh : ∀ u m', u ≠ t ∨ m' ≠ m → Holding code holds s' u m' = Holding code holds s u m') :
    Guarded code holds s' := by
  intro m' u
  rw [ho]
  by_cases hm : m' = m
  · subst hm
    rw [Function.update_self]
    by_cases hu : u = t
    · subst hu; simp [ht]
    · rw [hh u m' (Or.inl hu), ← h m' u, hn]
      simp [Ne.symm hu]
  · rw [Function.update_of_ne hm, hh u m' (Or.inr hm)]
    exact h m' u

/-- The holder of a mutex lets it go. -/
theorem Guarded.drop {t : T} {m : μ} (h : Guarded code holds s)
    (hb : Holding code holds s t m = true) (ho : s'.owner = Function.update s.owner m none)
    (ht : Holding code holds s' t m = false)
    (hh : ∀ u m', u ≠ t ∨ m' ≠ m → Holding code holds s' u m' = Holding code holds s u m') :
    Guarded code holds s' := by
  intro m' u
  rw [ho]
  by_cases hm : m' = m
  · subst hm
    rw [Function.update_self]
    by_cases hu : u = t
    · subst hu; simp [ht]
    · have hmine : s.owner m' = some t := (h m' t).mpr hb
      rw [hh u m' (Or.inl hu), ← h m' u, hmine]
      simp [Ne.symm hu]
  · rw [Function.update_of_ne hm, hh u m' (Or.inr hm)]
    exact h m' u

/-- Only the worker that moves holds other mutexes than before. -/
theorem holding_goto {r : State T μ γ δ κ} {t u : T} {k : κ} {m : μ} (hr : r.ctl = s.ctl)
    (hp : r.phase = s.phase) :
    Holding code holds (r.goto t k) u m =
      if u = t then holds k m else Holding code holds s u m := by
  by_cases hu : u = t
  · subst hu; simp [Holding]
  · simp [Holding, hu, hr, hp]

theorem holding_setPhase {r : State T μ γ δ κ} {t u : T} {p : Phase T} {m : μ}
    (hr : r.ctl = s.ctl) (hp : r.phase = s.phase) :
    Holding code holds (r.setPhase t p) u m =
      if u = t then holds (s.ctl t) m && !(code (s.ctl t)).away p m
      else Holding code holds s u m := by
  by_cases hu : u = t
  · subst hu; simp [Holding, hr]
  · simp [Holding, hu, hr, hp]

omit [DecidableEq T] in
/-- At the beginning of a command, and in every phase of one that is not `wait`, a worker holds what
its control point says. -/
theorem holding_of_away {t : T} {m : μ} (h : (code (s.ctl t)).away (s.phase t) m = false) :
    Holding code holds s t m = holds (s.ctl t) m := by
  simp [Holding, h]

/-- Mutexes stay as they are when a worker goes on where it holds the same ones. -/
theorem Guarded.goto {r : State T μ γ δ κ} {t : T} {k : κ} (h : Guarded code holds s)
    (hr : r.ctl = s.ctl ∧ r.phase = s.phase ∧ r.owner = s.owner)
    (hk : holds k = holds (s.ctl t)) (ha : ∀ m, (code (s.ctl t)).away (s.phase t) m = false) :
    Guarded code holds (r.goto t k) := by
  refine h.keep hr.2.2 fun u m => ?_
  rw [holding_goto hr.1 hr.2.1]
  split
  · rename_i hu
    rw [hu, holding_of_away (ha m), hk]
  · rfl

theorem Guarded.setPhase {r : State T μ γ δ κ} {t : T} {p : Phase T} (h : Guarded code holds s)
    (hr : r.ctl = s.ctl ∧ r.phase = s.phase ∧ r.owner = s.owner)
    (ha : ∀ m, (code (s.ctl t)).away p m = (code (s.ctl t)).away (s.phase t) m) :
    Guarded code holds (r.setPhase t p) := by
  refine h.keep hr.2.2 fun u m => ?_
  rw [holding_setPhase hr.1 hr.2.1]
  split
  · rename_i hu
    rw [hu, ha, Holding]
  · rfl

/-- The other mutexes, and the mutexes of the other workers, are held as before. -/
theorem holding_goto_other {r : State T μ γ δ κ} {t u : T} {k : κ} {m m' : μ}
    (hr : r.ctl = s.ctl ∧ r.phase = s.phase) (hu : u ≠ t ∨ m' ≠ m)
    (hk : m' ≠ m → holds k m' = Holding code holds s t m') :
    Holding code holds (r.goto t k) u m' = Holding code holds s u m' := by
  rw [holding_goto hr.1 hr.2]
  split
  · rename_i he
    subst he
    exact hk (hu.resolve_left fun hne => hne rfl)
  · rfl

theorem holding_setPhase_other {r : State T μ γ δ κ} {t u : T} {p : Phase T} {m m' : μ}
    (hr : r.ctl = s.ctl ∧ r.phase = s.phase) (hu : u ≠ t ∨ m' ≠ m)
    (hp : m' ≠ m →
      (code (s.ctl t)).away p m' = (code (s.ctl t)).away (s.phase t) m') :
    Holding code holds (r.setPhase t p) u m' = Holding code holds s u m' := by
  rw [holding_setPhase hr.1 hr.2]
  split
  · rename_i he
    subst he
    rw [hp (hu.resolve_left fun hne => hne rfl), Holding]
  · rfl

/-- A worker takes a free mutex and goes on. -/
theorem Guarded.lock {t : T} {m : μ} {k : κ} (h : Guarded code holds s) (hn : s.owner m = none)
    (hk : holds k = Function.update (holds (s.ctl t)) m true)
    (ha : ∀ m, (code (s.ctl t)).away (s.phase t) m = false) :
    Guarded code holds ((s.setOwner m (some t)).goto t k) := by
  refine h.take hn rfl ?_ fun u m' hu => ?_
  · rw [holding_goto (r := s.setOwner m (some t)) (s := s) rfl rfl, if_pos rfl, hk,
      Function.update_self]
  · refine holding_goto_other (r := s.setOwner m (some t)) ⟨rfl, rfl⟩ hu fun hm => ?_
    rw [holding_of_away (ha m'), hk, Function.update_of_ne hm]

/-- A worker gives a mutex back and goes on. -/
theorem Guarded.unlock {t : T} {m : μ} {k : κ} (h : Guarded code holds s)
    (hb : holds (s.ctl t) m = true) (hk : holds k = Function.update (holds (s.ctl t)) m false)
    (ha : ∀ m, (code (s.ctl t)).away (s.phase t) m = false) :
    Guarded code holds ((s.setOwner m none).goto t k) := by
  refine h.drop (t := t) (by rw [holding_of_away (ha m), hb]) rfl ?_ fun u m' hu => ?_
  · rw [holding_goto (r := s.setOwner m none) (s := s) rfl rfl, if_pos rfl, hk,
      Function.update_self]
  · refine holding_goto_other (r := s.setOwner m none) ⟨rfl, rfl⟩ hu fun hm => ?_
    rw [holding_of_away (ha m'), hk, Function.update_of_ne hm]

/-- A waiter lets go of its mutex. -/
theorem Guarded.release {t : T} {v : γ} {m : μ} {d : Time} {k : κ} (h : Guarded code holds s)
    (hc : code (s.ctl t) = .wait v m d k) (hp : s.phase t = .armed)
    (hb : holds (s.ctl t) m = true) :
    Guarded code holds ((s.setOwner m none).setPhase t .released) := by
  have ha : (code (s.ctl t)).away (s.phase t) m = false := by
    rw [hc, hp]
    rfl
  refine h.drop (t := t) (by rw [holding_of_away ha, hb]) rfl ?_ fun u m' hu => ?_
  · rw [holding_setPhase (r := s.setOwner m none) (s := s) rfl rfl, if_pos rfl, hc]
    simp [Cmd.away]
  · refine holding_setPhase_other (r := s.setOwner m none) ⟨rfl, rfl⟩ hu fun hm => ?_
    rw [hc, hp]
    simp [Cmd.away, hm]

/-- It takes it back. -/
theorem Guarded.relock {t : T} {v : γ} {m : μ} {d : Time} {k : κ} (h : Guarded code holds s)
    (hc : code (s.ctl t) = .wait v m d k) (hp : s.phase t = .resumed)
    (hb : holds (s.ctl t) m = true) (ho : s.owner m = none) :
    Guarded code holds ((s.setOwner m (some t)).setPhase t .relocked) := by
  refine h.take (t := t) ho rfl ?_ fun u m' hu => ?_
  · rw [holding_setPhase (r := s.setOwner m (some t)) (s := s) rfl rfl, if_pos rfl, hc, hb]
    rfl
  · refine holding_setPhase_other (r := s.setOwner m (some t)) ⟨rfl, rfl⟩ hu fun hm => ?_
    rw [hc, hp]
    simp [Cmd.away, hm]

theorem Disciplined.keeps {c : κ} {cmd : Cmd μ γ δ κ} (hd : Disciplined code holds)
    (hc : code c = cmd) : cmd.Keeps holds (holds c) := hc ▸ hd c

end

theorem guarded_step {e : Event T κ} (hd : Disciplined code holds) (hs : Step code s e s')
    (h : Guarded code holds s) : Guarded code holds s' := by
  have haway : ∀ {t : T} {c : Cmd μ γ δ κ}, code (s.ctl t) = c →
      (∀ v m d k, c ≠ .wait v m d k) → ∀ m, (code (s.ctl t)).away (s.phase t) m = false := by
    intro t c hc hn
    rw [hc]
    exact Cmd.away_eq_false hn _
  cases hs with
  | @choose t k ok hc hk =>
      exact h.goto ⟨rfl, rfl, rfl⟩ (hd.keeps hc k hk) (haway hc (by simp))
  | @act t f hc =>
      exact h.goto (r := { s with data := _ }) ⟨rfl, rfl, rfl⟩ (hd.keeps hc _ _)
        (haway hc (by simp))
  | lock hc ho => exact h.lock ho (hd.keeps hc) (haway hc (by simp))
  | tryYes hc ho => exact h.lock ho (hd.keeps hc).1 (haway hc (by simp))
  | tryNo hc ho => exact h.goto ⟨rfl, rfl, rfl⟩ (hd.keeps hc).2 (haway hc (by simp))
  | unlock hc => exact h.unlock (hd.keeps hc).1 (hd.keeps hc).2 (haway hc (by simp))
  -- only these two phases of a wait let go of the mutex or take it
  | release hc hp => exact h.release hc hp (hd.keeps hc).1
  | relock hc hp ho => exact h.relock hc hp (hd.keeps hc).1 ho
  | link hc hp =>
      exact h.setPhase (r := s.setWaiters _ _) ⟨rfl, rfl, rfl⟩ fun m => by rw [hc, hp]; rfl
  | arm hc hp | doze hc hp =>
      exact h.setPhase (r := s.setWaitInfo _ _ _) ⟨rfl, rfl, rfl⟩ fun m => by rw [hc, hp]; rfl
  | park hc hp | fallAsleep hc hp =>
      exact h.setPhase ⟨rfl, rfl, rfl⟩ fun m => by rw [hc, hp]; rfl
  | resume hc hp =>
      refine h.setPhase ⟨rfl, rfl, rfl⟩ fun m => ?_
      rcases hp with hp | hp <;> rw [hc, hp] <;> rfl
  | unlink hc hp =>
      exact h.goto (r := s.setWaiters _ _) ⟨rfl, rfl, rfl⟩ (hd.keeps hc).2
        fun m => by rw [hc, hp]; rfl
  | awake hc hp =>
      refine h.goto ⟨rfl, rfl, rfl⟩ (hd.keeps hc) fun m => ?_
      rcases hp with hp | hp <;> rw [hc, hp] <;> rfl
  | notifyNone hc => exact h.goto ⟨rfl, rfl, rfl⟩ (hd.keeps hc) (haway hc (by simp))
  | notifyOne hc =>
      exact h.goto (r := s.notifyWaiter _) ⟨rfl, rfl, rfl⟩ (hd.keeps hc) (haway hc (by simp))
  | scan hc hp =>
      exact h.setPhase (r := s.setScanner _ _) ⟨rfl, rfl, rfl⟩ fun m => by rw [hc, hp]; rfl
  | scanOne hc hp =>
      exact h.setPhase (r := s.notifyWaiter _) ⟨rfl, rfl, rfl⟩ fun m => by rw [hc, hp]; rfl
  | scanEnd hc hp =>
      exact h.goto (r := s.setScanner _ none) ⟨rfl, rfl, rfl⟩ (hd.keeps hc)
        fun m => by rw [hc, hp]; rfl
  | tick => exact h.keep rfl fun _ _ => rfl

/-- **A mutex is held by the worker whose control point says so**, where nobody starts with
one. -/
theorem guarded_reachable {ctl : T → κ} {data : δ} (hd : Disciplined code holds)
    (h0 : ∀ t m, holds (ctl t) m = false) (h : (machine code ctl data).Reachable s) :
    Guarded code holds s := by
  refine Lib.Machine.Reach.invariant ?_ ?_ h
  · rintro s ⟨now, rfl⟩ m t
    simp [State.start, Holding, h0]
  · intro s e s' _ _ hs hg
    exact guarded_step hd (step_of_next hs) hg

omit [DecidableEq T] [DecidableEq γ] in
/-- Two workers never hold one mutex. -/
theorem Guarded.unique {t u : T} {m : μ} (h : Guarded code holds s)
    (ht : Holding code holds s t m = true) (hu : Holding code holds s u m = true) : t = u := by
  have h1 := (h m t).mpr ht
  rw [(h m u).mpr hu] at h1
  exact (Option.some.inj h1).symm

end Ums.Monitor
