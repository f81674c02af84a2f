import Ums.Monitor.Wake

/-!
# Somebody always owes the next wakeup

Workers wait on `v` until something is free. Whoever frees it owes a notification,
and pays it after it has let go of the mutex; whoever is notified will test again,
with the mutex, and either takes what is free or finds that it is taken. So as long
as somebody is asleep and something is free, there is a worker that owes a
notification, or one that is about to test.

`Relay` lists what a program has to do for this to be so. A notification goes to one
worker (`owes`) or to all (`owesAll`). Where one notification is enough only as long
as little is free, `tight` says so.
-/

namespace Ums.Monitor

open Lib

variable {T μ γ δ κ : Type} [DecidableEq T] [DecidableEq μ] [DecidableEq γ]

/-- The control points of a program, by what they do for the sleepers on `v`. -/
structure Roles (δ κ : Type) where
  /-- There is something to take. -/
  free : δ → Prop
  /-- There is so little that one notification is enough. -/
  tight : δ → Prop
  /-- The worker is about to notify one waiter. -/
  owes : κ → Prop
  /-- The worker is about to notify all waiters. -/
  owesAll : κ → Prop
  /-- The worker has the mutex, and tests what is free or takes it. -/
  enters : κ → Prop
  /-- The worker has found that nothing is free, and is about to wait. -/
  refused : κ → Prop

/-- The test before a wait and the change that makes it true exclude each other. -/
structure Tests (code : κ → Cmd μ γ δ κ) (holds : κ → μ → Bool) (m : μ) (known : κ → δ → Prop)
    (free : δ → Prop) (refused : κ → Prop) : Prop where
  /-- A worker is refused with the mutex. -/
  refusedHolds : ∀ c, refused c → holds c m = true
  /-- Only a worker that finds nothing free is refused. -/
  refuses : ∀ {now c x k y}, Jump code now c x k y → known c x → refused k →
    (refused c ∧ (∃ f, code c = .act f) ∧ y = x) ∨ ¬free y
  /-- Something becomes free with the mutex. -/
  guarded : ∀ {now c x k y}, Jump code now c x k y → known c x → free y → ¬free x →
    holds c m = true

/-- What the statements of a program do for the sleepers on `v`, given what their worker knows. -/
structure Relay (code : κ → Cmd μ γ δ κ) (holds : κ → μ → Bool) (v : γ) (m : μ)
    (known : κ → δ → Prop) (r : Roles δ κ) : Prop
    extends Tests code holds m known r.free r.refused where
  /-- All wait with the same mutex, after a refusal, and test afterwards. -/
  waits : ∀ c m' d k, code c = .wait v m' d k → m' = m ∧ r.refused c ∧ r.enters k
  /-- Whoever frees something owes a notification, or tests. -/
  frees : ∀ {now c x k y}, Jump code now c x k y → known c x → r.free y → ¬r.free x →
    (r.tight y ∧ (r.owes k ∨ r.enters k)) ∨ r.owesAll k
  /-- A notification is owed until it is sent. -/
  owed : ∀ {now c x k y}, Jump code now c x k y → r.owes c →
    r.owes k ∨ code c = .notifyOne v k
  /-- The same for all waiters. -/
  owedAll : ∀ {now c x k y}, Jump code now c x k y → r.owesAll c →
    r.owesAll k ∨ code c = .notifyAll v k
  /-- Whoever tests takes what is left. -/
  takes : ∀ {now c x k y}, Jump code now c x k y → known c x → r.tight x → r.enters c → r.free y →
    r.enters k

variable {code : κ → Cmd μ γ δ κ} {holds : κ → μ → Bool} {v : γ} {m : μ} {known : κ → δ → Prop}
  {r : Roles δ κ} {s s' : State T μ γ δ κ} {e : Event T κ} {t u : T}

/-- Somebody is going to notify all waiters, and has yet to come to this one. -/
def OwedAll (code : κ → Cmd μ γ δ κ) (r : Roles δ κ) (v : γ) (s : State T μ γ δ κ) (t : T) : Prop :=
  ∃ u, r.owesAll (s.ctl u) ∧
    ∀ rest, (code (s.ctl u)).scans (s.phase u) = some (v, rest) → t ∈ rest

/-- Somebody is going to notify one waiter, or has been notified, or tests. -/
def Covered (code : κ → Cmd μ γ δ κ) (r : Roles δ κ) (v : γ) (s : State T μ γ δ κ) (t : T) : Prop :=
  (∃ u, r.owes (s.ctl u)) ∨ (∃ u, r.enters (s.ctl u)) ∨ ∃ u, u ≠ t ∧ Roused code s v u

/-- Nobody sleeps beside something that is free without a wakeup on its way. -/
def Relayed (code : κ → Cmd μ γ δ κ) (r : Roles δ κ) (v : γ) (s : State T μ γ δ κ) : Prop :=
  ∀ t, Asleep code s v t → r.free s.data →
    OwedAll code r v s t ∨ (r.tight s.data ∧ Covered code r v s t)

/-- Whoever is about to wait has been refused for good. -/
def Refused (free : δ → Prop) (refused : κ → Prop) (s : State T μ γ δ κ) : Prop :=
  ∀ t, refused (s.ctl t) → (s.phase t).enters = true → ¬free s.data

/-! ## A worker that is refused -/

section

variable {free : δ → Prop} {refused : κ → Prop}

omit [DecidableEq T] [DecidableEq γ] in
/-- A worker that is about to wait has the mutex. -/
theorem Tests.holding (hT : Tests code holds m known free refused) (hl : Listed code s)
    (h : refused (s.ctl t)) (hp : (s.phase t).enters = true) : Holding code holds s t m = true := by
  rw [holding_of_away, hT.refusedHolds _ h]
  have hf := hl.fits t
  cases hc : code (s.ctl t) <;> cases hph : s.phase t <;> rw [hph] at hp <;>
    first | rfl | cases hp

/-- Nobody frees anything while another worker is about to wait. -/
theorem Refused.step (hT : Tests code holds m known free refused) (hs : Step code s e s')
    (hl : Listed code s) (hg : Guarded code holds s) (hk : ∀ u, known (s.ctl u) s.data)
    (h : Refused free refused s) : Refused free refused s' := by
  intro t ht hp
  by_cases hd : s'.data = s.data
  · -- the same data: `t` was refused before, or is refused now and nothing is free
    rw [hd]
    cases hs.moves t with
    | stays hc hp' =>
        rw [hc] at ht
        rw [hp'] at hp
        exact h t ht hp
    | inside hc _ hp' =>
        rw [hc] at ht
        exact h t ht (hp' hp)
    | jumps hj =>
        rcases hT.refuses hj (hk t) ht with ⟨hr, ⟨f, hf⟩, _⟩ | hno
        · have hst := hl.at_start hf fun p hp => by cases p <;> first | rfl | cases hp
          exact h t hr (by rw [hst]; rfl)
        · rwa [← hd]
  · obtain ⟨u, f, _, hf, hj, hst, hother⟩ := hs.jump_of_data hd
    intro hfree
    by_cases hut : t = u
    · subst hut
      rcases hT.refuses hj (hk t) ht with ⟨_, _, hy⟩ | hno
      · exact hd hy
      · exact hno hfree
    · -- both would have the mutex
      obtain ⟨hctl, hph⟩ := hother t hut
      rw [hctl] at ht
      rw [hph] at hp
      have hno := h t ht hp
      have hu : Holding code holds s u m = true := by
        rw [holding_of_away, hT.guarded hj (hk u) hfree hno]
        rw [hf]
        rfl
      exact hut (hg.unique (hT.holding hl ht hp) hu)

theorem refused_reachable {ctl : T → κ} {data : δ} (hT : Tests code holds m known free refused)
    (hd : Disciplined code holds) (h0 : ∀ t m, holds (ctl t) m = false)
    (hk : ∀ s, (machine code ctl data).Reachable s → ∀ t, known (s.ctl t) s.data)
    (h : (machine code ctl data).Reachable s) : Refused free refused s := by
  refine Machine.Reach.invariant ?_ ?_ h
  · rintro s ⟨now, rfl⟩ t ht _
    have hh := hT.refusedHolds _ ht
    rw [State.start, h0] at hh
    cases hh
  · intro s e s' hr _ hs hi
    exact hi.step hT (step_of_next hs) (listed_reachable hr) (guarded_reachable hd h0 hr) (hk s hr)

end

/-! ## A notification for all -/

omit [DecidableEq μ] [DecidableEq γ] in
/-- A worker that begins another command goes through no list. -/
theorem scans_goto {q : State T μ γ δ κ} {k : κ} {rest : List T}
    (hq : q.ctl = s.ctl ∧ q.phase = s.phase)
    (h : (code ((q.goto t k).ctl u)).scans ((q.goto t k).phase u) = some (v, rest)) :
    (code (s.ctl u)).scans (s.phase u) = some (v, rest) := by
  by_cases hu : u = t
  · subst hu
    rw [State.goto_phase, Function.update_self, Cmd.scans_start] at h
    cases h
  · rwa [State.goto_ctl, State.goto_phase, Function.update_of_ne hu, Function.update_of_ne hu,
      hq.1, hq.2] at h

omit [DecidableEq μ] [DecidableEq γ] in
/-- Neither does one that goes on inside another command than `notify_all`. -/
theorem scans_setPhase {q : State T μ γ δ κ} {p : Phase T} {rest : List T}
    (hq : q.ctl = s.ctl ∧ q.phase = s.phase) (hp : (code (s.ctl t)).scans p = none)
    (h : (code ((q.setPhase t p).ctl u)).scans ((q.setPhase t p).phase u) = some (v, rest)) :
    (code (s.ctl u)).scans (s.phase u) = some (v, rest) := by
  rw [State.setPhase_ctl, hq.1] at h
  by_cases hu : u = t
  · subst hu
    rw [State.setPhase_phase, Function.update_self, hp] at h
    cases h
  · rwa [State.setPhase_phase, Function.update_of_ne hu, hq.2] at h

/-- **Whoever goes through a list comes to every sleeper in it.** -/
theorem scans_step (hs : Step code s e s') (hl : Listed code s) (ha : Asleep code s v t)
    (hn : (s'.info t).cond = false) {rest : List T}
    (h : (code (s'.ctl u)).scans (s'.phase u) = some (v, rest))
    (hold : ∀ l, (code (s.ctl u)).scans (s.phase u) = some (v, l) → t ∈ l) : t ∈ rest := by
  cases hs with
  | choose | tryNo | awake | notifyNone => exact hold _ (scans_goto (q := s) ⟨rfl, rfl⟩ h)
  | @act _ f =>
      exact hold _ (scans_goto (q := { s with data := (f s.now s.data).1 }) ⟨rfl, rfl⟩ h)
  | lock | tryYes | unlock => exact hold _ (scans_goto (q := s.setOwner _ _) ⟨rfl, rfl⟩ h)
  | unlink => exact hold _ (scans_goto (q := s.setWaiters _ _) ⟨rfl, rfl⟩ h)
  | scanEnd => exact hold _ (scans_goto (q := s.setScanner _ _) ⟨rfl, rfl⟩ h)
  | notifyOne => exact hold _ (scans_goto (q := s.notifyWaiter _) ⟨rfl, rfl⟩ h)
  | link hc =>
      exact hold _ (scans_setPhase (q := s.setWaiters _ _) ⟨rfl, rfl⟩ (by rw [hc]; rfl) h)
  | arm hc | doze hc =>
      exact hold _ (scans_setPhase (q := s.setWaitInfo _ _ _) ⟨rfl, rfl⟩ (by rw [hc]; rfl) h)
  | release hc | relock hc =>
      exact hold _ (scans_setPhase (q := s.setOwner _ _) ⟨rfl, rfl⟩ (by rw [hc]; rfl) h)
  | park hc | resume hc | fallAsleep hc =>
      exact hold _ (scans_setPhase (q := s) ⟨rfl, rfl⟩ (by rw [hc]; rfl) h)
  | @scan q v' k hc hp =>
      by_cases hu : u = q
      · subst hu
        simp only [State.setPhase_ctl, State.setScanner_ctl, hc, State.setPhase_phase,
          Function.update_self, Cmd.scans, Option.some.injEq, Prod.mk.injEq] at h
        obtain ⟨rfl, rfl⟩ := h
        exact ha.mem hl
      · exact hold _ (by simpa [hu] using h)
  | @scanOne q v' k w l hc hp =>
      by_cases hu : u = q
      · subst hu
        simp only [State.setPhase_ctl, State.notifyWaiter_ctl, hc, State.setPhase_phase,
          Function.update_self, Cmd.scans, Option.some.injEq, Prod.mk.injEq] at h
        obtain ⟨rfl, rfl⟩ := h
        -- the first of the list is notified, and `t` is not
        have hm := hold (w :: l) (by rw [hc, hp]; rfl)
        rw [State.setPhase_info] at hn
        exact (List.mem_cons.mp hm).resolve_left (cond_notifyWaiter hn).1
      · exact hold _ (by simpa [hu] using h)
  | tick => exact hold _ h

/-- A `notify_all` that is over has come to everybody. -/
theorem Step.notifyAll_cases {k : κ} (hs : Step code s e s')
    (hc : code (s.ctl t) = .notifyAll v k) :
    s'.ctl t = s.ctl t ∨ (code (s.ctl t)).scans (s.phase t) = some (v, []) := by
  cases hs with
  | @scanEnd q v' k' hc' hp =>
      by_cases hq : t = q
      · subst hq
        rw [hc] at hc'
        cases hc'
        rw [hc, hp]
        exact Or.inr rfl
      · exact Or.inl (by simp [hq])
  | @choose q _ _ hc' | @act q _ hc' | @lock q _ _ hc' | @tryYes q _ _ _ hc' | @tryNo q _ _ _ hc'
  | @unlock q _ _ hc' | @unlink q _ _ _ _ hc' | @awake q _ _ hc' | @notifyNone q _ _ hc'
  | @notifyOne q _ _ _ _ hc' =>
      have hq : t ≠ q := fun he => by
        rw [← he, hc] at hc'
        cases hc'
      exact Or.inl (by simp [hq])
  | _ => exact Or.inl rfl

theorem OwedAll.step (hR : Relay code holds v m known r) (hs : Step code s e s')
    (hl : Listed code s) (ha : Asleep code s v t) (ha' : Asleep code s' v t)
    (h : OwedAll code r v s t) : OwedAll code r v s' t := by
  obtain ⟨u, hu, hrest⟩ := h
  have hctl : r.owesAll (s'.ctl u) := by
    cases hs.moves u with
    | stays hc => rwa [hc]
    | inside hc => rwa [hc]
    | jumps hj =>
        rcases hR.owedAll hj hu with hk | hc
        · exact hk
        · -- the list is empty only when it has come to `t`
          rcases hs.notifyAll_cases hc with hsame | hend
          · rwa [hsame]
          · cases hrest [] hend
  exact ⟨u, hctl, fun rest h => scans_step hs hl ha ha'.2.2 h hrest⟩

/-! ## A notification for one -/

theorem Covered.step (hR : Relay code holds v m known r) (hs : Step code s e s')
    (hl : Listed code s) (hn : Newest code s v) (hk : ∀ u, known (s.ctl u) s.data)
    (ht : r.tight s.data) (hf : r.free s'.data) (ha : Asleep code s v t)
    (ha' : Asleep code s' v t) (h : Covered code r v s t) : Covered code r v s' t := by
  rcases h with ⟨u, hu⟩ | ⟨u, hu⟩ | ⟨u, hne, hu⟩
  · cases hs.moves u with
    | stays hc => exact Or.inl ⟨u, by rwa [hc]⟩
    | inside hc => exact Or.inl ⟨u, by rwa [hc]⟩
    | jumps hj =>
        rcases hR.owed hj hu with ho | hc
        · exact Or.inl ⟨u, ho⟩
        · rcases hs.notifyOne_cases hc with hsame | ⟨hnil, _⟩ | ⟨w, rest, hw, hs'⟩
          · exact Or.inl ⟨u, by rwa [hsame]⟩
          · -- the list is not empty while `t` sleeps
            have hm := ha.mem hl
            rw [hnil] at hm
            cases hm
          · -- the notification rouses the front of the list
            obtain ⟨hwait, hph⟩ := roused_front hl hn ha hw
            rw [hs'] at ha' ⊢
            have hwt : w ≠ t := fun he => (cond_notifyWaiter ha'.2.2).1 he.symm
            have hwu : w ≠ u := by
              rintro rfl
              rw [hc] at hwait
              cases hwait
            refine Or.inr (Or.inr ⟨w, hwt, ?_, ?_⟩)
            · simpa [hwu] using hwait
            · simp only [State.goto_phase, State.notifyWaiter_phase, Function.update_of_ne hwu]
              exact hph.imp (fun hb => ⟨hb, by simp [checkWaitInfo]⟩) id
  · -- what a testing worker leaves free is not tight, so it takes it or tests on
    refine Or.inr (Or.inl ⟨u, ?_⟩)
    cases hs.moves u with
    | stays hc => rwa [hc]
    | inside hc => rwa [hc]
    | jumps hj => exact hR.takes hj (hk u) ht hu hf
  · -- whoever was roused tests when its wait returns
    cases hu.of_step hs with
    | still hu' => exact Or.inr (Or.inr ⟨u, hne, hu'⟩)
    | returns hc hctl => exact Or.inr (Or.inl ⟨u, hctl ▸ (hR.waits _ _ _ _ hc).2.2⟩)

/-! ## The invariant -/

/-- **Every step leaves somebody to wake the sleepers**, if it does not free more than is tight. -/
theorem Relayed.step (hR : Relay code holds v m known r) (hs : Step code s e s')
    (hl : Listed code s) (hrefused : Refused r.free r.refused s) (hn : Newest code s v)
    (hk : ∀ u, known (s.ctl u) s.data)
    (htight : r.free s.data → r.tight s.data → r.free s'.data →
      r.tight s'.data ∨ ∀ t, Asleep code s v t → OwedAll code r v s t)
    (h : Relayed code r v s) : Relayed code r v s' := by
  intro t ha' hf
  cases ha'.of_step hs with
  | release hw hp hd =>
      -- it falls asleep after a refusal, with the mutex until now
      obtain ⟨m', d, k, hc⟩ := Cmd.waitsOn_eq_some hw
      rw [hd] at hf
      exact absurd hf (hrefused t (hR.waits _ _ _ _ hc).2.1 (by rw [hp]; rfl))
  | before ha hctl =>
      by_cases hfree : r.free s.data
      · rcases h t ha hfree with hall | ⟨ht, hcov⟩
        · exact Or.inl (hall.step hR hs hl ha ha')
        · rcases htight hfree ht hf with ht' | hall
          · exact Or.inr ⟨ht', hcov.step hR hs hl hn hk ht hf ha ha'⟩
          · exact Or.inl ((hall t ha).step hR hs hl ha ha')
      · -- whoever frees it now has to wake somebody
        have hd : s'.data ≠ s.data := fun he => hfree (he ▸ hf)
        obtain ⟨u, f, _, hc, hj, hst, _⟩ := hs.jump_of_data hd
        rcases hR.frees hj (hk u) hf hfree with ⟨ht, ho | hen⟩ | hall
        · exact Or.inr ⟨ht, Or.inl ⟨u, ho⟩⟩
        · exact Or.inr ⟨ht, Or.inr (Or.inl ⟨u, hen⟩)⟩
        · refine Or.inl ⟨u, hall, fun rest hrest => ?_⟩
          rw [hst, Cmd.scans_start] at hrest
          cases hrest

/-- **The relay of a program.** In every run whose steps free no more than is tight, nobody sleeps
beside something that is free without a wakeup on its way. -/
theorem relayed_reachable {ctl : T → κ} {data : δ} {ok : State T μ γ δ κ → Event T κ → Prop}
    (hR : Relay code holds v m known r) (hd : Disciplined code holds)
    (h0 : ∀ t m, holds (ctl t) m = false)
    (hk : ∀ s, (machine code ctl data).Reachable s → ∀ t, known (s.ctl t) s.data)
    (htight : ∀ s e s', (machine code ctl data).Reachable s → ok s e → Step code s e s' →
      r.free s.data → r.tight s.data → r.free s'.data →
      r.tight s'.data ∨ ∀ t, Asleep code s v t → OwedAll code r v s t)
    (h : (machine code ctl data).Reach ok s) : Relayed code r v s := by
  refine Machine.Reach.invariant ?_ ?_ h
  · rintro s ⟨now, rfl⟩ t ha
    cases ha.2.1
  · intro s e s' hr hok hs hi
    have hreach := hr.reachable
    have hst := step_of_next hs
    exact hi.step hR hst (listed_reachable hreach)
      (refused_reachable hR.toTests hd h0 hk hreach)
      (newest_reachable hd h0 (fun _ _ _ _ hc => (hR.waits _ _ _ _ hc).1) hreach) (hk s hreach)
      (htight s e s' hreach hok hst)

end Ums.Monitor
