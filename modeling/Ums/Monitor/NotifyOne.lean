import Ums.Monitor.NotifyAll
import Ums.Monitor.Wake
import Mathlib.Data.Finset.Card

/-!
# When `notify_one` wakes somebody

`notify_one` sets the flag of the worker at the front of the list, and a worker that
was notified, or whose time has come, stays in the list until it has the mutex back.
So a call wakes a blocked waiter exactly when the front of the list is one, and the
calls of a run wake as many of them as there are calls when that is so at each call.

The waiters that were blocked when a run began are in an initial segment of the
list, since a worker enters the list at its end and holds the mutex until it is
about to block.
-/

namespace Ums.Monitor.Client

variable {T D : Type} [DecidableEq T] {s s' : State T Unit Unit (Shared D) (Client D)} {x₀ : D}
  {e : Event T (Client D)} {t u : T} {l₁ l₂ : List T}

/-- A waiter that has released the mutex, was not notified and has time left. -/
def asleep (s : State T Unit Unit (Shared D) (Client D)) (t : T) : Bool :=
  (decide (s.phase t = .released) || decide (s.phase t = .parked)) &&
    !checkWaitInfo (s.info t) s.now

/-- The waiters asleep among the given ones. -/
def sleepers (s : State T Unit Unit (Shared D) (Client D)) (l : List T) : Finset T :=
  l.toFinset.filter fun t => asleep s t = true

/-- The step is a call of `notify_one`. -/
def isCall (s : State T Unit Unit (Shared D) (Client D)) : Event T (Client D) → Bool
  | .step t =>
    match s.ctl t with
    | .notifyOne .. => true
    | _ => false
  | _ => false

/-- If anybody in the list is asleep, the front of the list is. -/
def FrontAsleep (s : State T Unit Unit (Shared D) (Client D)) : Prop :=
  (∃ t ∈ s.waiters (), asleep s t = true) → ∃ t rest, s.waiters () = t :: rest ∧ asleep s t = true

instance : Decidable (FrontAsleep s) :=
  decidable_of_iff ((∃ t ∈ s.waiters (), asleep s t = true) →
      (s.waiters ()).head?.any (asleep s) = true) <| by
    unfold FrontAsleep
    cases s.waiters () with
    | nil => simp
    | cons t rest => simp

/-- A call of `notify_one` finds the front of the list asleep. -/
def FrontOk (s : State T Unit Unit (Shared D) (Client D)) (e : Event T (Client D)) : Prop :=
  isCall s e = true → FrontAsleep s

instance : Decidable (FrontOk s e) :=
  inferInstanceAs (Decidable (isCall s e = true → FrontAsleep s))

theorem asleep_iff : asleep s t = true ↔
    Blocking (s.phase t) ∧ (s.info t).cond = false ∧ s.now < (s.info t).sleepTimePoint := by
  simp [asleep, Blocking, checkWaitInfo]

theorem mem_of_asleep (hl : Listed code s) (h : asleep s t = true) : t ∈ s.waiters () :=
  Listed.waiting hl (asleep_iff.mp h).1

/-! ## Who falls asleep -/

/-- About to unlock the mutex, or before. -/
def Entering (p : Phase T) : Prop := p = .linked ∨ p = .armed

/-- A worker whose phase is unchanged does not fall asleep. -/
theorem asleep_of_phase (r : State T Unit Unit (Shared D) (Client D)) (hp : r.phase t = s.phase t)
    (hi : (r.info t).cond = false → r.info t = s.info t) (hn : s.now ≤ r.now)
    (h : asleep r t = true) : asleep s t = true := by
  obtain ⟨hb, hc, hd⟩ := asleep_iff.mp h
  have hinfo := hi hc
  rw [hinfo] at hc hd
  rw [hp] at hb
  exact asleep_iff.mpr ⟨hb, hc, Int.lt_of_le_of_lt hn hd⟩

theorem asleep_of_goto {r : State T Unit Unit (Shared D) (Client D)} {k : Client D}
    (hr : r.phase = s.phase ∧ r.now = s.now)
    (hi : (r.info t).cond = false → r.info t = s.info t) (h : asleep (r.goto u k) t = true) :
    asleep s t = true := by
  by_cases hu : t = u
  · subst hu
    have hb := (asleep_iff.mp h).1
    rw [State.goto_phase, Function.update_self] at hb
    rcases hb with hb | hb <;> cases hb
  · refine asleep_of_phase (r.goto u k) ?_ hi (Int.le_of_eq hr.2.symm) h
    rw [State.goto_phase, Function.update_of_ne hu, hr.1]

theorem asleep_of_setPhase {r : State T Unit Unit (Shared D) (Client D)} {p : Phase T}
    (hr : r.phase = s.phase ∧ r.now = s.now)
    (hi : t ≠ u ∨ Blocking p → (r.info t).cond = false → r.info t = s.info t)
    (hp : Blocking p → Blocking (s.phase u) ∨ s.phase u = .armed)
    (h : asleep (r.setPhase u p) t = true) : asleep s t = true ∨ s.phase t = .armed := by
  by_cases hu : t = u
  · subst hu
    obtain ⟨hb, hc, hd⟩ := asleep_iff.mp h
    rw [State.setPhase_phase, Function.update_self] at hb
    refine (hp hb).imp (fun hb' => ?_) id
    have hinfo := hi (Or.inr hb) hc
    simp only [State.setPhase_info, State.setPhase_now, hr.2, hinfo] at hc hd
    exact asleep_iff.mpr ⟨hb', hc, hd⟩
  · refine Or.inl (asleep_of_phase (r.setPhase u p) ?_ (hi (Or.inl hu))
      (Int.le_of_eq hr.2.symm) h)
    rw [State.setPhase_phase, Function.update_of_ne hu, hr.1]

theorem notifyWaiter_info (h : ((s.notifyWaiter u).info t).cond = false) :
    (s.notifyWaiter u).info t = s.info t := by
  obtain ⟨hne, _⟩ := notifyWaiter_cond h
  rw [State.notifyWaiter_info, Function.update_of_ne hne]

theorem setWaitInfo_info {d : Time} (h : t ≠ u) :
    (s.setWaitInfo u false d).info t = s.info t := by
  rw [State.setWaitInfo_info, Function.update_of_ne h]

/-- **Nobody falls asleep but by unlocking the mutex.** -/
theorem asleep_of_step (hs : Step code s e s') (h : asleep s' t = true) :
    asleep s t = true ∨ s.phase t = .armed := by
  cases hs with
  | choose | tryNo | awake | notifyNone =>
      exact Or.inl (asleep_of_goto (r := s) ⟨rfl, rfl⟩ (fun _ => rfl) h)
  | @act _ f =>
      exact Or.inl (asleep_of_goto (r := { s with data := (f s.now s.data).1 }) ⟨rfl, rfl⟩
        (fun _ => rfl) h)
  | lock | tryYes | unlock =>
      exact Or.inl (asleep_of_goto (r := s.setOwner _ _) ⟨rfl, rfl⟩ (fun _ => rfl) h)
  | unlink => exact Or.inl (asleep_of_goto (r := s.setWaiters _ _) ⟨rfl, rfl⟩ (fun _ => rfl) h)
  | scanEnd => exact Or.inl (asleep_of_goto (r := s.setScanner _ _) ⟨rfl, rfl⟩ (fun _ => rfl) h)
  | notifyOne =>
      exact Or.inl (asleep_of_goto (r := s.notifyWaiter _) ⟨rfl, rfl⟩ notifyWaiter_info h)
  | link =>
      exact asleep_of_setPhase (r := s.setWaiters _ _) ⟨rfl, rfl⟩ (fun _ _ => rfl)
        (by simp [Blocking]) h
  | arm | doze =>
      refine asleep_of_setPhase (r := s.setWaitInfo _ _ _) ⟨rfl, rfl⟩ (fun hn _ => ?_)
        (by simp [Blocking]) h
      exact setWaitInfo_info (hn.resolve_right (by simp [Blocking]))
  | release hc hp =>
      exact asleep_of_setPhase (r := s.setOwner _ _) ⟨rfl, rfl⟩ (fun _ _ => rfl)
        (fun _ => Or.inr hp) h
  | park hc hp =>
      exact asleep_of_setPhase (r := s) ⟨rfl, rfl⟩ (fun _ _ => rfl)
        (fun _ => Or.inl (Or.inl hp)) h
  | resume | fallAsleep =>
      exact asleep_of_setPhase (r := s) ⟨rfl, rfl⟩ (fun _ _ => rfl) (by simp [Blocking]) h
  | relock =>
      exact asleep_of_setPhase (r := s.setOwner _ _) ⟨rfl, rfl⟩ (fun _ _ => rfl)
        (by simp [Blocking]) h
  | scan =>
      exact asleep_of_setPhase (r := s.setScanner _ _) ⟨rfl, rfl⟩ (fun _ _ => rfl)
        (by simp [Blocking]) h
  | scanOne =>
      exact asleep_of_setPhase (r := s.notifyWaiter _) ⟨rfl, rfl⟩ (fun _ => notifyWaiter_info)
        (by simp [Blocking]) h
  | @tick d =>
      have hle : s.now ≤ s.now + d := Int.le_add_of_nonneg_right (Int.natCast_nonneg d)
      exact Or.inl (asleep_of_phase { s with now := s.now + d } rfl (fun _ => rfl) hle h)

/-! ## Who enters and leaves the list -/

/-- A worker that holds the mutex on its way to sleep is the last one in the list. -/
def EnteringLast (s : State T Unit Unit (Shared D) (Client D)) : Prop :=
  ∀ t, Entering (s.phase t) → ∃ l, s.waiters () = l ++ [t]

/-- What a step does to the list, and who enters it. -/
inductive Queueing (s s' : State T Unit Unit (Shared D) (Client D)) : Prop
  /-- Nobody enters or leaves it. -/
  | same (hw : s'.waiters () = s.waiters ())
      (he : ∀ t, Entering (s'.phase t) → Entering (s.phase t))
  /-- A worker with the mutex enters it at the end. -/
  | push (u : T) (hw : s'.waiters () = s.waiters () ++ [u]) (hh : Holding code holds s u () = true)
      (hn : ¬Entering (s.phase u)) (hu : u ∉ s.waiters ()) (ha : asleep s' u = false)
      (he : ∀ t, t ≠ u → Entering (s'.phase t) → Entering (s.phase t))
  /-- A worker with the mutex leaves it. -/
  | erase (u : T) (hw : s'.waiters () = (s.waiters ()).erase u)
      (hh : Holding code holds s u () = true) (hn : ¬Entering (s.phase u))
      (ha : asleep s u = false) (he : ∀ t, Entering (s'.phase t) → Entering (s.phase t))

theorem entering_goto {r : State T Unit Unit (Shared D) (Client D)} {k : Client D}
    (hr : r.phase = s.phase) (h : Entering ((r.goto u k).phase t)) : Entering (s.phase t) := by
  by_cases hu : t = u
  · subst hu
    rw [State.goto_phase, Function.update_self] at h
    rcases h with h | h <;> cases h
  · rwa [State.goto_phase, Function.update_of_ne hu, hr] at h

theorem entering_setPhase {r : State T Unit Unit (Shared D) (Client D)} {p : Phase T}
    (hr : r.phase = s.phase) (hp : Entering p → Entering (s.phase u))
    (h : Entering ((r.setPhase u p).phase t)) : Entering (s.phase t) := by
  by_cases hu : t = u
  · subst hu
    rw [State.setPhase_phase, Function.update_self] at h
    exact hp h
  · rwa [State.setPhase_phase, Function.update_of_ne hu, hr] at h

omit [DecidableEq T] in
/-- A worker of the client that waits holds the mutex when it is not blocked. -/
theorem holding_wait {v m : Unit} {d : Time} {k : Client D} (hc : code (s.ctl t) = .wait v m d k)
    (hp : s.phase t = .start ∨ s.phase t = .relocked ∨ Entering (s.phase t)) :
    Holding code holds s t () = true := by
  have ha : (code (s.ctl t)).away (s.phase t) () = false := by
    rcases hp with hp | hp | hp | hp <;> rw [hp, hc] <;> rfl
  rw [holding_of_away ha]
  exact (disciplined.keeps hc).1

theorem queueing_of_step (hs : Step code s e s') (hl : Listed code s) : Queueing s s' := by
  cases hs with
  | choose | tryNo | awake | notifyNone =>
      exact .same rfl fun t => entering_goto (r := s) rfl
  | act => exact .same rfl fun t => entering_goto (r := { s with data := _ }) rfl
  | lock | tryYes | unlock => exact .same rfl fun t => entering_goto (r := s.setOwner _ _) rfl
  | notifyOne => exact .same rfl fun t => entering_goto (r := s.notifyWaiter _) rfl
  | scanEnd => exact .same rfl fun t => entering_goto (r := s.setScanner _ _) rfl
  | @link u v m d k hc hp =>
      refine .push u (by simp) (holding_wait hc (Or.inl hp)) (by rw [hp]; simp [Entering]) ?_ ?_ ?_
      · rw [hl.mem, hp, Cmd.linkedOn_start]
        simp
      · simp [asleep]
      · intro t hne ht
        rwa [State.setPhase_phase, Function.update_of_ne hne] at ht
  | @unlink u v m d k hc hp =>
      refine .erase u (by simp) (holding_wait hc (Or.inr (Or.inl hp))) (by rw [hp]; simp [Entering])
        (by simp [asleep, hp]) fun t => entering_goto (r := s.setWaiters _ _) rfl
  | arm hc hp =>
      exact .same rfl fun t => entering_setPhase (r := s.setWaitInfo _ _ _) rfl fun _ => Or.inl hp
  | doze =>
      exact .same rfl fun t =>
        entering_setPhase (r := s.setWaitInfo _ _ _) rfl (by simp [Entering])
  | release | relock =>
      exact .same rfl fun t => entering_setPhase (r := s.setOwner _ _) rfl (by simp [Entering])
  | park | resume | fallAsleep =>
      exact .same rfl fun t => entering_setPhase (r := s) rfl (by simp [Entering])
  | scan =>
      exact .same rfl fun t => entering_setPhase (r := s.setScanner _ _) rfl (by simp [Entering])
  | scanOne =>
      exact .same rfl fun t => entering_setPhase (r := s.notifyWaiter _) rfl (by simp [Entering])
  | tick => exact .same rfl fun _ => id

omit [DecidableEq T] in
/-- A worker on its way to sleep holds the mutex. -/
theorem holding_entering (hl : Listed code s) (h : Entering (s.phase t)) :
    Holding code holds s t () = true := by
  have hf := hl.fits t
  cases hc : code (s.ctl t) with
  | wait => exact holding_wait hc (Or.inr (Or.inr h))
  | _ => rw [hc] at hf; rcases h with h | h <;> rw [h] at hf <;> cases hf

theorem enteringLast_reachable (h : (machine T x₀).Reachable s) : EnteringLast s := by
  intro t ht
  have hnew : Newest code s () :=
    newest_reachable disciplined (fun _ _ => rfl) (fun _ () _ _ _ => rfl) h
  refine hnew t ?_ ht
  have hf := (listed_reachable h).fits t
  cases hc : code (s.ctl t) with
  | wait => rfl
  | _ =>
      rw [hc] at hf
      rcases ht with ht | ht <;> rw [ht] at hf <;> cases hf

/-! ## The waiters asleep at the front -/

/-- An initial segment of the list, past which the workers on their way to sleep are. -/
structure Segment (s : State T Unit Unit (Shared D) (Client D)) (l₁ l₂ : List T) : Prop where
  /-- It is one. -/
  split : s.waiters () = l₁ ++ l₂
  /-- Its workers have released the mutex. -/
  past : ∀ t ∈ l₁, ¬Entering (s.phase t)

/-- Everybody asleep is in such a segment. -/
theorem exists_segment (hl : Listed code s) (hg : Guarded code holds s) (he : EnteringLast s) :
    ∃ l₁ l₂, Segment s l₁ l₂ ∧ ∀ t, asleep s t = true → t ∈ l₁ := by
  by_cases hex : ∃ t, Entering (s.phase t)
  · obtain ⟨t, ht⟩ := hex
    obtain ⟨l, hw⟩ := he t ht
    have hnd := hl.nodup ()
    rw [hw] at hnd
    refine ⟨l, [t], ⟨hw, fun u hu hent => ?_⟩, fun u hu => ?_⟩
    · -- only one worker holds the mutex, and it is not twice in the list
      have hut := hg.unique (holding_entering hl hent) (holding_entering hl ht)
      subst hut
      exact (List.nodup_append.mp hnd).2.2 u hu u (by simp) rfl
    · have hmem := mem_of_asleep hl hu
      rw [hw, List.mem_append, List.mem_singleton] at hmem
      refine hmem.resolve_right ?_
      rintro rfl
      rcases (asleep_iff.mp hu).1 with hb | hb <;> rw [hb] at ht <;>
        rcases ht with ht | ht <;> cases ht
  · refine ⟨s.waiters (), [], ⟨by simp, fun t _ ht => hex ⟨t, ht⟩⟩, fun t ht => mem_of_asleep hl ht⟩

/-- A segment stays one, and nobody in it falls asleep. -/
theorem Segment.step (h : Segment s l₁ l₂) (hs : Step code s e s') (hl : Listed code s) :
    ∃ l₁' l₂', Segment s' l₁' l₂' ∧ (∀ t ∈ l₁', t ∈ l₁) ∧
      (∀ t ∈ l₁', asleep s' t = true → asleep s t = true) ∧
      ∀ t ∈ l₁, asleep s t = true → asleep s' t = true → t ∈ l₁' := by
  have hkeep : ∀ t ∈ l₁, asleep s' t = true → asleep s t = true := fun t ht ha =>
    (asleep_of_step hs ha).resolve_right fun hp => h.past t ht (Or.inr hp)
  cases queueing_of_step hs hl with
  | same hw he =>
      exact ⟨l₁, l₂, ⟨by rw [hw, h.split], fun t ht hent => h.past t ht (he t hent)⟩,
        fun _ => id, hkeep, fun _ ht _ _ => ht⟩
  | push u hw _ _ hu _ he =>
      have hne : ∀ t ∈ l₁, t ≠ u := by
        rintro t ht rfl
        exact hu (by rw [h.split]; exact List.mem_append_left _ ht)
      refine ⟨l₁, l₂ ++ [u], ⟨by rw [hw, h.split, List.append_assoc], fun t ht hent => ?_⟩,
        fun _ => id, hkeep, fun _ ht _ _ => ht⟩
      exact h.past t ht (he t (hne t ht) hent)
  | erase u hw _ _ ha he =>
      have hsub : ∀ t ∈ l₁.erase u, t ∈ l₁ := fun t ht => List.mem_of_mem_erase ht
      have hpast : ∀ t ∈ l₁.erase u, ¬Entering (s'.phase t) := fun t ht hent =>
        h.past t (hsub t ht) (he t hent)
      have hin : ∀ t ∈ l₁, asleep s t = true → asleep s' t = true → t ∈ l₁.erase u := by
        intro t ht hold _
        have hne : t ≠ u := by
          rintro rfl
          rw [ha] at hold
          cases hold
        exact (List.mem_erase_of_ne hne).mpr ht
      by_cases hu : u ∈ l₁
      · refine ⟨l₁.erase u, l₂, ⟨?_, hpast⟩, hsub, fun t ht => hkeep t (hsub t ht), hin⟩
        rw [hw, h.split, List.erase_append_left _ hu]
      · refine ⟨l₁.erase u, l₂.erase u, ⟨?_, hpast⟩, hsub, fun t ht => hkeep t (hsub t ht), hin⟩
        rw [hw, h.split, List.erase_append_right _ hu, List.erase_of_not_mem hu]

theorem mem_sleepers {l : List T} : t ∈ sleepers s l ↔ t ∈ l ∧ asleep s t = true := by
  rw [sleepers, Finset.mem_filter, List.mem_toFinset]

/-! ## Calls -/

/-- A call sets the flag of the front waiter, and of nobody else. -/
theorem call_cases (hc : isCall s e = true) (hs : Step code s e s') :
    (s.waiters () = [] ∧ ∀ t, s'.info t = s.info t) ∨
      ∃ u rest, s.waiters () = u :: rest ∧ (s'.info u).cond = true ∧
        ∀ t, t ≠ u → s'.info t = s.info t := by
  cases e with
  | choose | tick => cases hc
  | step t =>
      have hcode : ∃ locked n, s.ctl t = .notifyOne locked n := by
        simp only [isCall] at hc
        split at hc
        · exact ⟨_, _, ‹_›⟩
        · cases hc
      obtain ⟨locked, n, hctl⟩ := hcode
      have hcmd : code (s.ctl t) = .notifyOne () (back locked n) := by
        rw [hctl]
        rfl
      cases hs with
      | notifyNone _ _ hl => exact Or.inl ⟨hl, fun _ => rfl⟩
      | @notifyOne _ _ _ u rest _ _ hl =>
          refine Or.inr ⟨u, rest, hl, by simp, fun t hne => ?_⟩
          simp [hne]
      | act hc | lock hc | tryYes hc | tryNo hc | unlock hc | link hc | arm hc | release hc
      | park hc | resume hc | relock hc | unlink hc | doze hc | fallAsleep hc | awake hc | scan hc
      | scanOne hc | scanEnd hc =>
          rw [hcmd] at hc
          cases hc

/-- **A call wakes somebody who is asleep exactly when the front of the list is.** -/
theorem call_wakes_iff (hl : Listed code s) (hc : isCall s e = true) (hs : Step code s e s') :
    ((∃ t, asleep s t = true) → ∃ t, asleep s t = true ∧ (s'.info t).cond = true) ↔
      FrontAsleep s := by
  constructor
  · rintro h ⟨t, _, ht⟩
    obtain ⟨u, hu, hcond⟩ := h ⟨t, ht⟩
    have hclear := (asleep_iff.mp hu).2.1
    rcases call_cases hc hs with ⟨_, hsame⟩ | ⟨v, rest, hw, _, hsame⟩
    · rw [hsame, hclear] at hcond
      cases hcond
    · by_cases huv : u = v
      · subst huv
        exact ⟨u, rest, hw, hu⟩
      · rw [hsame u huv, hclear] at hcond
        cases hcond
  · rintro h ⟨t, ht⟩
    obtain ⟨u, rest, hw, hu⟩ := h ⟨t, mem_of_asleep hl ht, ht⟩
    rcases call_cases hc hs with ⟨hnil, _⟩ | ⟨v, rest', hw', hcond, _⟩
    · rw [hw] at hnil
      cases hnil
    · rw [hw] at hw'
      cases hw'
      exact ⟨u, hu, hcond⟩

/-- A call that finds the front of the list asleep wakes a sleeper of the segment. -/
theorem Segment.call (h : Segment s l₁ l₂) (hl : Listed code s) (hc : isCall s e = true)
    (hok : FrontOk s e) (hs : Step code s e s') (hne : sleepers s l₁ ≠ ∅) :
    ∃ t ∈ sleepers s l₁, asleep s' t = false := by
  obtain ⟨x, hx⟩ := Finset.nonempty_iff_ne_empty.mpr hne
  obtain ⟨hxl, hxa⟩ := mem_sleepers.mp hx
  obtain ⟨u, rest, hw, hu⟩ := hok hc ⟨x, mem_of_asleep hl hxa, hxa⟩
  have hmem : u ∈ l₁ := by
    have hsplit := h.split
    rw [hw] at hsplit
    cases l₁ with
    | nil => cases hxl
    | cons y ys =>
        cases hsplit
        exact List.mem_cons_self
  refine ⟨u, mem_sleepers.mpr ⟨hmem, hu⟩, ?_⟩
  rcases call_cases hc hs with ⟨hnil, _⟩ | ⟨v, rest', hw', hcond, _⟩
  · rw [hw] at hnil
    cases hnil
  · rw [hw] at hw'
    cases hw'
    simp [asleep, checkWaitInfo, hcond]

/-- **The calls of a run** wake as many sleepers of a segment as there are calls, or all of them. -/
theorem calls_wake (es : List (Event T (Client D))) :
    ∀ {s l₁ l₂}, (machine T x₀).Reachable s → Segment s l₁ l₂ →
      ((machine T x₀).run s es).isSome → (machine T x₀).Meets FrontOk s es →
      ∃ W ⊆ sleepers s l₁,
        min ((machine T x₀).count isCall s es) (sleepers s l₁).card ≤ W.card ∧
        ∀ t ∈ W, (machine T x₀).Visits (fun s => asleep s t = false) s es := by
  induction es with
  | nil =>
      intro s l₁ l₂ _ _ _ _
      exact ⟨∅, Finset.empty_subset _, by simp [Lib.Machine.count], fun t ht => by cases ht⟩
  | cons e es ih =>
      intro s l₁ l₂ hr hseg hrun hmeets
      obtain ⟨r, hrun⟩ := Option.isSome_iff_exists.mp hrun
      obtain ⟨m, hm, hrun⟩ := Lib.Machine.run_cons_some hrun
      obtain ⟨hok, hmeets⟩ := hmeets
      have hl := listed_reachable hr
      have hs : Step code s e m := step_of_next hm
      obtain ⟨k₁, k₂, hseg', hsub, hold, hkeep⟩ := hseg.step hs hl
      obtain ⟨W, hW, hcard, hvisit⟩ :=
        ih (hr.tail hm) hseg' (by rw [hrun]; rfl) (hmeets m hm)
      -- the sleepers that are still there, and those this step woke
      have hin : sleepers m k₁ ⊆ sleepers s l₁ := fun t ht => by
        obtain ⟨h1, h2⟩ := mem_sleepers.mp ht
        exact mem_sleepers.mpr ⟨hsub t h1, hold t h1 h2⟩
      have hwoken : ∀ t ∈ sleepers s l₁ \ sleepers m k₁, asleep m t = false := by
        intro t ht
        obtain ⟨h1, h2⟩ := Finset.mem_sdiff.mp ht
        obtain ⟨h3, h4⟩ := mem_sleepers.mp h1
        by_contra h5
        have h6 : asleep m t = true := by simpa using h5
        exact h2 (mem_sleepers.mpr ⟨hkeep t h3 h4 h6, h6⟩)
      have hsplit := Finset.card_sdiff_add_card_eq_card hin
      have hdisj : Disjoint (sleepers s l₁ \ sleepers m k₁) W :=
        Finset.disjoint_left.mpr fun t ht hw => (Finset.mem_sdiff.mp ht).2 (hW hw)
      refine ⟨(sleepers s l₁ \ sleepers m k₁) ∪ W, ?_, ?_, fun t ht => ?_⟩
      · exact Finset.union_subset Finset.sdiff_subset (hW.trans hin)
      · rw [Finset.card_union_of_disjoint hdisj, Lib.Machine.count, hm]
        have hcalls : isCall s e = true → sleepers s l₁ ≠ ∅ →
            0 < (sleepers s l₁ \ sleepers m k₁).card := by
          intro hc hne
          obtain ⟨t, ht, ha⟩ := hseg.call hl hc hok hs hne
          refine Finset.card_pos.mpr ⟨t, Finset.mem_sdiff.mpr ⟨ht, fun hk => ?_⟩⟩
          rw [(mem_sleepers.mp hk).2] at ha
          cases ha
        simp only [Option.elim_some]
        by_cases hempty : sleepers s l₁ = ∅
        · simp [hempty]
        · by_cases hc : isCall s e = true
          · have := hcalls hc hempty
            rw [if_pos hc]
            omega
          · rw [if_neg hc]
            omega
      · rcases Finset.mem_union.mp ht with ht | ht
        · exact Or.inr ⟨m, hm, .first (hwoken t ht)⟩
        · exact Or.inr ⟨m, hm, hvisit t ht⟩

/--
**`notify_one` wakes a blocked waiter exactly when the front of the list is one.**
In a run all of whose calls find the front asleep if anybody is, `k` calls wake `k`
of the waiters that were asleep when it began, if there were so many.
-/
theorem notify_one_wakes (h : (machine T x₀).Reachable s) :
    (∀ e s', isCall s e = true → (machine T x₀).next s e = some s' →
      (((∃ t, asleep s t = true) → ∃ t, asleep s t = true ∧ (s'.info t).cond = true) ↔
        FrontAsleep s)) ∧
    (∀ es s', (machine T x₀).run s es = some s' → (machine T x₀).Meets FrontOk s es →
      (machine T x₀).count isCall s es ≤ (sleepers s (s.waiters ())).card →
      ∃ W ⊆ sleepers s (s.waiters ()), (machine T x₀).count isCall s es ≤ W.card ∧
        ∀ t ∈ W, (machine T x₀).Visits (fun s => asleep s t = false) s es) := by
  have hl := listed_reachable h
  have hg := guarded_reachable disciplined (fun _ _ => rfl) h
  refine ⟨fun e s' hc hn => call_wakes_iff hl hc (step_of_next hn), fun es s' hrun hmeets hle => ?_⟩
  obtain ⟨l₁, l₂, hseg, hall⟩ := exists_segment hl hg (enteringLast_reachable h)
  have heq : sleepers s l₁ = sleepers s (s.waiters ()) := by
    ext t
    rw [mem_sleepers, mem_sleepers, hseg.split]
    exact ⟨fun ⟨h1, h2⟩ => ⟨List.mem_append_left _ h1, h2⟩, fun ⟨_, h2⟩ => ⟨hall t h2, h2⟩⟩
  obtain ⟨W, hW, hcard, hvisit⟩ := calls_wake es h hseg (by rw [hrun]; rfl) hmeets
  rw [heq] at hW hcard
  exact ⟨W, hW, by omega, hvisit⟩

/-! ## Two waiters and a notifier -/

/-- The first two of three workers wait. -/
def twoWaiters : List (Event (Fin 3) (Client Bool)) :=
  [Event.choose 0 (Client.acquire 0), Event.step 0,
    Event.choose 0 (Client.plainWait Time.max 0)] ++ List.replicate 4 (Event.step 0) ++
  [Event.choose 1 (Client.acquire 0), Event.step 1,
    Event.choose 1 (Client.plainWait Time.max 0)] ++ List.replicate 4 (Event.step 1)

/-- The third worker calls `notify_one`. -/
def oneCall : List (Event (Fin 3) (Client Bool)) := [.choose 2 (.notifyOne false 0), .step 2]

/-- One call wakes one of the two. -/
theorem notify_one_wakes_run : ∃ s, (machine (Fin 3) false).Reachable s ∧
    ∃ W ⊆ sleepers s (s.waiters ()), 1 ≤ W.card ∧
      ∀ t ∈ W, (machine (Fin 3) false).Visits (fun s => asleep s t = false) s oneCall := by
  obtain ⟨s, hr, hp⟩ := Lib.Machine.exists_of_run (M := machine (Fin 3) false)
    (p := fun s => decide ((machine (Fin 3) false).count isCall s oneCall = 1 ∧
      (sleepers s (s.waiters ())).card = 2 ∧
      (machine (Fin 3) false).runOk (fun s e => decide (FrontOk s e)) s oneCall = true ∧
      ((machine (Fin 3) false).run s oneCall).isSome = true))
    (.init ⟨0, rfl⟩) twoWaiters (by decide +kernel)
  obtain ⟨hcount, hcard, hok, hrun⟩ := of_decide_eq_true hp
  obtain ⟨s', hrun⟩ := Option.isSome_iff_exists.mp hrun
  have hmeets : (machine (Fin 3) false).Meets FrontOk s oneCall :=
    Lib.Machine.meets_of_runOk (fun _ _ => of_decide_eq_true) oneCall hok
  obtain ⟨W, hW, hle, hvisit⟩ :=
    (notify_one_wakes hr).2 oneCall s' hrun hmeets (by rw [hcount, hcard]; decide)
  exact ⟨s, hr, W, hW, by rwa [hcount] at hle, hvisit⟩

/-- **A second call is swallowed**: it finds the waiter that the first one notified at the front of
the list, and the other one stays blocked. -/
theorem notify_one_swallowed : ∃ s s', (machine (Fin 3) false).Reachable s ∧
    isCall s (.step 2) = true ∧ (machine (Fin 3) false).next s (.step 2) = some s' ∧
    asleep s 1 = true ∧ ∀ t, asleep s t = true → (s'.info t).cond = false := by
  obtain ⟨s, hr, hp⟩ := Lib.Machine.exists_of_run (M := machine (Fin 3) false)
    (p := fun s => decide (isCall s (.step 2) = true ∧ asleep s 1 = true) &&
      ((machine (Fin 3) false).next s (.step 2)).elim false fun s' =>
        decide (∀ t, asleep s t = true → (s'.info t).cond = false))
    (.init ⟨0, rfl⟩) (twoWaiters ++ oneCall ++ [Event.choose 2 (Client.notifyOne false 0)])
    (by decide +kernel)
  rw [Bool.and_eq_true] at hp
  obtain ⟨hc, ha⟩ := of_decide_eq_true hp.1
  cases hs : (machine (Fin 3) false).next s (.step 2) with
  | none => rw [hs] at hp; cases hp.2
  | some s' =>
      rw [hs] at hp
      exact ⟨s, s', hr, hc, hs, ha, of_decide_eq_true hp.2⟩

end Ums.Monitor.Client
