import Ums.Lib.Bins
import Ums.SharedMutex.Program
import Mathlib.Algebra.Order.BigOperators.Group.Finset

/-!
# Readers, writers and the state word

At every moment the state word says how many shared locks are held and whether there
is a writer: a worker that owns the mutex, or one that was admitted through the first
gate and waits at the second. There is at most one writer, and none of the workers
holds a shared lock while it owns the mutex.

A worker that is about to set the write flag, or to count one more reader, still has
the mutex with which it found out that it may.
-/

namespace Ums.SharedMutex

open Monitor SharedMutexState

namespace Ctl

/-- The worker owns the mutex exclusively. -/
def owns (c : Ctl) : Bool := c.held.excl

/-- The worker has set the write flag and does not own the mutex yet. -/
def admitted : Ctl → Bool
  | .lock _ _ (.gate2 _) | .lock _ _ .unsetWrite => true
  | _ => false

/-- The worker is why the write flag is set. -/
def writes (c : Ctl) : Bool := c.owns || c.admitted

/-- The shared locks the worker holds. -/
def shared (c : Ctl) : Nat := c.held.shared

end Ctl

/-- What a worker knows of the state word, and of what it holds, before its next statement. -/
def Ready (x : SharedMutexState) : Ctl → Prop
  | .lock _ _ .setWrite => hasWrite x = false
  | .lockShared _ _ .incReaders => hasWrite x = false ∧ maxReaders x = false
  | .unlock h .enter | .unlock h .unsetWrite => h.excl = true
  | .unlockShared h .enter | .unlockShared h .decReaders => 0 < h.shared
  | _ => True

/-- What a statement does to the writers, the readers and the state word. -/
inductive Change (c : Ctl) (x : SharedMutexState) (k : Ctl) : SharedMutexState → Prop
  /-- Nothing. -/
  | quiet (hh : k.held = c.held) (ha : k.admitted = c.admitted) : Change c x k x
  /-- A writer passes the first gate. -/
  | enter (hw : hasWrite x = false) (hh : k.held = c.held) (ha : k.admitted = true) :
      Change c x k (setWrite x)
  /-- It passes the second gate. -/
  | own (hr : hasReaders x = false) (hc : c.admitted = true)
      (hh : k.held = { c.held with excl := true }) (ha : k.admitted = false) : Change c x k x
  /-- A writer passes both gates at once. -/
  | tryOwn (hr : hasReaders x = false) (hw : hasWrite x = false)
      (hh : k.held = { c.held with excl := true }) (ha : k.admitted = false) :
      Change c x k (setWrite x)
  /-- The owner unlocks. -/
  | give (hc : c.owns = true) (hh : k.held = { c.held with excl := false })
      (ha : k.admitted = false) : Change c x k (unsetWrite x)
  /-- The writer at the second gate gives up. -/
  | giveUp (hc : c.admitted = true) (hh : k.held = c.held) (ha : k.admitted = false) :
      Change c x k (unsetWrite x)
  /-- One more shared lock. -/
  | share (hw : hasWrite x = false) (hm : maxReaders x = false)
      (hh : k.held = { c.held with shared := c.held.shared + 1 }) (hc : c.admitted = false)
      (ha : k.admitted = false) : Change c x k (incReaders x)
  /-- One shared lock less. -/
  | unshare (hs : 0 < c.shared) (hh : k.held = { c.held with shared := c.held.shared - 1 })
      (hc : c.admitted = false) (ha : k.admitted = false) : Change c x k (decReaders x)

variable {c k : Ctl} {x y : SharedMutexState} {now : Time}

theorem calls_quiet {h : Held} (hk : k.calls h = true) :
    k.held = h ∧ k.admitted = false ∧ Ready x k := by
  unfold Ctl.calls at hk
  split at hk
  case h_5 =>
    simp only [Bool.and_eq_true, decide_eq_true_eq] at hk
    obtain ⟨rfl, he⟩ := hk
    exact ⟨rfl, rfl, he⟩
  case h_6 =>
    simp only [Bool.and_eq_true, decide_eq_true_eq] at hk
    obtain ⟨rfl, hs⟩ := hk
    exact ⟨rfl, rfl, hs⟩
  case h_7 => cases hk
  all_goals
    have hh := of_decide_eq_true hk
    exact ⟨hh, rfl, trivial⟩

/-- **Every statement makes one of the changes**, and leaves its worker with what it has to know. -/
theorem change_of_jump (hj : Jump code now c x k y) (hr : Ready x c) :
    Change c x k y ∧ Ready y k := by
  cases goes_of_jump hj with
  | calls hk =>
      obtain ⟨hh, ha, hr'⟩ := calls_quiet hk
      exact ⟨.quiet hh ha, hr'⟩
  | lockPasses hw => exact ⟨.quiet rfl rfl, hw⟩
  | setWrite => exact ⟨.enter hr rfl rfl, trivial⟩
  | lockOwns hn => exact ⟨.own hn rfl rfl rfl, trivial⟩
  | unsetWrite => exact ⟨.giveUp rfl rfl rfl, trivial⟩
  | tryOwns hn hw => exact ⟨.tryOwn hn hw rfl rfl, trivial⟩
  | unlockEnter | unsharedEnter => exact ⟨.quiet rfl rfl, hr⟩
  | unlockUnset => exact ⟨.give hr rfl rfl, trivial⟩
  | sharedPasses hw hm => exact ⟨.quiet rfl rfl, hw, hm⟩
  | incReaders => exact ⟨.share hr.1 hr.2 rfl rfl rfl, trivial⟩
  | trySharedTakes hw hm => exact ⟨.share hw hm rfl rfl rfl, trivial⟩
  | decReaders => exact ⟨.unshare hr rfl rfl rfl, trivial⟩
  | _ => exact ⟨.quiet rfl rfl, trivial⟩

/-! ## The state word -/

section

variable {T : Type} [DecidableEq T] [Fintype T] {s s' : State T Unit Gate SharedMutexState Ctl}
  {t : T}

/-- The number of shared locks held. -/
def sharedLocks (s : State T Unit Gate SharedMutexState Ctl) : Nat := ∑ t, (s.ctl t).shared

/-- The state word says who holds the mutex. -/
structure Packed (s : State T Unit Gate SharedMutexState Ctl) : Prop where
  /-- The readers fit into their bits. -/
  bound : sharedLocks s ≤ maxCount
  /-- The word is made of the write flag and the number of readers. -/
  packed : ∃ w, s.data = word w (sharedLocks s) ∧ (w = true ↔ ∃ t, (s.ctl t).writes = true)
  /-- There is one writer at most. -/
  unique : ∀ t u, (s.ctl t).writes = true → (s.ctl u).writes = true → t = u
  /-- There is no reader beside an owner. -/
  alone : ∀ t, (s.ctl t).owns = true → sharedLocks s = 0
  /-- Nobody waits at the second gate who owns the mutex. -/
  solo : ∀ t, (s.ctl t).admitted = true → (s.ctl t).owns = false
  /-- Everybody knows what it has to know. -/
  ready : ∀ t, Ready s.data (s.ctl t)

theorem writes_of_owns (h : c.owns = true) : c.writes = true := by
  rw [Ctl.writes, h, Bool.true_or]

theorem writes_of_admitted (h : c.admitted = true) : c.writes = true := by
  rw [Ctl.writes, h, Bool.or_true]

section

omit [DecidableEq T]

theorem Packed.hasWrite (h : Packed s) :
    SharedMutexState.hasWrite s.data = true ↔ ∃ t, (s.ctl t).writes = true := by
  obtain ⟨w, hd, hw⟩ := h.packed
  rw [hd, hasWrite_word h.bound, hw]

theorem Packed.no_writer (h : Packed s) (hw : SharedMutexState.hasWrite s.data = false) (u : T) :
    (s.ctl u).writes = false := by
  by_contra hu
  rw [h.hasWrite.mpr ⟨u, by simpa using hu⟩] at hw
  cases hw

/-- Beside a writer there is no other. -/
theorem Packed.others (h : Packed s) (ht : (s.ctl t).writes = true) (u : T) (hu : u ≠ t) :
    (s.ctl u).writes = false := by
  by_contra hw
  exact hu (h.unique u t (by simpa using hw) ht)

theorem Packed.no_reader (h : Packed s) (hr : SharedMutexState.hasReaders s.data = false) :
    sharedLocks s = 0 := by
  obtain ⟨w, hd, _⟩ := h.packed
  rw [hd, hasReaders_word h.bound] at hr
  simpa using hr

theorem Packed.room (h : Packed s) (hm : SharedMutexState.maxReaders s.data = false) :
    sharedLocks s < maxCount := by
  obtain ⟨w, hd, _⟩ := h.packed
  rw [hd, maxReaders_word h.bound] at hm
  have hne : sharedLocks s ≠ maxCount := by simpa using hm
  exact Nat.lt_of_le_of_ne h.bound hne

end

/-- The number of shared locks changes with those of the worker that moves. -/
theorem sharedLocks_update (hc : s'.ctl = Function.update s.ctl t k) :
    sharedLocks s' + (s.ctl t).shared = sharedLocks s + k.shared := by
  have hsum := Lib.sum_update_tag s.ctl (fun c => (c.shared : Int)) t k
  rw [← hc] at hsum
  have h1 : ((sharedLocks s' : Nat) : Int) = ∑ u, ((s'.ctl u).shared : Int) := by
    rw [sharedLocks, Nat.cast_sum]
  have h2 : ((sharedLocks s : Nat) : Int) = ∑ u, ((s.ctl u).shared : Int) := by
    rw [sharedLocks, Nat.cast_sum]
  omega

omit [DecidableEq T] in
theorem shared_le : (s.ctl t).shared ≤ sharedLocks s :=
  Finset.single_le_sum (f := fun t => (s.ctl t).shared) (fun _ _ => Nat.zero_le _)
    (Finset.mem_univ t)

omit [DecidableEq T] in
/-- Nobody is a writer after the step. -/
theorem Packed.nobody (hb : sharedLocks s' ≤ maxCount) (hd : s'.data = word false (sharedLocks s'))
    (hn : ∀ u, (s'.ctl u).writes = false) (hr : ∀ u, Ready s'.data (s'.ctl u)) : Packed s' where
  bound := hb
  packed := ⟨false, hd, by simp [hn]⟩
  unique u v hu := by rw [hn u] at hu; cases hu
  alone u hu := by
    have := writes_of_owns hu
    rw [hn u] at this
    cases this
  solo u hu := by
    have := writes_of_admitted hu
    rw [hn u] at this
    cases this
  ready := hr

/-- The worker that moved is the only writer after the step. -/
theorem Packed.only (hb : sharedLocks s' ≤ maxCount) (hd : s'.data = word true (sharedLocks s'))
    (ht : (s'.ctl t).writes = true) (hn : ∀ u, u ≠ t → (s'.ctl u).writes = false)
    (ho : (s'.ctl t).owns = true → sharedLocks s' = 0)
    (ha : (s'.ctl t).admitted = true → (s'.ctl t).owns = false)
    (hr : ∀ u, Ready s'.data (s'.ctl u)) : Packed s' := by
  have hmine : ∀ u, (s'.ctl u).writes = true → u = t := by
    intro u hu
    by_contra hne
    rw [hn u hne] at hu
    cases hu
  have hwriter : true = true ↔ ∃ u, (s'.ctl u).writes = true := iff_of_true rfl ⟨t, ht⟩
  refine ⟨hb, ⟨true, hd, hwriter⟩, fun u v hu hv => ?_, fun u hu => ?_, fun u hu => ?_, hr⟩
  · rw [hmine u hu, hmine v hv]
  · have := hmine u (writes_of_owns hu)
    subst this
    exact ho hu
  · have := hmine u (writes_of_admitted hu)
    subst this
    exact ha hu

omit [DecidableEq T] in
/-- The writers are the same after the step. -/
theorem Packed.same (h : Packed s) (hb : sharedLocks s' ≤ maxCount)
    (hd : ∀ w, s.data = word w (sharedLocks s) → s'.data = word w (sharedLocks s'))
    (ho : ∀ u, (s'.ctl u).owns = (s.ctl u).owns)
    (ha : ∀ u, (s'.ctl u).admitted = (s.ctl u).admitted)
    (hz : sharedLocks s = 0 → sharedLocks s' = 0) (hr : ∀ u, Ready s'.data (s'.ctl u)) :
    Packed s' := by
  have hw : ∀ u, (s'.ctl u).writes = (s.ctl u).writes := fun u => by
    rw [Ctl.writes, Ctl.writes, ho, ha]
  obtain ⟨w, hdata, hiff⟩ := h.packed
  refine ⟨hb, ⟨w, hd w hdata, ?_⟩, fun u v hu hv => ?_, fun u hu => ?_, fun u hu => ?_, hr⟩
  · simp only [hiff, hw]
  · rw [hw] at hu hv
    exact h.unique u v hu hv
  · rw [ho] at hu
    exact hz (h.alone u hu)
  · rw [ha] at hu
    rw [ho]
    exact h.solo u hu

/-- **One change** keeps the state word true. -/
theorem Packed.change (h : Packed s) (hc : s'.ctl = Function.update s.ctl t (s'.ctl t))
    (hch : Change (s.ctl t) s.data (s'.ctl t) s'.data) (hr : ∀ u, Ready s'.data (s'.ctl u)) :
    Packed s' := by
  have hother : ∀ u, u ≠ t → s'.ctl u = s.ctl u := fun u hu => by
    rw [hc, Function.update_of_ne hu]
  have htotal := sharedLocks_update hc
  have hbound := h.bound
  obtain ⟨w, hdata, hw⟩ := h.packed
  generalize hd : s'.data = y at hch
  generalize hk : s'.ctl t = k at hch htotal
  have hsame : k.held.shared = (s.ctl t).held.shared →
      sharedLocks s' = sharedLocks s := fun he => by
    rw [Ctl.shared, Ctl.shared, he] at htotal
    omega
  -- what does not change for the worker that moves changes for nobody
  have hall : ∀ f : Ctl → Bool, f k = f (s.ctl t) → ∀ u, f (s'.ctl u) = f (s.ctl u) :=
    fun f hf u => by
      by_cases hu : u = t
      · rw [hu, hk, hf]
      · rw [hother u hu]
  have hothers : (∀ u, u ≠ t → (s.ctl u).writes = false) →
      ∀ u, u ≠ t → (s'.ctl u).writes = false := fun hn u hu => by
    rw [hother u hu, hn u hu]
  have hnobody : k.writes = false → (∀ u, u ≠ t → (s.ctl u).writes = false) →
      ∀ u, (s'.ctl u).writes = false := fun hkw hn u => by
    by_cases hu : u = t
    · rw [hu, hk, hkw]
    · exact hothers hn u hu
  cases hch with
  | quiet hh ha =>
      have heq := hsame (by rw [hh])
      exact h.same (by omega) (fun w' hw' => by rw [hd, hw', heq])
        (hall Ctl.owns (by rw [Ctl.owns, Ctl.owns, hh])) (hall Ctl.admitted ha)
        (fun hz => by omega) hr
  | enter hn hh ha =>
      have heq := hsame (by rw [hh])
      have hnone := h.no_writer hn
      have howns : k.owns = false := by
        have hwc := hnone t
        rw [Ctl.writes, Bool.or_eq_false_iff] at hwc
        rw [Ctl.owns, hh]
        exact hwc.1
      refine Packed.only (t := t) (by omega) ?_ ?_ (hothers fun u _ => hnone u) (fun ho => ?_)
        (fun _ => ?_) hr
      · rw [hd, hdata, setWrite_word hbound, heq]
      · rw [hk]
        exact writes_of_admitted ha
      · rw [hk, howns] at ho
        cases ho
      · rw [hk, howns]
  | own hnr hadm hh ha =>
      have heq := hsame (by rw [hh])
      have hzero := h.no_reader hnr
      have hmine := writes_of_admitted hadm
      have hwt : w = true := hw.mpr ⟨t, hmine⟩
      refine Packed.only (t := t) (by omega) ?_ ?_ (hothers (h.others hmine)) (fun _ => by omega)
        (fun hx => ?_) hr
      · rw [hd, hdata, hwt, heq]
      · rw [hk]
        exact writes_of_owns (by rw [Ctl.owns, hh])
      · rw [hk, ha] at hx
        cases hx
  | tryOwn hnr hn hh ha =>
      have heq := hsame (by rw [hh])
      have hzero := h.no_reader hnr
      have hnone := h.no_writer hn
      refine Packed.only (t := t) (by omega) ?_ ?_ (hothers fun u _ => hnone u)
        (fun _ => by omega) (fun hx => ?_) hr
      · rw [hd, hdata, setWrite_word hbound, heq]
      · rw [hk]
        exact writes_of_owns (by rw [Ctl.owns, hh])
      · rw [hk, ha] at hx
        cases hx
  | give ho hh ha =>
      have heq := hsame (by rw [hh])
      refine Packed.nobody (by omega) ?_ (hnobody ?_ (h.others (writes_of_owns ho))) hr
      · rw [hd, hdata, unsetWrite_word hbound, heq]
      · rw [Ctl.writes, Ctl.owns, hh, ha]
        rfl
  | giveUp hadm hh ha =>
      have heq := hsame (by rw [hh])
      have hno := h.solo t hadm
      rw [Ctl.owns] at hno
      refine Packed.nobody (by omega) ?_ (hnobody ?_ (h.others (writes_of_admitted hadm))) hr
      · rw [hd, hdata, unsetWrite_word hbound, heq]
      · rw [Ctl.writes, Ctl.owns, hh, ha, hno]
        rfl
  | share hn hm hh hadm ha =>
      have hroom := h.room hm
      have hnone := h.no_writer hn
      have hwf : w = false := by
        by_contra hx
        obtain ⟨u, hu⟩ := hw.mp (by simpa using hx)
        rw [hnone u] at hu
        cases hu
      have heq : sharedLocks s' = sharedLocks s + 1 := by
        rw [Ctl.shared, Ctl.shared, hh] at htotal
        simp only at htotal
        omega
      refine Packed.nobody (by omega) ?_ (hnobody ?_ fun u _ => hnone u) hr
      · rw [hd, hdata, hwf, incReaders_word hroom, heq]
      · have hno := hnone t
        rw [Ctl.writes, Bool.or_eq_false_iff, Ctl.owns] at hno
        rw [Ctl.writes, Ctl.owns, hh, ha]
        simpa using hno.1
  | unshare hpos hh hadm ha =>
      have hle := shared_le (s := s) (t := t)
      have heq : sharedLocks s = sharedLocks s' + 1 := by
        rw [Ctl.shared] at hpos
        rw [Ctl.shared, Ctl.shared, hh] at htotal
        simp only at htotal
        omega
      refine h.same (by omega) (fun w' hw' => ?_) (hall Ctl.owns (by rw [Ctl.owns, Ctl.owns, hh]))
        (hall Ctl.admitted (by rw [ha, hadm])) (fun hz => by omega) hr
      rw [hd, hw', heq, decReaders_word (by omega)]

/-! ## Who has the mutex -/

/-- What this worker knows of the state word is more than what it holds. -/
def exposed : Ctl → Bool
  | .lock _ _ .setWrite | .lockShared _ _ .incReaders => true
  | _ => false

theorem Ready.transfer (h : Ready x c) (he : exposed c = false) : Ready y c := by
  cases c with
  | lock d h p | unlock h p | lockShared d h p | unlockShared h p => cases p <;> trivial
  | _ => trivial

omit [DecidableEq T] [Fintype T] in
theorem holding_of_act {f : Time → SharedMutexState → SharedMutexState × Ctl}
    (hc : code (s.ctl t) = .act f) (hh : holds (s.ctl t) () = true) :
    Holding code holds s t () = true := by
  have ha : (code (s.ctl t)).away (s.phase t) () = false := by
    rw [hc]
    rfl
  rw [holding_of_away ha, hh]

omit [DecidableEq T] [Fintype T] in
theorem holding_of_exposed (h : exposed (s.ctl t) = true) : Holding code holds s t () = true := by
  unfold exposed at h
  split at h
  · rename_i hc
    exact holding_of_act (by rw [hc]; rfl) (by rw [hc]; rfl)
  · rename_i hc
    exact holding_of_act (by rw [hc]; rfl) (by rw [hc]; rfl)
  · cases h

/-- The state word is only changed with `m_mutex`. -/
theorem holds_of_change (hj : Jump code now c x k y) (hne : y ≠ x) : holds c () = true := by
  obtain ⟨f, hc, hy⟩ := hj.act_of_ne hne
  cases c with
  | idle h => cases hc
  | lock d h p => cases p <;> first | rfl | cases hc
  | tryLock h p => cases p <;> first | rfl | cases hc
  | unlock h p => cases p <;> first | rfl | cases hc
  | lockShared d h p => cases p <;> first | rfl | cases hc
  | tryLockShared h p => cases p <;> first | rfl | cases hc
  | unlockShared h p =>
      cases p with
      | notify m r w =>
          cases hc
          exact absurd hy hne
      | _ => first | rfl | cases hc

omit [DecidableEq T] [Fintype T] in
theorem holding_of_change (hj : Jump code now (s.ctl t) x k y) (hne : y ≠ x) :
    Holding code holds s t () = true := by
  obtain ⟨f, hc, _⟩ := hj.act_of_ne hne
  exact holding_of_act hc (holds_of_change hj hne)

theorem packed_step {e : Event T Ctl} (hs : Step code s e s') (hg : Guarded code holds s)
    (h : Packed s) : Packed s' := by
  rcases hs.jump with ⟨hc, hd⟩ | ⟨t, hc, hj⟩
  · have heq : sharedLocks s' = sharedLocks s := by
      rw [sharedLocks, sharedLocks, hc]
    refine h.same (by rw [heq]; exact h.bound) (fun w hw => by rw [hd, hw, heq])
      (fun u => by rw [hc]) (fun u => by rw [hc]) (fun hz => by rw [heq, hz]) fun u => ?_
    rw [hd, hc]
    exact h.ready u
  · obtain ⟨hch, _⟩ := change_of_jump hj (h.ready t)
    refine h.change hc hch (hs.forall_ctl (Q := fun _ c x => Ready x c)
      (fun t hj => (change_of_jump hj (h.ready t)).2) (fun t u hu hj hr => ?_) h.ready)
    by_cases hy : s'.data = s.data
    · rw [hy]
      exact hr
    · -- the worker that changed the word has the mutex, so this one does not
      refine hr.transfer ?_
      by_contra hex
      have hu' := holding_of_exposed (by simpa using hex)
      exact hu (hg.unique hu' (holding_of_change hj hy))

theorem packed_reachable (h : (machine T).Reachable s) : Packed s := by
  refine Lib.Machine.Reach.invariant ?_ ?_ h
  · rintro s ⟨now, rfl⟩
    have hzero : sharedLocks (State.start (fun _ => Ctl.idle {}) 0#32 now :
        State T Unit Gate SharedMutexState Ctl) = 0 := Finset.sum_eq_zero fun _ _ => rfl
    refine Packed.nobody (by rw [hzero]; exact Nat.zero_le _) (by rw [hzero]; rfl) (fun _ => rfl)
      fun _ => trivial
  · intro s e s' hr _ hs hp
    have hg := guarded_reachable disciplined (fun _ _ => rfl) hr
    exact packed_step (step_of_next hs) hg hp

/-! ## The interface -/

/-- The step counts one more shared lock. -/
def counts (s : State T Unit Gate SharedMutexState Ctl) (t : T) : Bool :=
  match s.ctl t with
  | .lockShared _ _ .incReaders => true
  | .tryLockShared _ .test => !hasWrite s.data && !maxReaders s.data
  | _ => false

/-- The step counts one shared lock less. -/
def discounts (s : State T Unit Gate SharedMutexState Ctl) (t : T) : Bool :=
  match s.ctl t with
  | .unlockShared _ .decReaders => true
  | _ => false

omit [Fintype T] in
theorem data_of_counts (h : counts s t = true) (hs : (machine T).next s (.step t) = some s') :
    s'.data = incReaders s.data := by
  simp only [Monitor.machine, Monitor.next] at hs
  unfold counts at h
  split at h
  · rename_i hc
    rw [hc] at hs
    cases hs
    rfl
  · rename_i hc
    rw [hc] at hs
    simp only [code, tryLockSharedCode, cmdStep, h, if_true] at hs
    cases hs
    rfl
  · cases h

omit [Fintype T] in
theorem data_of_discounts (h : discounts s t = true)
    (hs : (machine T).next s (.step t) = some s') : s'.data = decReaders s.data := by
  simp only [Monitor.machine, Monitor.next] at hs
  unfold discounts at h
  split at h
  · rename_i hc
    rw [hc] at hs
    cases hs
    rfl
  · cases h

/--
**Readers and writers exclude each other, and the state word tells them apart.** At
most one worker owns the mutex, and nobody holds a shared lock then; the low bits of
the word are the number of shared locks held, and its top bit is set exactly while
one worker owns the mutex or waits at the second gate; counting a reader in or out
does not touch the top bit.
-/
theorem reader_writer_exclusion (h : (machine T).Reachable s) :
    (∀ t u, (s.ctl t).owns = true → (s.ctl u).owns = true → t = u) ∧
    (∀ t u, (s.ctl t).owns = true → (s.ctl u).shared = 0) ∧
    (readers s.data).toNat = ∑ t, (s.ctl t).shared ∧
    ∑ t, (s.ctl t).shared ≤ 2 ^ 31 - 1 ∧
    (hasWrite s.data = true ↔
      ∃! t, (s.ctl t).owns = true ∨ (s.ctl t).admitted = true) ∧
    (∀ t u, (s.ctl t).owns = true ∨ (s.ctl t).admitted = true →
      (s.ctl u).owns = true ∨ (s.ctl u).admitted = true → t = u) ∧
    (∀ t s', counts s t = true → (machine T).next s (.step t) = some s' →
      hasWrite s'.data = hasWrite s.data ∧
      (readers s'.data).toNat = (readers s.data).toNat + 1) ∧
    (∀ t s', discounts s t = true → (machine T).next s (.step t) = some s' →
      hasWrite s'.data = hasWrite s.data ∧
      (readers s'.data).toNat + 1 = (readers s.data).toNat) := by
  have hp := packed_reachable h
  obtain ⟨w, hd, hw⟩ := hp.packed
  have hbound := hp.bound
  have hwrites : ∀ t, ((s.ctl t).owns = true ∨ (s.ctl t).admitted = true) ↔
      (s.ctl t).writes = true := fun t => by rw [Ctl.writes, Bool.or_eq_true]
  simp only [hwrites]
  refine ⟨fun t u ht hu => hp.unique t u (writes_of_owns ht) (writes_of_owns hu), fun t u ht => ?_,
    ?_, hbound, ?_, hp.unique, fun t s' ht hs => ?_, fun t s' ht hs => ?_⟩
  · have hle := shared_le (s := s) (t := u)
    rw [hp.alone t ht] at hle
    exact Nat.le_zero.mp hle
  · rw [hd, toNat_readers_word hbound]
    rfl
  · rw [hp.hasWrite]
    constructor
    · rintro ⟨t, ht⟩
      exact ⟨t, ht, fun u hu => hp.unique u t hu ht⟩
    · rintro ⟨t, ht, _⟩
      exact ⟨t, ht⟩
  · -- whoever counts itself has seen the count below its maximum under the mutex
    have hm : maxReaders s.data = false := by
      have hr := hp.ready t
      unfold counts at ht
      split at ht
      · rename_i hc
        rw [hc] at hr
        exact hr.2
      · simp only [Bool.and_eq_true, Bool.not_eq_true'] at ht
        exact ht.2
      · cases ht
    have hroom := hp.room hm
    rw [data_of_counts ht hs, hd, incReaders_word hroom, hasWrite_word (by omega),
      hasWrite_word (by omega),
      toNat_readers_word (by omega), toNat_readers_word (by omega)]
    exact ⟨rfl, rfl⟩
  · rw [data_of_discounts ht hs]
    -- the thread that discounts itself holds a shared lock
    have hpos : 0 < sharedLocks s := by
      have hr := hp.ready t
      have hle := shared_le (s := s) (t := t)
      unfold discounts at ht
      split at ht
      · rename_i hc
        rw [hc] at hr hle
        exact Nat.lt_of_lt_of_le hr hle
      · cases ht
    obtain ⟨n, hn⟩ := Nat.exists_eq_succ_of_ne_zero (Nat.pos_iff_ne_zero.mp hpos)
    rw [Nat.succ_eq_add_one] at hn
    rw [hd, hn, decReaders_word (by omega), hasWrite_word (by omega), hasWrite_word (by omega),
      toNat_readers_word (by omega), toNat_readers_word (by omega)]
    exact ⟨rfl, rfl⟩

end

/-- A worker holds two shared locks. -/
theorem reader_writer_exclusion_run : ∃ s, (machine (Fin 2)).Reachable s ∧
    (s.ctl 0).shared = 2 ∧ (readers s.data).toNat = ∑ t, (s.ctl t).shared ∧
    hasWrite s.data = false := by
  obtain ⟨s, hr, hp⟩ := Lib.Machine.exists_of_run (M := machine (Fin 2))
    (p := fun s => decide ((s.ctl 0).shared = 2 ∧ hasWrite s.data = false)) (.init ⟨0, rfl⟩)
    (List.flatten [
      [.choose 0 (.lockShared none {} .enter)], List.replicate 4 (.step 0),
      [.choose 0 (.tryLockShared { shared := 1 } .enter)], List.replicate 3 (.step 0)])
    (by decide +kernel)
  obtain ⟨hs, hw⟩ := of_decide_eq_true hp
  exact ⟨s, hr, hs, (reader_writer_exclusion hr).2.2.1, hw⟩

end Ums.SharedMutex
