import Ums.SharedMutex.Gates

/-!
# How a writer is admitted, and how it gives up

Between the two gates a writer has no mutex, but it has the write flag: readers leave and
nobody else gets in, so the count of readers can only fall. When its time runs out at the
second gate it takes the flag away again, lets go of the mutex and notifies everybody at the
first gate. Between these two statements a waiter there may leave the list by itself, because
its own time is over or somebody had notified it before; everybody else is notified.
-/

namespace Ums.SharedMutex

open Monitor SharedMutexState

namespace Ctl

/-- The worker has timed out at the second gate. -/
def givesUp : Ctl → Bool
  | .lock _ _ .unsetWrite | .lock _ _ .unlock | .lock _ _ .notify => true
  | _ => false

/-- The worker has not passed the first gate, or has timed out there. -/
def atGate1 (d : Option Time) (h : Held) (c : Ctl) : Bool :=
  match c with
  | .lock d' h' .enter | .lock d' h' (.gate1 ..) | .lock d' h' (.leave false) =>
    decide (d' = d ∧ h' = h)
  | _ => false

end Ctl

section

variable {T : Type} [DecidableEq T] [Fintype T] {s s' : State T Unit Gate SharedMutexState Ctl}
  {e : Event T Ctl} {t u : T} {c k : Ctl} {x y : SharedMutexState} {now : Time}

/-! ## While there is a writer -/

/-- Nobody gains anything while the write flag is set, but the writer that owns the mutex at
last. -/
theorem held_of_change (hch : Change c x k y) (hw : hasWrite x = true) :
    k.shared ≤ c.shared ∧ (c.writes = false → k.writes = false) := by
  cases hch with
  | quiet hh ha =>
      rw [Ctl.shared, Ctl.shared, Ctl.writes, Ctl.writes, Ctl.owns, Ctl.owns, hh, ha]
      exact ⟨Nat.le_refl _, id⟩
  | enter hn | tryOwn _ hn | share hn =>
      rw [hw] at hn
      cases hn
  | own _ hadm hh =>
      rw [Ctl.shared, Ctl.shared, hh]
      refine ⟨Nat.le_refl _, fun hc => ?_⟩
      rw [writes_of_admitted hadm] at hc
      cases hc
  | give _ hh ha =>
      rw [Ctl.shared, Ctl.shared, hh]
      refine ⟨Nat.le_refl _, fun _ => ?_⟩
      rw [Ctl.writes, Ctl.owns, hh, ha, Bool.or_false]
  | giveUp _ hh ha =>
      rw [Ctl.shared, Ctl.shared, hh]
      refine ⟨Nat.le_refl _, fun hc => ?_⟩
      rw [Ctl.writes, Bool.or_eq_false_iff, Ctl.owns] at hc
      rw [Ctl.writes, Ctl.owns, hh, ha, Bool.or_false]
      exact hc.1
  | unshare _ hh _ ha =>
      rw [Ctl.shared, Ctl.shared, hh]
      refine ⟨Nat.sub_le .., fun hc => ?_⟩
      rw [Ctl.writes, Bool.or_eq_false_iff, Ctl.owns] at hc
      rw [Ctl.writes, Ctl.owns, hh, ha, Bool.or_false]
      exact hc.1

/-- **One step beside a writer**: no shared lock is granted and no other writer is admitted. -/
theorem admission_step (hp : Packed s) (ht : (s.ctl t).writes = true) (hs : Step code s e s') :
    (∀ u, (s'.ctl u).shared ≤ (s.ctl u).shared) ∧
      ∀ u, u ≠ t → (s'.ctl u).writes = false := by
  have hw : hasWrite s.data = true := hp.hasWrite.mpr ⟨t, ht⟩
  have hall : ∀ u, (s'.ctl u).shared ≤ (s.ctl u).shared ∧
      ((s.ctl u).writes = false → (s'.ctl u).writes = false) := fun u => by
    cases hs.moves u with
    | stays hc | inside hc =>
        rw [hc]
        exact ⟨Nat.le_refl _, id⟩
    | jumps hj => exact held_of_change (change_of_jump hj (hp.ready u)).1 hw
  exact ⟨fun u => (hall u).1, fun u hu => (hall u).2 (hp.others ht u hu)⟩

/-- **A run beside a writer.** -/
theorem admission_run (h : (machine T).Reachable s) (ht : (s.ctl t).writes = true)
    (es : List (Event T Ctl)) (hr : (machine T).run s es = some s')
    (hw : (machine T).Meets (fun q _ => (q.ctl t).writes = true) s es) :
    (∀ u, (s'.ctl u).shared ≤ (s.ctl u).shared) ∧
      ∀ u, u ≠ t → (s'.ctl u).writes = false := by
  induction es generalizing s with
  | nil =>
      cases Option.some.inj hr
      exact ⟨fun _ => Nat.le_refl _, (packed_reachable h).others ht⟩
  | cons e es ih =>
      obtain ⟨m, hm, hr⟩ := Lib.Machine.run_cons_some hr
      obtain ⟨hle, hno⟩ := admission_step (packed_reachable h) ht (step_of_next hm)
      cases es with
      | nil =>
          cases Option.some.inj hr
          exact ⟨hle, hno⟩
      | cons e' es =>
          obtain ⟨hle', hno'⟩ := ih (h.tail hm) (hw.2 m hm).1 hr (hw.2 m hm)
          exact ⟨fun u => (hle' u).trans (hle u), hno'⟩

theorem readers_eq (h : (machine T).Reachable s) :
    (readers s.data).toNat = ∑ t, (s.ctl t).shared :=
  (reader_writer_exclusion h).2.2.1

/-- A worker comes to own the mutex when there are no readers. -/
theorem no_readers_of_owns (h : (machine T).Reachable s) (hs : (machine T).next s e = some s')
    (hc : (s.ctl t).owns = false) (hk : (s'.ctl t).owns = true) :
    (readers s.data).toNat = 0 := by
  have hp := packed_reachable h
  have hzero : sharedLocks s = 0 := by
    cases (step_of_next hs).moves t with
    | stays hsame | inside hsame =>
        rw [hsame, hc] at hk
        cases hk
    | jumps hj =>
        obtain ⟨hch, _⟩ := change_of_jump hj (hp.ready t)
        generalize s'.data = y at hch
        cases hch with
        | own hr | tryOwn hr => exact hp.no_reader hr
        | quiet hh | enter _ hh | giveUp _ hh | give _ hh | share _ _ hh | unshare _ hh =>
            rw [Ctl.owns] at hc
            rw [Ctl.owns, hh] at hk
            simp only [hc] at hk
            cases hk
  rw [readers_eq h]
  exact hzero

/-! ## Giving up at the second gate -/

/-- The time is over: the flag goes, and nothing else. -/
theorem giveUp_step {d : Option Time} {h : Held} (hr : (machine T).Reachable s)
    (hc : s.ctl t = .lock d h .unsetWrite) (hs : (machine T).next s (.step t) = some s') :
    s'.ctl t = .lock d h .unlock ∧ hasWrite s.data = true ∧ hasWrite s'.data = false ∧
      (readers s'.data).toNat = (readers s.data).toNat ∧
      (∀ u, (s'.ctl u).held = (s.ctl u).held) ∧ ∀ u, u ≠ t → (s.ctl u).writes = false := by
  have hp := packed_reachable hr
  have hwrites : (s.ctl t).writes = true := writes_of_admitted (by rw [hc]; rfl)
  have hact : code (s.ctl t) = lockCode d h .unsetWrite := by rw [hc]; rfl
  rw [lockCode] at hact
  have hnext : s' = { s with data := unsetWrite s.data }.goto t (.lock d h .unlock) :=
    Option.some.inj (hs.symm.trans (next_act hact rfl))
  subst hnext
  obtain ⟨w, hd, hw⟩ := hp.packed
  have hbound := hp.bound
  refine ⟨by simp, hp.hasWrite.mpr ⟨t, hwrites⟩, ?_, ?_, fun u => ?_, hp.others hwrites⟩
  · rw [State.goto_data, hd, unsetWrite_word hbound, hasWrite_word hbound]
  · rw [State.goto_data, hd, unsetWrite_word hbound, toNat_readers_word hbound,
      toNat_readers_word hbound]
  · by_cases hu : u = t
    · rw [hu, State.goto_ctl, Function.update_self, hc]
      rfl
    · rw [State.goto_ctl, Function.update_of_ne hu]

omit [Fintype T] in
/-- What is left of the call changes nothing. -/
theorem giveUp_rest {d : Option Time} {h : Held} (hc : s.ctl t = .lock d h .unlock ∨
    s.ctl t = .lock d h .notify) (hs : (machine T).next s (.step t) = some s') :
    s'.data = s.data := by
  have hst : Step code s (.step t) s' := step_of_next hs
  by_contra hne
  obtain ⟨v, f, he, hact, _⟩ := hst.jump_of_data hne
  cases he
  rcases hc with hc | hc <;> rw [hc] at hact <;> cases hact

/-- The worker `t`, in `notify_all`, notifies `u`. -/
def notifies (t u : T) (s : State T Unit Gate SharedMutexState Ctl) (e : Event T Ctl) : Bool :=
  match s.phase t with
  | .scanning (v :: _) => decide (e = .step t ∧ v = u)
  | _ => false

/-- The worker `u` leaves the list of the first gate by itself; `t` does not go through it yet. -/
def leaves (t u : T) (s : State T Unit Gate SharedMutexState Ctl) (e : Event T Ctl) : Bool :=
  decide (e = .step u ∧ u ∈ s.waiters .gate1 ∧ s.phase u = .relocked ∧ s.phase t = .start)

/-- The worker `t` is to give up, and has yet to notify `u`. -/
structure Covers (t u : T) (s : State T Unit Gate SharedMutexState Ctl) : Prop where
  /-- The other one is at the first gate. -/
  mem : u ∈ s.waiters .gate1
  /-- The worker has timed out. -/
  late : (s.ctl t).givesUp = true
  /-- It has not come to the other one in the list. -/
  ahead : s.phase t = .start ∨ ∃ rest, s.phase t = .scanning rest ∧ u ∈ rest

section

omit [Fintype T]

/-- Where the worker goes on. -/
theorem late_of_step (hs : Step code s e s') (hl : Listed code s) (hl' : Listed code s')
    (hc : (s.ctl t).givesUp = true) (hn : ∀ d h, s.ctl t ≠ .lock d h .notify) :
    (s'.ctl t).givesUp = true ∧ s'.phase t = .start := by
  have hfits := hl'.fits t
  have hfits₀ := hl.fits t
  have hstart : ∀ {p : Phase T}, (code (s.ctl t)).fits p = true → p = .start := by
    intro p hp
    unfold Ctl.givesUp at hc
    split at hc
    · rename_i heq
      rw [heq] at hp
      cases p <;> first | rfl | cases hp
    · rename_i heq
      rw [heq] at hp
      cases p <;> first | rfl | cases hp
    · rename_i heq
      exact absurd heq (hn _ _)
    · cases hc
  cases hs.moves t with
  | stays hctl hp =>
      rw [hctl, hp]
      exact ⟨hc, hstart hfits₀⟩
  | inside hctl =>
      rw [hctl] at hfits ⊢
      exact ⟨hc, hstart hfits⟩
  | jumps hj hp =>
      refine ⟨?_, hp⟩
      generalize hctl : s.ctl t = c at hj hc
      generalize s'.ctl t = k, s'.data = y at hj
      cases goes_of_jump hj with
      | unsetWrite | lockUnlock => rfl
      | lockNotify => exact absurd hctl (hn _ _)
      | _ => cases hc

/-- **One step of giving up**: the other worker stays to be notified, is notified, or leaves. -/
theorem Covers.step (hs : Step code s e s') (hl : Listed code s) (hl' : Listed code s')
    (h : Covers t u s) :
    Covers t u s' ∨ notifies t u s e = true ∨ leaves t u s e = true := by
  rcases hs.mem_waiters h.mem with hmem | ⟨he, hp, hfree⟩
  · by_cases hn : ∃ d h, s.ctl t = .lock d h .notify
    · obtain ⟨d, a, hc⟩ := hn
      have hcode : code (s.ctl t) = .notifyAll .gate1 (.idle a) := by rw [hc]; rfl
      rcases hs.scan_cases hcode with ⟨hctl, hp⟩ | ⟨hctl, -, hp⟩ | ⟨v, rest, he, hctl, hp, hp'⟩ |
        ⟨hp, -⟩
      · exact Or.inl ⟨hmem, by rw [hctl]; exact h.late, by rw [hp]; exact h.ahead⟩
      · exact Or.inl ⟨hmem, by rw [hctl]; exact h.late, Or.inr ⟨_, hp, h.mem⟩⟩
      · by_cases hv : v = u
        · refine Or.inr (Or.inl ?_)
          rw [notifies, hp]
          exact decide_eq_true ⟨he, hv⟩
        · refine Or.inl ⟨hmem, by rw [hctl]; exact h.late, Or.inr ⟨rest, hp', ?_⟩⟩
          rcases h.ahead with h0 | ⟨l, h0, hin⟩
          · rw [hp] at h0
            cases h0
          · rw [hp] at h0
            cases h0
            exact (List.mem_cons.mp hin).resolve_left (Ne.symm hv)
      · -- the loop ends when everybody has been notified
        rcases h.ahead with h0 | ⟨l, h0, hin⟩
        · rw [hp] at h0
          cases h0
        · rw [hp] at h0
          cases h0
          cases hin
    · obtain ⟨hlate, hstart⟩ := late_of_step hs hl hl' h.late fun d a hc => hn ⟨d, a, hc⟩
      exact Or.inl ⟨hmem, hlate, Or.inl hstart⟩
  · refine Or.inr (Or.inr (decide_eq_true ⟨he, h.mem, hp, ?_⟩))
    rcases h.ahead with h0 | ⟨rest, h0, _⟩
    · exact h0
    · -- nobody leaves a list that somebody goes through
      have hfits := hl.fits t
      rw [h0] at hfits
      have hscan : s.scanner .gate1 = some t := by
        refine (hl.scan .gate1 t).mpr ⟨rest, ?_⟩
        rw [h0]
        have hlate := h.late
        unfold Ctl.givesUp at hlate
        split at hlate
        · rename_i hc
          rw [hc] at hfits
          cases hfits
        · rename_i hc
          rw [hc] at hfits
          cases hfits
        · rename_i hc
          rw [hc]
          rfl
        · cases hlate
      rw [hfree] at hscan
      cases hscan

/-- **A run of giving up.** -/
theorem covers_run (h : (machine T).Reachable s) (es : List (Event T Ctl))
    (hr : (machine T).run s es = some s') (hc : Covers t u s) :
    Covers t u s' ∨ 0 < (machine T).count (notifies t u) s es ∨
      0 < (machine T).count (leaves t u) s es := by
  induction es generalizing s with
  | nil =>
      cases Option.some.inj hr
      exact Or.inl hc
  | cons e es ih =>
      obtain ⟨m, hm, hr⟩ := Lib.Machine.run_cons_some hr
      have hrest : ∀ f, (machine T).count f s (e :: es) =
          (if f s e then 1 else 0) + (machine T).count f m es := fun f => by
        rw [Lib.Machine.count, hm]
        rfl
      rw [hrest, hrest]
      rcases hc.step (step_of_next hm) (listed_reachable h) (listed_reachable (h.tail hm)) with
        hc | hn | hl
      · rcases ih (h.tail hm) hr hc with h1 | h1 | h1
        · exact Or.inl h1
        · exact Or.inr (Or.inl (by omega))
        · exact Or.inr (Or.inr (by omega))
      · refine Or.inr (Or.inl ?_)
        rw [if_pos hn]
        omega
      · refine Or.inr (Or.inr ?_)
        rw [if_pos hl]
        omega

end

/-! ## Giving up at the first gate -/

/-- A worker comes to the first gate through its own call only. -/
theorem atGate1_of_jump {d : Option Time} {h : Held} (hj : Jump code now c x k y)
    (hc : ∀ ok, code c ≠ .choose ok) (hk : k.atGate1 d h = true) : c.atGate1 d h = true := by
  cases goes_of_jump hj with
  | calls => exact absurd rfl (hc _)
  | lockEnter | lockGate1 | lockFails => exact hk
  | _ => cases hk

/-- Up to there the worker changes nothing. -/
theorem data_of_atGate1 {d : Option Time} {h : Held} (hj : Jump code now c x k y)
    (hc : c.atGate1 d h = true) : y = x := by
  cases goes_of_jump hj with
  | setWrite | unsetWrite | tryOwns | unlockUnset | incReaders | trySharedTakes | decReaders =>
      cases hc
  | _ => rfl

omit [Fintype T] in
/-- **A call that times out at the first gate** has changed nothing. -/
theorem gate1_timeout {d : Option Time} {h : Held} (hr : (machine T).Reachable s)
    (es : List (Event T Ctl)) (hrun : (machine T).run s es = some s')
    (hn : ∀ k, .choose t k ∉ es) (hend : s'.ctl t = .lock d h (.leave false)) :
    (machine T).Meets (fun q e => e = .step t →
      ∀ q', (machine T).next q e = some q' → q'.data = q.data) s es := by
  have hback := Lib.Machine.meets_of_back (A := fun q : State T Unit Gate SharedMutexState Ctl =>
      (q.ctl t).atGate1 d h = true) (f := fun e => ∀ k, e ≠ .choose t k)
    (fun q e q' _ he hs hk => ?_) es hr hrun (fun e he k hk => hn k (hk ▸ he))
    (by rw [hend]; exact decide_eq_true ⟨rfl, rfl⟩)
  · refine hback.2.mono fun q e ⟨_, hA, _⟩ he q' hs => ?_
    have hst : Step code q e q' := step_of_next hs
    by_contra hne
    obtain ⟨v, f, he', _, hj, _⟩ := hst.jump_of_data hne
    rw [he] at he'
    cases he'
    exact hne (data_of_atGate1 hj hA)
  · rcases jump_of_next hs he with hsame | ⟨hc, hj⟩
    · rw [← hsame]
      exact hk
    · exact atGate1_of_jump hj hc hk

omit [Fintype T] in
/-- It returns as it came. -/
theorem gate1_leave {d : Option Time} {h : Held} (hr : (machine T).Reachable s)
    (hc : s.ctl t = .lock d h (.leave false)) (hs : (machine T).next s (.step t) = some s') :
    s'.ctl t = .idle h ∧ s'.data = s.data ∧ s'.owner () ≠ some t ∧
      ∀ g, t ∉ s'.waiters g := by
  have hact : code (s.ctl t) = .unlock () (.idle h) := by rw [hc]; rfl
  have hnext : s' = (s.setOwner () none).goto t (.idle h) :=
    Option.some.inj (hs.symm.trans (next_unlock hact))
  have hl' := listed_reachable (hr.tail hs)
  have hctl : s'.ctl t = .idle h := by simp [hnext]
  refine ⟨hctl, by rw [hnext]; rfl, by simp [hnext], fun g hg => ?_⟩
  rw [hl'.mem, hctl] at hg
  cases hg

/-! ## The interface -/

/-- The flag is set, and the readers stay. -/
theorem setWrite_step {d : Option Time} {h : Held} (hr : (machine T).Reachable s)
    (hc : s.ctl t = .lock d h .setWrite) (hs : (machine T).next s (.step t) = some s') :
    (s'.ctl t).writes = true ∧ hasWrite s'.data = true ∧
      (readers s'.data).toNat = (readers s.data).toNat := by
  have hact : code (s.ctl t) = lockCode d h .setWrite := by rw [hc]; rfl
  rw [lockCode] at hact
  have hnext : s' = { s with data := setWrite s.data }.goto t (.lock d h (.gate2 .test)) :=
    Option.some.inj (hs.symm.trans (next_act hact rfl))
  have hp := packed_reachable hr
  obtain ⟨w, hd, -⟩ := hp.packed
  have hdata : s'.data = word true (sharedLocks s) := by
    rw [hnext, State.goto_data, hd, setWrite_word hp.bound]
  refine ⟨?_, ?_, ?_⟩
  · rw [hnext, State.goto_ctl, Function.update_self]
    exact writes_of_admitted rfl
  · rw [hdata, hasWrite_word hp.bound]
  · rw [hdata, hd, toNat_readers_word hp.bound, toNat_readers_word hp.bound]

/--
**Writers are admitted alone, and give up cleanly.** From the step that sets the write flag on,
and as long as its worker is a writer, no shared lock is granted, the count of readers does not
grow and nobody else becomes a writer; a worker comes to own the mutex only when there are no
readers. A writer whose time runs out at the second gate takes its own flag away and nothing
else, and before it returns it notifies everybody that was at the first gate then, except who
has left the list by itself before the worker went through it. A call that times out at the
first gate changes nothing.
-/
theorem writer_admission (hr : (machine T).Reachable s) :
    (∀ t d h s', s.ctl t = .lock d h .setWrite → (machine T).next s (.step t) = some s' →
      (s'.ctl t).writes = true ∧ hasWrite s'.data = true ∧
      (readers s'.data).toNat = (readers s.data).toNat) ∧
    (∀ t es s', (s.ctl t).writes = true → (machine T).run s es = some s' →
      (machine T).Meets (fun q _ => (q.ctl t).writes = true) s es →
      (readers s'.data).toNat ≤ (readers s.data).toNat ∧
      (∀ u, (s'.ctl u).shared ≤ (s.ctl u).shared) ∧
      ∀ u, u ≠ t → (s'.ctl u).writes = false) ∧
    (∀ t e s', (machine T).next s e = some s' → (s.ctl t).owns = false →
      (s'.ctl t).owns = true → (readers s.data).toNat = 0) ∧
    (∀ t d h s', s.ctl t = .lock d h .unsetWrite → (machine T).next s (.step t) = some s' →
      s'.ctl t = .lock d h .unlock ∧ hasWrite s.data = true ∧ hasWrite s'.data = false ∧
      (readers s'.data).toNat = (readers s.data).toNat ∧
      (∀ u, (s'.ctl u).held = (s.ctl u).held) ∧ ∀ u, u ≠ t → (s.ctl u).writes = false) ∧
    (∀ t d h s', s.ctl t = .lock d h .unlock ∨ s.ctl t = .lock d h .notify →
      (machine T).next s (.step t) = some s' → s'.data = s.data) ∧
    (∀ t d h es s', s.ctl t = .lock d h .unsetWrite → (machine T).run s es = some s' →
      (s'.ctl t).givesUp = false → ∀ u ∈ s.waiters .gate1,
        0 < (machine T).count (notifies t u) s es ∨ 0 < (machine T).count (leaves t u) s es) ∧
    (∀ t d h es s', (machine T).run s es = some s' → (∀ k, .choose t k ∉ es) →
      s'.ctl t = .lock d h (.leave false) →
      (machine T).Meets (fun q e => e = .step t →
        ∀ q', (machine T).next q e = some q' → q'.data = q.data) s es) ∧
    ∀ t d h s', s.ctl t = .lock d h (.leave false) → (machine T).next s (.step t) = some s' →
      s'.ctl t = .idle h ∧ s'.data = s.data ∧ s'.owner () ≠ some t ∧
      ∀ g, t ∉ s'.waiters g := by
  refine ⟨fun t d h s' hc hs => setWrite_step hr hc hs, fun t es s' ht hrun hw => ?_,
    fun t e s' hs hc hk => no_readers_of_owns hr hs hc hk,
    fun t d h s' hc hs => giveUp_step hr hc hs, fun t d h s' hc hs => giveUp_rest hc hs,
    fun t d h es s' hc hrun hend u hu => ?_,
    fun t d h es s' hrun hn hend => gate1_timeout hr es hrun hn hend,
    fun t d h s' hc hs => gate1_leave hr hc hs⟩
  · obtain ⟨hle, hno⟩ := admission_run hr ht es hrun hw
    refine ⟨?_, hle, hno⟩
    rw [readers_eq hr, readers_eq (Lib.Machine.reachable_of_run hr es hrun)]
    exact Finset.sum_le_sum fun u _ => hle u
  · have hstart : s.phase t = .start := by
      have hfits := (listed_reachable hr).fits t
      rw [hc] at hfits
      cases hp : s.phase t <;> rw [hp] at hfits <;> first | rfl | cases hfits
    rcases covers_run hr es hrun ⟨hu, by rw [hc]; rfl, Or.inl hstart⟩ with h1 | h1
    · rw [h1.late] at hend
      cases hend
    · exact h1

end

/-- The reader `r` has the mutex, the writer `t` waits at the second gate with a deadline and `u`
at the first; then their time is over, and the writer at the second gate is about to give up. -/
def lateWriters (r t u : T) : List (Event T Ctl) := List.flatten [
  [.choose r (.lockShared none {} .enter)], List.replicate 4 (.step r),
  [.choose t (.lock (some 5) {} .enter)], List.replicate 8 (.step t),
  [.choose u (.lock (some 5) {} .enter)], List.replicate 6 (.step u),
  [.tick 10], List.replicate 5 (.step t)]

/-- It clears the flag, the other one leaves the list, and it goes through what is left. -/
def earlyLeave (t u : T) : List (Event T Ctl) := List.flatten [
  List.replicate 2 (.step t), List.replicate 3 (.step u), List.replicate 2 (.step t)]

/-- The other one is not notified. -/
theorem gate2_timeout_misses : ¬∀ s, (machine (Fin 3)).Reachable s → ∀ t d h es s',
    s.ctl t = .lock d h .unsetWrite → (machine (Fin 3)).run s es = some s' →
    (s'.ctl t).givesUp = false → ∀ u ∈ s.waiters .gate1,
      0 < (machine (Fin 3)).count (notifies t u) s es := by
  intro hall
  obtain ⟨s, hr, hp⟩ := Lib.Machine.exists_of_run (M := machine (Fin 3))
    (p := fun s => decide (s.ctl 1 = .lock (some 5) {} .unsetWrite ∧ 2 ∈ s.waiters .gate1 ∧
        (machine (Fin 3)).count (notifies 1 2) s (earlyLeave 1 2) = 0) &&
      ((machine (Fin 3)).run s (earlyLeave 1 2)).elim false fun s' => !(s'.ctl 1).givesUp)
    (.init ⟨0, rfl⟩) (lateWriters 0 1 2) (by decide +kernel)
  rw [Bool.and_eq_true, decide_eq_true_eq] at hp
  obtain ⟨⟨hc, hu, hzero⟩, hrun⟩ := hp
  cases hs : (machine (Fin 3)).run s (earlyLeave 1 2) with
  | none =>
      rw [hs] at hrun
      cases hrun
  | some s' =>
      rw [hs] at hrun
      have hnotified := hall s hr 1 _ _ _ s' hc hs (by simpa using hrun) 2 hu
      omega

/-- The writer at the second gate gives up, and the shared lock stays. -/
theorem writer_admission_run : ∃ s, (machine (Fin 3)).Reachable s ∧
    s.ctl 1 = .lock (some 5) {} .unsetWrite ∧
    ∃ s', (machine (Fin 3)).next s (.step 1) = some s' ∧ hasWrite s'.data = false ∧
      (readers s'.data).toNat = (readers s.data).toNat ∧ (readers s.data).toNat = 1 := by
  obtain ⟨s, hr, hp⟩ := Lib.Machine.exists_of_run (M := machine (Fin 3))
    (p := fun s => decide (s.ctl 1 = .lock (some 5) {} .unsetWrite ∧
        (readers s.data).toNat = 1) && ((machine (Fin 3)).next s (.step 1)).isSome)
    (.init ⟨0, rfl⟩) (lateWriters 0 1 2) (by decide +kernel)
  rw [Bool.and_eq_true, decide_eq_true_eq] at hp
  obtain ⟨⟨hc, hone⟩, hs⟩ := hp
  obtain ⟨s', hs⟩ := Option.isSome_iff_exists.mp hs
  obtain ⟨-, -, -, hgive, -⟩ := writer_admission hr
  obtain ⟨-, -, hclear, hsame, -⟩ := hgive 1 _ _ s' hc hs
  exact ⟨s, hr, hc, s', hs, hclear, hsame, hone⟩

end Ums.SharedMutex
