import Ums.Monitor.Relay
import Ums.SharedMutex.Exclusion

/-!
# Who wakes the workers at the gates

At the second gate waits the writer that has set the write flag, and nobody else. The
reader that counts itself out as the last one sees the flag in the same critical
section, and so it owes the notification.

At the first gate `unlock` notifies everybody, but `unlock_shared` one waiter, and only
when it leaves the maximum. That is enough as long as no second reader leaves before
the waiter has taken its place.
-/

namespace Ums.SharedMutex

open Monitor SharedMutexState

variable {T : Type} [DecidableEq T] [Fintype T] {s : State T Unit Gate SharedMutexState Ctl}
  {t u : T} {c k : Ctl} {x y : SharedMutexState} {now : Time} {g : Gate} {a : Await Unit}

/-- What a worker knows of the state word anyway. -/
structure Known (c : Ctl) (x : SharedMutexState) : Prop where
  /-- What it has found out. -/
  ready : Ready x c
  /-- The word is made of a flag and a number of readers, its own locks among them. -/
  word : ∃ w r, c.shared ≤ r ∧ r ≤ maxCount ∧ x = SharedMutexState.word w r

theorem known_reachable (h : (machine T).Reachable s) (t : T) : Known (s.ctl t) s.data := by
  have hp := packed_reachable h
  obtain ⟨w, hd, _⟩ := hp.packed
  exact ⟨hp.ready t, w, _, shared_le, hp.bound, hd⟩

/-- The statements that change the state word. -/
inductive Edit (x : SharedMutexState) : Ctl → Ctl → SharedMutexState → Prop
  /-- A writer passes the first gate. -/
  | setWrite (d h) : Edit x (.lock d h .setWrite) (.lock d h (.gate2 .test)) (setWrite x)
  /-- It gives up at the second one. -/
  | giveUp (d h) : Edit x (.lock d h .unsetWrite) (.lock d h .unlock) (unsetWrite x)
  /-- `try_lock` succeeds. -/
  | tryLock (h) (hr : hasReaders x = false) (hw : hasWrite x = false) :
      Edit x (.tryLock h .test) (.tryLock { h with excl := true } (.leave true)) (setWrite x)
  /-- The owner unlocks. -/
  | unlock (h) :
      Edit x (.unlock h .unsetWrite) (.unlock { h with excl := false } .leave) (unsetWrite x)
  /-- A reader passes the gate. -/
  | incReaders (d h) : Edit x (.lockShared d h .incReaders)
      (.lockShared d { h with shared := h.shared + 1 } (.leave true)) (incReaders x)
  /-- `try_lock_shared` succeeds. -/
  | tryLockShared (h) (hw : hasWrite x = false) (hm : maxReaders x = false) :
      Edit x (.tryLockShared h .test)
        (.tryLockShared { h with shared := h.shared + 1 } (.leave true)) (incReaders x)
  /-- A reader unlocks. -/
  | decReaders (h) : Edit x (.unlockShared h .decReaders)
      (.unlockShared { h with shared := h.shared - 1 }
        (.leave (maxReaders x) (hasReaders (decReaders x)) (hasWrite (decReaders x))))
      (decReaders x)

/-- **Nothing else changes the state word.** -/
theorem edit_of_jump (hj : Jump code now c x k y) (hne : y ≠ x) : Edit x c k y := by
  cases goes_of_jump hj with
  | setWrite => exact .setWrite _ _
  | unsetWrite => exact .giveUp _ _
  | tryOwns hr hw => exact .tryLock _ hr hw
  | unlockUnset => exact .unlock _
  | incReaders => exact .incReaders _ _
  | trySharedTakes hw hm => exact .tryLockShared _ hw hm
  | decReaders => exact .decReaders _
  | _ => exact absurd rfl hne

/-! ## Waiting at a gate -/

namespace Ctl

/-- The gate at which the worker waits, and how far it is. -/
def gate : Ctl → Option (Gate × Await Unit)
  | .lock _ _ (.gate1 _ a) | .lockShared _ _ (.gate1 _ a) => some (.gate1, a)
  | .lock _ _ (.gate2 a) => some (.gate2, a)
  | _ => none

/-- The predicate it waits for. -/
def opens : Ctl → SharedMutexState → Bool
  | .lock _ _ (.gate1 ..), x => !hasWrite x
  | .lock _ _ (.gate2 _), x => !hasReaders x
  | .lockShared _ _ (.gate1 ..), x => !hasWrite x && !maxReaders x
  | _, _ => true

/-- The worker has found the gate closed, and is about to wait. -/
def refusedAt (g : Gate) (c : Ctl) : Bool :=
  match c.gate with
  | some (g', a) => decide (g' = g) && a.refused
  | none => false

/-- The worker has found the first gate closed, and is about to test it again. -/
def retests : Ctl → Bool
  | .lock _ _ (.gate1 true a) | .lockShared _ _ (.gate1 true a) => !a.refused
  | _ => false

/-- The worker is past the first gate, and about to say so in the state word. -/
def passed : Ctl → Bool
  | .lock _ _ .setWrite | .lockShared _ _ .incReaders => true
  | _ => false

end Ctl

theorem refusedAt_iff : c.refusedAt g = true ↔ ∃ a, c.gate = some (g, a) ∧ a.refused = true := by
  unfold Ctl.refusedAt
  cases hc : c.gate with
  | none => simp
  | some ga =>
      obtain ⟨g', a⟩ := ga
      simp only [Bool.and_eq_true, decide_eq_true_eq, Option.some.injEq, Prod.mk.injEq]
      constructor
      · rintro ⟨rfl, ha⟩
        exact ⟨a, ⟨rfl, rfl⟩, ha⟩
      · rintro ⟨b, ⟨rfl, rfl⟩, hb⟩
        exact ⟨rfl, hb⟩

/-- A worker at a gate is in a predicate wait. -/
theorem code_gate (h : c.gate = some (g, a)) :
    ∃ (d : Option Time) (inside : Await Unit → Ctl) (ret : Bool → Ctl),
      code c = a.code g () c.opens d (fun _ => ()) inside ret ∧
      (∀ b, (inside b).gate = some (g, b)) ∧ (∀ r, (ret r).gate = none) ∧
      (g = .gate1 → (∀ b, (inside b).retests = !b.refused) ∧ (ret true).passed = true) := by
  cases c with
  | lock d h' p =>
      cases p with
      | gate1 again b =>
          cases h
          exact ⟨d, fun b => .lock d h' (.gate1 true b),
            fun r => .lock d h' (if r then .setWrite else .leave false),
            rfl, fun _ => rfl, fun r => by cases r <;> rfl, fun _ => ⟨fun _ => rfl, rfl⟩⟩
      | gate2 b =>
          cases h
          exact ⟨d, fun b => .lock d h' (.gate2 b),
            fun r =>
              if r then .lock d { h' with excl := true } (.leave true) else .lock d h' .unsetWrite,
            rfl, fun _ => rfl, fun r => by cases r <;> rfl, nofun⟩
      | _ => cases h
  | lockShared d h' p =>
      cases p with
      | gate1 again b =>
          cases h
          exact ⟨d, fun b => .lockShared d h' (.gate1 true b),
            fun r => .lockShared d h' (if r then .incReaders else .leave false),
            rfl, fun _ => rfl, fun r => by cases r <;> rfl, fun _ => ⟨fun _ => rfl, rfl⟩⟩
      | _ => cases h
  | _ => cases h

/-- A worker comes to a gate to test its predicate. -/
theorem gate_of_jump (hj : Jump code now c x k y) (hc : c.gate = none) (hk : k.gate = some (g, a)) :
    a = .test := by
  cases goes_of_jump hj with
  | calls hcall =>
      unfold Ctl.calls at hcall
      split at hcall <;> first | cases hk | cases hcall
  | lockEnter | setWrite | sharedEnter =>
      cases hk
      rfl
  | lockGate1 | lockGate2 | sharedGate1 => cases hc
  | _ => cases hk

/-- **Nobody waits at a gate that is open.** -/
theorem refused_of_jump (hj : Jump code now c x k y) (hk : k.refusedAt g = true) :
    (c.refusedAt g = true ∧ (∃ f, code c = .act f) ∧ y = x) ∨
      ((∃ a, c.gate = some (g, a)) ∧ c.opens y = false) := by
  obtain ⟨b, hb, hr⟩ := refusedAt_iff.mp hk
  cases hc : c.gate with
  | none =>
      rw [gate_of_jump hj hc hb] at hr
      cases hr
  | some ga =>
      obtain ⟨g', a⟩ := ga
      obtain ⟨d, inside, ret, hcode, hin, hret, _⟩ := code_gate hc
      obtain ⟨rfl, _⟩ := Await.jump hcode hj
      rcases Await.jump_refused hcode hj with rfl | ⟨b', rfl, hb'⟩
      · rw [hret] at hb
        cases hb
      · rw [hin] at hb
        cases hb
        rcases hb' hr with hp | ⟨ha, hact⟩
        · exact Or.inr ⟨⟨a, rfl⟩, hp⟩
        · exact Or.inl ⟨refusedAt_iff.mpr ⟨a, hc, ha⟩, hact, rfl⟩

/-- A worker waits at a gate after a refusal, and tests again afterwards. -/
theorem wait_gate {m : Unit} {d : Time} (hc : code c = .wait g m d k) :
    c.refusedAt g = true ∧ ∃ b, k.gate = some (g, b) ∧ b.refused = false ∧
      (g = .gate1 → k.retests = true) := by
  have hgate : c.gate ≠ none := by
    intro hn
    cases c with
    | idle h => cases hc
    | lock d h p => cases p <;> first | cases hc | cases hn
    | lockShared d h p => cases p <;> first | cases hc | cases hn
    | tryLock h p | unlock h p | tryLockShared h p | unlockShared h p => cases p <;> cases hc
  obtain ⟨⟨g', a⟩, hga⟩ := Option.ne_none_iff_exists'.mp hgate
  obtain ⟨d', inside, ret, hcode, hin, _, hret⟩ := code_gate hga
  rw [hcode] at hc
  obtain ⟨rfl, _, ha, b, rfl, hb⟩ := Await.wait_eq hc
  refine ⟨refusedAt_iff.mpr ⟨a, hga, ha⟩, b, hin b, hb, fun hg => ?_⟩
  rw [(hret hg).1 b, hb]
  rfl

/-- A worker is at a gate with `m_mutex`. -/
theorem holds_of_gate (h : c.gate = some (g, a)) : holds c () = true := by
  unfold Ctl.gate at h
  split at h <;> cases h <;> rfl

/-! ## The second gate -/

/-- The worker, inside `unlock_shared`, is about to notify the second gate. -/
def notifiesGate2 : Ctl → Bool
  | .unlockShared _ (.leave _ false true) | .unlockShared _ (.notify _ false true)
  | .unlockShared _ .notifyGate2 => true
  | _ => false

/-- The second gate opens when the write flag is set and there are no readers. -/
def gate2Roles : Roles SharedMutexState Ctl where
  free x := hasWrite x = true ∧ hasReaders x = false
  tight _ := True
  owes c := notifiesGate2 c = true
  owesAll _ := False
  enters c := c.writes = true ∧ c.refusedAt .gate2 = false
  refused c := c.refusedAt .gate2 = true

theorem admitted_of_gate (h : c.gate = some (.gate2, a)) : c.admitted = true := by
  unfold Ctl.gate at h
  split at h <;> cases h
  rfl

/-- A writer waits at the second gate as long as there are readers. -/
theorem refused_gate2_of_jump (hj : Jump code now c x k y) (hk : k.refusedAt .gate2 = true) :
    (c.refusedAt .gate2 = true ∧ (∃ f, code c = .act f) ∧ y = x) ∨ hasReaders y = true := by
  refine (refused_of_jump hj hk).imp id ?_
  rintro ⟨⟨a, ha⟩, ho⟩
  unfold Ctl.gate at ha
  split at ha <;> cases ha
  simpa [Ctl.opens] using ho

/-- A writer that has taken the flag away leaves none. -/
theorem Known.hasWrite_unsetWrite (h : Known c x) : hasWrite (unsetWrite x) = false := by
  obtain ⟨w, r, _, hr, rfl⟩ := h.word
  rw [unsetWrite_word hr, hasWrite_word hr]

/-- A reader that counts itself in leaves the flag as it is. -/
theorem Known.hasWrite_incReaders (h : Known c x) (hm : maxReaders x = false) :
    hasWrite (incReaders x) = hasWrite x := by
  obtain ⟨w, r, _, hr, rfl⟩ := h.word
  rw [maxReaders_word hr, decide_eq_false_iff_not] at hm
  rw [incReaders_word (by omega), hasWrite_word (by omega), hasWrite_word hr]

/-- Who enters as a writer, and why: the flag is set only by a writer on its way. -/
theorem writes_of_jump (hj : Jump code now c x k y) (hk : Known c x) (hf : hasWrite y = true)
    (hc : c.writes = true ∨ (y ≠ x ∧ k.held.shared = c.held.shared)) : k.writes = true := by
  obtain ⟨hch, _⟩ := change_of_jump hj hk.ready
  cases hch with
  | quiet hh ha =>
      rcases hc with hw | ⟨hne, _⟩
      · rwa [Ctl.writes, Ctl.owns, hh, ha]
      · exact absurd rfl hne
  | enter hw hh ha => exact writes_of_admitted ha
  | own hr hadm hh ha => exact writes_of_owns (by rw [Ctl.owns, hh])
  | tryOwn hr hw hh ha => exact writes_of_owns (by rw [Ctl.owns, hh])
  | give ho hh ha | giveUp ho hh ha =>
      rw [hk.hasWrite_unsetWrite] at hf
      cases hf
  | share hw hm hh hadm ha =>
      rw [hk.hasWrite_incReaders hm, hw] at hf
      cases hf
  | unshare hs hh hadm ha =>
      rcases hc with hw | ⟨_, hsame⟩
      · rw [Ctl.writes, hadm, Bool.or_false, Ctl.owns] at hw
        exact writes_of_owns (by rw [Ctl.owns, hh]; exact hw)
      · rw [hh] at hsame
        rw [Ctl.shared] at hs
        simp only at hsame
        omega

/-- **The second gate is a relay**: the writer behind it is notified by the last reader. -/
theorem relay_gate2 : Relay code holds .gate2 () Known gate2Roles where
  waits c m d k hc := by
    obtain ⟨hr, b, hk, hb, -⟩ := wait_gate hc
    refine ⟨rfl, hr, writes_of_admitted (admitted_of_gate hk), ?_⟩
    unfold Ctl.refusedAt
    rw [hk]
    exact hb
  refusedHolds c hr := by
    obtain ⟨a, hc, _⟩ := refusedAt_iff.mp hr
    exact holds_of_gate hc
  refuses hj _ hr := by
    rcases refused_gate2_of_jump hj hr with h | h
    · exact Or.inl h
    · refine Or.inr fun hf => ?_
      rw [hf.2] at h
      cases h
  guarded hj _ hf hn := holds_of_change hj fun he => hn (he ▸ hf)
  frees {now c x k y} hj hk hf hn := by
    have hne : y ≠ x := fun he => hn (he ▸ hf)
    have hrefused : k.refusedAt .gate2 = false := by
      by_contra hr
      rcases refused_gate2_of_jump hj (by simpa using hr) with ⟨_, _, he⟩ | h
      · exact hne he
      · rw [hf.2] at h
        cases h
    by_cases hsame : k.held.shared = c.held.shared
    · exact Or.inl ⟨trivial, Or.inr ⟨writes_of_jump hj hk hf.1 (Or.inr ⟨hne, hsame⟩), hrefused⟩⟩
    · cases edit_of_jump hj hne with
      | decReaders h =>
          -- the last reader finds the flag set, and is to notify the writer
          obtain ⟨hw, hr⟩ := hf
          rw [hr, hw]
          exact Or.inl ⟨trivial, Or.inl rfl⟩
      -- a reader comes in only while there is no writer
      | incReaders d h =>
          obtain ⟨hw, hm⟩ := hk.ready
          have hf := hf.1
          rw [hk.hasWrite_incReaders hm, hw] at hf
          cases hf
      | tryLockShared h hw hm =>
          have hf := hf.1
          rw [hk.hasWrite_incReaders hm, hw] at hf
          cases hf
      | _ => exact absurd rfl hsame
  owed {now c x k y} hj ho := by
    have ho : notifiesGate2 c = true := ho
    unfold notifiesGate2 at ho
    split at ho
    · cases hj with
      | unlock hc =>
          cases hc
          exact Or.inl rfl
      | _ hc => cases hc
    · cases hj with
      | act hc =>
          cases hc
          exact Or.inl rfl
      | _ hc => cases hc
    · cases hj with
      | notifyOne hc =>
          cases hc
          exact Or.inr rfl
      | _ hc => cases hc
    · cases ho
  owedAll _ h := h.elim
  takes hj hk _ he hf := by
    refine ⟨writes_of_jump hj hk hf.1 (Or.inl he.1), ?_⟩
    -- it would be refused, and there is no reader
    by_contra hr
    rcases refused_gate2_of_jump hj (by simpa using hr) with ⟨hc, _⟩ | h
    · rw [he.2] at hc
      cases hc
    · rw [hf.2] at h
      cases h

/-- Whoever waits at the second gate was admitted. -/
theorem admitted_of_waitsOn (h : (code c).waitsOn = some .gate2) : c.admitted = true := by
  obtain ⟨m, d, k, hc⟩ := Cmd.waitsOn_eq_some h
  obtain ⟨a, ha, _⟩ := refusedAt_iff.mp (wait_gate hc).1
  exact admitted_of_gate ha

omit [DecidableEq T] [Fintype T] in
theorem admitted_of_mem (hl : Listed code s) (h : t ∈ s.waiters .gate2) :
    (s.ctl t).admitted = true := by
  rw [hl.mem] at h
  refine admitted_of_waitsOn ?_
  cases hc : code (s.ctl t) with
  | wait v m d k =>
      rw [hc] at h
      cases hp : s.phase t <;> rw [hp] at h <;> first | exact h | cases h
  | _ =>
      rw [hc] at h
      cases h

/--
**The writer at the second gate is not stranded.** There is one worker at most in the
waiters list of the second gate. One that is blocked there un-notified has set the write
flag, and when there are no readers left, some worker inside `unlock_shared` is still
to notify it.
-/
theorem gate2_not_stranded (h : (machine T).Reachable s) :
    (s.waiters .gate2).length ≤ 1 ∧
    ∀ t, Asleep code s .gate2 t → hasWrite s.data = true ∧
      (hasReaders s.data = false → ∃ u, notifiesGate2 (s.ctl u) = true) := by
  have hp := packed_reachable h
  have hl := listed_reachable h
  refine ⟨?_, fun t ha => ?_⟩
  · -- whoever is in the list was admitted, and only one writer is
    have hsame : ∀ u ∈ s.waiters .gate2, ∀ v ∈ s.waiters .gate2, u = v := fun u hu v hv =>
      hp.unique u v (writes_of_admitted (admitted_of_mem hl hu))
        (writes_of_admitted (admitted_of_mem hl hv))
    have hnodup := hl.nodup .gate2
    cases hw : s.waiters .gate2 with
    | nil => exact Nat.zero_le _
    | cons u l =>
        rw [hw] at hsame hnodup
        cases l with
        | nil => exact Nat.le_refl _
        | cons v l =>
            have huv := hsame u (by simp) v (by simp)
            simp [huv] at hnodup
  · have hadm := admitted_of_waitsOn ha.1
    have hw := hp.hasWrite.mpr ⟨t, writes_of_admitted hadm⟩
    refine ⟨hw, fun hr => ?_⟩
    have hrelay := relayed_reachable relay_gate2 disciplined (fun _ _ => rfl)
      (fun s hs => known_reachable hs) (fun _ _ _ _ _ _ _ _ _ => Or.inl trivial) h
    rcases hrelay t ha ⟨hw, hr⟩ with ⟨_, hf, _⟩ | ⟨_, ho | ⟨u, hu⟩ | ⟨u, hne, hu⟩⟩
    · exact hf.elim
    · exact ho
    · -- the only writer is the one asleep
      have hut := hp.unique u t hu.1 (writes_of_admitted hadm)
      rw [hut] at hu
      obtain ⟨m, d, k, hc⟩ := Cmd.waitsOn_eq_some ha.1
      have := (wait_gate hc).1
      rw [hu.2] at this
      cases this
    · have huw := writes_of_admitted (admitted_of_waitsOn hu.1)
      exact absurd (hp.unique u t huw (writes_of_admitted hadm)) hne

/-- The last reader has counted itself out, and the writer sleeps at the second gate. -/
theorem gate2_not_stranded_run : ∃ s, (machine (Fin 2)).Reachable s ∧
    Asleep code s .gate2 1 ∧ hasReaders s.data = false ∧
    ∃ u, notifiesGate2 (s.ctl u) = true := by
  obtain ⟨s, hr, hp⟩ := Lib.Machine.exists_of_run (M := machine (Fin 2))
    (p := fun s => decide (Asleep code s .gate2 1 ∧ hasReaders s.data = false)) (.init ⟨0, rfl⟩)
    (List.flatten [
      [.choose 0 (.lockShared none {} .enter)], List.replicate 4 (.step 0),
      [.choose 1 (.lock none {} .enter)], List.replicate 7 (.step 1),
      [.choose 0 (.unlockShared { shared := 1 } .enter)], List.replicate 2 (.step 0)])
    (by decide +kernel)
  obtain ⟨ha, hn⟩ := of_decide_eq_true hp
  exact ⟨s, hr, ha, hn, ((gate2_not_stranded hr).2 1 ha).2 hn⟩

/-! ## The first gate -/

/-- The worker, inside `unlock_shared`, is about to notify the first gate. -/
def notifiesGate1 : Ctl → Bool
  | .unlockShared _ (.leave true _ false) | .unlockShared _ (.notify true _ false)
  | .unlockShared _ .notifyGate1 => true
  | _ => false

/-- The worker, inside `unlock` or a timed-out `try_lock_until`, is about to notify everybody. -/
def notifiesAllGate1 : Ctl → Bool
  | .unlock _ .leave | .unlock _ .notify | .lock _ _ .unlock | .lock _ _ .notify => true
  | _ => false

/--
The first gate opens when the write flag is clear and there is room for a reader. One
notification is enough as long as one reader fills it.
-/
def gate1Roles : Roles SharedMutexState Ctl where
  free x := hasWrite x = false ∧ maxReaders x = false
  tight x := maxReaders (incReaders x) = true
  owes c := notifiesGate1 c = true
  owesAll c := notifiesAllGate1 c = true
  enters c := c.retests = true ∨ c.passed = true
  refused c := c.refusedAt .gate1 = true

theorem opens_of_free (h : c.gate = some (.gate1, a)) (hw : hasWrite x = false)
    (hm : maxReaders x = false) : c.opens x = true := by
  unfold Ctl.gate at h
  split at h <;> cases h
  · simp [Ctl.opens, hw]
  · simp [Ctl.opens, hw, hm]

theorem gate_of_retests (h : c.retests = true) :
    ∃ a, c.gate = some (.gate1, a) ∧ a.refused = false := by
  unfold Ctl.retests at h
  split at h
  · exact ⟨_, rfl, by simpa using h⟩
  · exact ⟨_, rfl, by simpa using h⟩
  · cases h

/-- A writer leaves the flag behind. -/
theorem Known.hasWrite_setWrite (h : Known c x) : hasWrite (setWrite x) = true := by
  obtain ⟨w, r, _, hr, rfl⟩ := h.word
  rw [setWrite_word hr, hasWrite_word hr]

/-- Taking a flag away that is not there changes nothing. -/
theorem Known.unsetWrite_eq (h : Known c x) (hw : hasWrite x = false) : unsetWrite x = x := by
  obtain ⟨w, r, _, hr, rfl⟩ := h.word
  rw [hasWrite_word hr] at hw
  rw [unsetWrite_word hr, hw]

/-- A reader that leaves, and there is room again, makes room for one. -/
theorem Known.decReaders (h : Known c x) (hs : 0 < c.shared) :
    hasWrite (decReaders x) = hasWrite x ∧ incReaders (decReaders x) = x := by
  obtain ⟨w, r, hle, hr, rfl⟩ := h.word
  obtain ⟨n, rfl⟩ := Nat.exists_eq_succ_of_ne_zero (show r ≠ 0 by omega)
  rw [Nat.succ_eq_add_one] at hr ⊢
  rw [decReaders_word (by omega), incReaders_word (by omega), hasWrite_word (by omega),
    hasWrite_word hr]
  exact ⟨rfl, rfl⟩

/-- A worker waits at the first gate as long as there is a writer or no room. -/
theorem refused_gate1_of_jump (hj : Jump code now c x k y) (hk : k.refusedAt .gate1 = true) :
    (c.refusedAt .gate1 = true ∧ (∃ f, code c = .act f) ∧ y = x) ∨
      ¬(hasWrite y = false ∧ maxReaders y = false) := by
  refine (refused_of_jump hj hk).imp id ?_
  rintro ⟨⟨a, ha⟩, ho⟩ ⟨hw, hm⟩
  rw [opens_of_free ha hw hm] at ho
  cases ho

/-- **The first gate is a relay**, for one reader at a time. -/
theorem relay_gate1 : Relay code holds .gate1 () Known gate1Roles where
  waits c m d k hc := by
    obtain ⟨hr, _, _, _, ht⟩ := wait_gate hc
    exact ⟨rfl, hr, Or.inl (ht rfl)⟩
  refusedHolds c hr := by
    obtain ⟨a, hc, _⟩ := refusedAt_iff.mp hr
    exact holds_of_gate hc
  refuses hj _ hr := refused_gate1_of_jump hj hr
  guarded hj _ hf hn := holds_of_change hj fun he => hn (he ▸ hf)
  frees {now c x k y} hj hk hf hn := by
    have hne : y ≠ x := fun he => hn (he ▸ hf)
    obtain ⟨hw, hm⟩ := hf
    cases edit_of_jump hj hne with
    | setWrite d h | tryLock h =>
        rw [hk.hasWrite_setWrite] at hw
        cases hw
    | giveUp d h | unlock h => exact Or.inr rfl
    | incReaders d h => exact absurd hk.ready hn
    | tryLockShared h hw' hm' => exact absurd ⟨hw', hm'⟩ hn
    | decReaders h =>
        -- the counter leaves its maximum: one reader fills what is free
        obtain ⟨hsame, hinc⟩ := hk.decReaders hk.ready
        have hmax : maxReaders x = true := by
          by_contra hx
          exact hn ⟨hsame ▸ hw, by simpa using hx⟩
        have htight := congrArg maxReaders hinc
        rw [hmax] at htight
        refine Or.inl ⟨htight, Or.inl ?_⟩
        rw [hw, hmax]
        rfl
  owed {now c x k y} hj ho := by
    have ho : notifiesGate1 c = true := ho
    unfold notifiesGate1 at ho
    split at ho
    · cases hj with
      | unlock hc =>
          cases hc
          exact Or.inl rfl
      | _ hc => cases hc
    · cases hj with
      | act hc =>
          cases hc
          exact Or.inl rfl
      | _ hc => cases hc
    · cases hj with
      | notifyOne hc =>
          cases hc
          exact Or.inr rfl
      | _ hc => cases hc
    · cases ho
  owedAll {now c x k y} hj ho := by
    have ho : notifiesAllGate1 c = true := ho
    unfold notifiesAllGate1 at ho
    split at ho
    · cases hj with
      | unlock hc =>
          cases hc
          exact Or.inl rfl
      | _ hc => cases hc
    · cases hj with
      | notifyAll hc =>
          cases hc
          exact Or.inr rfl
      | _ hc => cases hc
    · cases hj with
      | unlock hc =>
          cases hc
          exact Or.inl rfl
      | _ hc => cases hc
    · cases hj with
      | notifyAll hc =>
          cases hc
          exact Or.inr rfl
      | _ hc => cases hc
    · cases ho
  takes {now c x k y} hj hk ht he hf := by
    obtain ⟨hw, hm⟩ := hf
    rcases he with ht | hp
    · -- the gate is open, so the test passes or goes on
      obtain ⟨a, ha, hr⟩ := gate_of_retests ht
      obtain ⟨d, inside, ret, hcode, _, _, hret⟩ := code_gate ha
      obtain ⟨hagain, hpass⟩ := hret rfl
      obtain ⟨rfl, _⟩ := Await.jump hcode hj
      have hopen := opens_of_free ha hw hm
      rcases Await.jump_refused hcode hj with rfl | ⟨b, rfl, hb⟩
      · rw [hopen]
        exact Or.inr hpass
      · refine Or.inl ?_
        rw [hagain]
        by_contra hx
        rcases hb (by simpa using hx) with h | ⟨h, _⟩
        · rw [hopen] at h
          cases h
        · rw [hr] at h
          cases h
    · -- a writer sets the flag, and a reader fills what is left
      cases goes_of_jump hj with
      | setWrite =>
          rw [hk.hasWrite_setWrite] at hw
          cases hw
      | incReaders =>
          have ht : maxReaders (incReaders x) = true := ht
          rw [hm] at ht
          cases ht
      | _ => cases hp

/--
No second reader leaves while somebody is still asleep: an `unlock_shared` that finds
room already, and no writer, finds nobody blocked at the first gate whom no
`notify_all` is going to reach.
-/
def RoomOk (s : State T Unit Gate SharedMutexState Ctl) (e : Event T Ctl) : Prop :=
  ∀ t, e = .step t → discounts s t = true → hasWrite s.data = false → maxReaders s.data = false →
    ∀ u, Asleep code s .gate1 u → OwedAll code gate1Roles .gate1 s u

/-- What was tight stays tight, as long as no second reader leaves. -/
theorem tight_step {s' : State T Unit Gate SharedMutexState Ctl} {e : Event T Ctl}
    (hr : (machine T).Reachable s) (hok : RoomOk s e) (hs : Step code s e s')
    (hf : gate1Roles.free s.data) (ht : gate1Roles.tight s.data) (hf' : gate1Roles.free s'.data) :
    gate1Roles.tight s'.data ∨
      ∀ u, Asleep code s .gate1 u → OwedAll code gate1Roles .gate1 s u := by
  by_cases hd : s'.data = s.data
  · rw [hd]
    exact Or.inl ht
  · obtain ⟨t, f, he, hc, hj, _⟩ := hs.jump_of_data hd
    have hk := known_reachable hr t
    obtain ⟨hw, hm⟩ := hf
    obtain ⟨hw', hm'⟩ := hf'
    have hedit := edit_of_jump hj hd
    generalize hct : s.ctl t = c at hedit hk
    generalize s'.ctl t = k at hedit
    generalize s'.data = y at hedit hd hw' hm'
    cases hedit with
    | setWrite d h | tryLock h =>
        rw [hk.hasWrite_setWrite] at hw'
        cases hw'
    | giveUp d h | unlock h => exact absurd (hk.unsetWrite_eq hw) hd
    | incReaders d h | tryLockShared h =>
        have ht : maxReaders (incReaders s.data) = true := ht
        rw [hm'] at ht
        cases ht
    | decReaders h =>
        -- the step that the condition is about
        refine Or.inr (hok t he ?_ hw hm)
        unfold discounts
        rw [hct]

/--
A sleeper at the first gate for whom there is room, and whom nobody is going to wake. What
a worker that has passed the gate is about to take does not count as room.
-/
structure StrandedAtGate1 (s : State T Unit Gate SharedMutexState Ctl) (t : T) : Prop where
  /-- It is blocked un-notified. -/
  asleep : Asleep code s .gate1 t
  /-- There is no writer. -/
  noWriter : hasWrite s.data = false
  /-- There is room for a reader. -/
  room : maxReaders s.data = false
  /-- Nobody is about to notify one waiter. -/
  noNotify : ∀ u, notifiesGate1 (s.ctl u) = false
  /-- Nobody is about to notify all waiters. -/
  noNotifyAll : ∀ u, notifiesAllGate1 (s.ctl u) = false
  /-- Nobody in a wait has been notified or has timed out. -/
  noRoused : ∀ u, ¬Roused code s .gate1 u
  /-- Nobody comes from a wait and is yet to test the gate again. -/
  noRetest : ∀ u, (s.ctl u).retests = false
  /-- Nobody has passed the gate and is about to take its place. -/
  calm : ∀ u, (s.ctl u).passed = false

/--
**Nobody is stranded at the first gate while readers leave one at a time.** A notification
goes to one waiter, and one is enough as long as one reader fills what is free.
-/
theorem gate1_not_stranded (h : (machine T).Reach RoomOk s) : ¬StrandedAtGate1 s t := by
  intro hs
  have hrelay := relayed_reachable relay_gate1 disciplined (fun _ _ => rfl)
    (fun s hs => known_reachable hs)
    (fun s e s' hr hok hs hf ht hf' => tight_step hr hok hs hf ht hf') h
  -- whoever is going to wake it is one of those that there are none of
  rcases hrelay t hs.asleep ⟨hs.noWriter, hs.room⟩ with
    ⟨u, hu, _⟩ | ⟨_, ⟨u, hu⟩ | ⟨u, hu | hu⟩ | ⟨u, _, hu⟩⟩
  · have hno := hs.noNotifyAll u
    rw [hu] at hno
    cases hno
  · have hno := hs.noNotify u
    rw [hu] at hno
    cases hno
  · have hno := hs.noRetest u
    rw [hu] at hno
    cases hno
  · have hno := hs.calm u
    rw [hu] at hno
    cases hno
  · exact hs.noRoused u hu

/-- While the owner is about to notify everybody at the first gate, a reader comes and leaves. -/
theorem gate1_not_stranded_run : ∃ s, (machine (Fin 3)).Reach RoomOk s ∧
    s.ctl 2 = .unlockShared {} (.leave false false false) ∧ Asleep code s .gate1 1 ∧
    hasWrite s.data = false ∧ maxReaders s.data = false ∧ ¬StrandedAtGate1 s 1 := by
  have hok : ∀ (s : State (Fin 3) Unit Gate SharedMutexState Ctl) (e : Event (Fin 3) Ctl),
      decide (∀ t, e = .step t → discounts s t = true → ∀ u, Asleep code s .gate1 u →
        ∃ w, notifiesAllGate1 (s.ctl w) = true ∧ s.phase w = .start) = true → RoomOk s e := by
    intro s e hall t he hd _ _ u hu
    obtain ⟨w, hw, hp⟩ := of_decide_eq_true hall t he hd u hu
    refine ⟨w, hw, fun rest hr => ?_⟩
    rw [hp, Cmd.scans_start] at hr
    cases hr
  obtain ⟨s, hr, hp⟩ := Lib.Machine.exists_reach_of_run (M := machine (Fin 3))
    (fun s e => decide (∀ t, e = .step t → discounts s t = true → ∀ u, Asleep code s .gate1 u →
      ∃ w, notifiesAllGate1 (s.ctl w) = true ∧ s.phase w = .start))
    (fun s => decide (s.ctl 2 = .unlockShared {} (.leave false false false) ∧
      Asleep code s .gate1 1 ∧ hasWrite s.data = false ∧ maxReaders s.data = false))
    hok (.init ⟨0, rfl⟩)
    (List.flatten [
      [.choose 0 (.tryLock {} .enter)], List.replicate 3 (.step 0),
      [.choose 1 (.lockShared none {} .enter)], List.replicate 5 (.step 1),
      [.choose 0 (.unlock { excl := true } .enter)], List.replicate 3 (.step 0),
      [.choose 2 (.tryLockShared {} .enter)], List.replicate 3 (.step 2),
      [.choose 2 (.unlockShared { shared := 1 } .enter)], List.replicate 2 (.step 2)])
    (by decide +kernel) (by decide +kernel)
  obtain ⟨hl, ha, hw, hm⟩ := of_decide_eq_true hp
  exact ⟨s, hr, hl, ha, hw, hm, gate1_not_stranded hr⟩

/-! ### Two readers leave, one waiter is notified -/

/-- The worker `t` holds `n` shared locks, and nothing else has happened. -/
def heldShared (t : T) (n : Nat) : State T Unit Gate SharedMutexState Ctl where
  ctl u := if u = t then .idle { shared := n } else .idle {}
  phase _ := .start
  info _ := {}
  owner _ := none
  waiters _ := []
  scanner _ := none
  data := word false n
  now := 0

omit [Fintype T] in
/-- The run of one `try_lock_shared`. -/
theorem heldShared_succ {n : Nat} (h : n < maxCount) :
    (machine T).run (heldShared t n)
      [.choose t (.tryLockShared { shared := n } .enter), .step t, .step t, .step t] =
        some (heldShared t (n + 1)) := by
  have hw : hasWrite (word false n) = false := hasWrite_word (Nat.le_of_lt h)
  have hm : maxReaders (word false n) = false := by
    rw [maxReaders_word (Nat.le_of_lt h), decide_eq_false_iff_not]
    omega
  simp [heldShared, Lib.Machine.run, Monitor.machine, next, cmdStep, code, tryLockSharedCode,
    Ctl.calls, State.goto, State.setOwner, hw, hm, incReaders_word h]
  funext u
  by_cases hu : u = t <;> simp [hu]

omit [Fintype T] in
theorem heldShared_reachable {n : Nat} (h : n ≤ maxCount) :
    (machine T).Reachable (heldShared t n) := by
  induction n with
  | zero =>
      refine .init ⟨0, ?_⟩
      unfold heldShared State.start
      congr
      funext u
      split <;> rfl
  | succ n ih =>
      exact Lib.Machine.reachable_of_run (ih (Nat.le_of_succ_le h)) _ (heldShared_succ h)

/--
Two readers wait because the counter is at its maximum. Two locks are given back, the
first one notifies the first waiter, which takes its place; the other waiter sleeps on
beside a free place.
-/
theorem gate1_stranded : ∃ s t, (machine (Fin 3)).Reachable s ∧ StrandedAtGate1 s t := by
  obtain ⟨s, hr, hp⟩ := Lib.Machine.exists_of_run (M := machine (Fin 3))
    (p := fun s => decide (Asleep code s .gate1 2 ∧ hasWrite s.data = false ∧
      maxReaders s.data = false ∧ (∀ u, notifiesGate1 (s.ctl u) = false) ∧
      (∀ u, notifiesAllGate1 (s.ctl u) = false) ∧ (∀ u, ¬Roused code s .gate1 u) ∧
      (∀ u, (s.ctl u).retests = false) ∧ ∀ u, (s.ctl u).passed = false))
    (heldShared_reachable (t := 0) (Nat.le_refl maxCount))
    (List.flatten [
      [.choose 1 (.lockShared none {} .enter)], List.replicate 6 (.step 1),
      [.choose 2 (.lockShared none {} .enter)], List.replicate 6 (.step 2),
      [.choose 0 (.unlockShared { shared := maxCount } .enter)], List.replicate 5 (.step 0),
      [.choose 0 (.unlockShared { shared := maxCount - 1 } .enter)], List.replicate 4 (.step 0),
      List.replicate 6 (.step 1)])
    (by decide +kernel)
  obtain ⟨ha, hw, hm, hn, hna, hro, hre, hpa⟩ := of_decide_eq_true hp
  exact ⟨s, 2, hr, ha, hw, hm, hn, hna, hro, hre, hpa⟩

end Ums.SharedMutex
