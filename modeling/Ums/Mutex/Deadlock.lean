import Ums.Mutex.Exclusion

/-!
# Who is told of a deadlock

`lock` compares `m_tid` with the caller's thread id before it goes for the spinlock, so a
worker that has the lock already is told so, if `m_tid` names it. `lock` stores the id once
it has the flag; `try_lock` only sets the flag. Whether `m_tid` names the holder depends on
the call that acquired the lock, which the state of the mutex does not say: the runs here
carry it along.
-/

namespace Ums.Mutex

open Monitor

variable {T : Type}

namespace Ctl

/-- The worker is in `try_lock`. -/
def inTryLock : Ctl T → Bool
  | .tryLock _ _ => true
  | _ => false

/-- The worker is in the spin or yield loop of `m_mtx.lock`. -/
def spins : Ctl T → Bool
  | .lock _ (.plain _) => true
  | _ => false

end Ctl

section

variable [DecidableEq T]

/-- What is known of every worker's last acquisition after a step: whether it was `try_lock`. -/
def noteAcquisition (s : State T Empty Empty (Data T) (Ctl T)) (_ : Event T (Ctl T))
    (s' : State T Empty Empty (Data T) (Ctl T)) (tried : T → Bool) (t : T) : Bool :=
  if (s.ctl t).owns = false ∧ (s'.ctl t).owns = true then (s'.ctl t).inTryLock else tried t

/-- The machine whose states say how every worker made its last acquisition. -/
abbrev noted (T : Type) [DecidableEq T] :
    Lib.Machine (State T Empty Empty (Data T) (Ctl T) × (T → Bool)) (Event T (Ctl T)) :=
  (machine T).track (fun _ => false) noteAcquisition

/-- The call that a worker makes, if it is one of `lock` while it has the mutex, finds the mutex
acquired by `lock`. -/
def RelocksLocked (p : State T Empty Empty (Data T) (Ctl T) × (T → Bool)) (e : Event T (Ctl T)) :
    Prop :=
  ∀ t h, e = .choose t (.lock h .tidLoad) → (p.1.ctl t).owns = true → p.2 t = false

variable {c k : Ctl T} {x y : Data T} {now : Time} {tried : Bool}

/-- What `m_tid` says of a worker's last acquisition. -/
def Named (x : Data T) (tried : Bool) (c : Ctl T) : Prop :=
  match c with
  | .lock _ .tidStore => tried = false ∧ x.tid = none
  | .unlock _ .flagStore => x.tid = none
  | c => c.owns = true → (x.tid = some c.caller.thisTid ↔ tried = false)

omit [DecidableEq T] in
/-- For a worker without the lock there is nothing to say. -/
theorem Named.of_free (hr : Ready x c) (h : c.owns = false) : Named x tried c := by
  have hno : ¬c.owns = true := by rw [h]; exact Bool.false_ne_true
  unfold Named
  split
  · exact absurd hr hno
  · exact absurd hr.1 hno
  · exact fun ho => absurd ho hno

/-- The holder's own statement. -/
theorem Named.jump (hj : Jump code now c x k y) (hc : c.owns = true) (hx : flag.taken x = true)
    (h : Named x tried c) : Named y tried k := by
  -- the flag is set, so no attempt succeeds
  have hlost : ¬Flag.Tries flag x y true := fun hw => by
    cases hw with
    | won hfree => rw [hx] at hfree; cases hfree
  cases goes_of_jump hj with
  | calls hk =>
      obtain ⟨hh, hr⟩ := calls_quiet (x := x) hk
      have hsame := h hc
      unfold Ctl.calls at hk
      split at hk
      case h_4 => cases hk
      all_goals
        cases hh
        exact fun _ => hsame
  | lockTakes hw | tryTakes hw => exact absurd hw hlost
  | lockOn hl | tryOn hl | tryFails hl =>
      have hsame := h hc
      have htid : y.tid = x.tid := hl.same fun _ _ => rfl
      intro _
      rw [htid]
      exact hsame
  | lockNames => exact fun _ => ⟨fun _ => h.1, fun _ => rfl⟩
  | lockRefused | lockEnter | lockThrows | tryLeave => exact fun _ => h hc
  | unlockTid => exact (rfl : _ = none)
  | unlockFlag =>
      intro ho
      cases ho

/-- A statement that acquires the lock. -/
theorem Named.acquired (hj : Jump code now c x k y) (hc : c.owns = false) (hk : k.owns = true)
    (hx : flag.taken x = false → x.tid = none) : Named y k.inTryLock k := by
  have hwon : Flag.Tries flag x y true → y.tid = none := fun hw => by
    rw [hw.same (g := Data.tid) fun _ _ => rfl]
    cases hw with
    | won hfree => exact hx hfree
  cases goes_of_jump hj with
  | calls hcall =>
      rw [Ctl.owns, (calls_quiet (x := x) hcall).1] at hk
      exact absurd (hk.symm.trans hc) Bool.noConfusion
  | lockTakes hw => exact ⟨rfl, hwon hw⟩
  | tryTakes hw =>
      intro _
      -- nobody is named, though the lock is taken
      rw [hwon hw]
      simp [Ctl.inTryLock]
  | unlockFlag => cases hk
  | _ => exact absurd (hk.symm.trans hc) Bool.noConfusion

omit [DecidableEq T] in
/-- What a worker knows of `m_tid` matters only while it has the lock. -/
theorem Named.transfer (hr : Ready x c) (h : Named x tried c)
    (ht : c.owns = true → y.tid = x.tid) : Named y tried c := by
  by_cases ho : c.owns = true
  · unfold Named at h ⊢
    rw [ht ho]
    exact h
  · have hfree : c.owns = false := by simpa using ho
    exact .of_free (hr.transfer ht) hfree

/-! ## Along a run -/

variable {s s' : State T Empty Empty (Data T) (Ctl T)} {t : T}
  {p p' : State T Empty Empty (Data T) (Ctl T) × (T → Bool)} {e : Event T (Ctl T)} {a : Caller T}

omit [DecidableEq T] in
/-- Who does not move has acquired nothing. -/
theorem noteAcquisition_same {f : T → Bool} (h : s'.ctl t = s.ctl t) :
    noteAcquisition s e s' f t = f t := by
  rw [noteAcquisition, h]
  refine if_neg fun ⟨hc, hk⟩ => ?_
  rw [hc] at hk
  cases hk

omit [DecidableEq T] in
theorem noteAcquisition_owned {f : T → Bool} (h : (s.ctl t).owns = true) :
    noteAcquisition s e s' f t = f t :=
  if_neg fun hn => Bool.noConfusion (h.symm.trans hn.1)

theorem named_reachable (h : (noted T).Reachable p) :
    ∀ t, Named p.1.data (p.2 t) (p.1.ctl t) := by
  refine Lib.Machine.Reach.invariant (I := fun p => ∀ t, Named p.1.data (p.2 t) (p.1.ctl t))
    ?_ ?_ h
  · rintro ⟨s, f⟩ ⟨⟨now, rfl⟩, -⟩ t
    exact fun ho => nomatch ho
  · intro p e p' hr _ hs hi u
    obtain ⟨hnext, hnote⟩ := Lib.Machine.track_next.mp hs
    have hl := locked_reachable hr.untrack
    have hl' := locked_reachable (hr.untrack.tail hnext)
    rw [hnote]
    rcases (step_of_next hnext).jump with ⟨hc, hd⟩ | ⟨t, hc, hj⟩
    · rw [noteAcquisition_same (congrFun hc u), hc, hd]
      exact hi u
    · by_cases hu : u = t
      · subst hu
        cases hown : (p.1.ctl u).owns with
        | true =>
            have hset : flag.taken p.1.data = true := hl.excl.flag.mpr ⟨u, hown⟩
            rw [noteAcquisition_owned hown]
            exact (hi u).jump hj hown hset
        | false =>
            cases hown' : (p'.1.ctl u).owns with
            | false => exact .of_free (hl'.ready u) hown'
            | true =>
                rw [noteAcquisition, if_pos ⟨hown, hown'⟩]
                refine .acquired hj hown hown' fun hx => ?_
                -- whoever `m_tid` names has set the flag
                cases htid : p.1.data.tid with
                | none => rfl
                | some v => exact absurd ((hl.tid v htid).symm.trans (hl.excl.nobody hx v)) nofun
      · have hstay : p'.1.ctl u = p.1.ctl u := by rw [hc, Function.update_of_ne hu]
        rw [noteAcquisition_same hstay, hstay]
        refine (hi u).transfer (hl.ready u) fun ho => ?_
        cases (change_of_jump hj (hl.ready t) fun ht => hl.tid t (by rwa [hl.me t] at ht)).1 with
        | quiet _ ht | acquire _ ht | release _ _ _ ht => exact ht
        | write hown => exact absurd (hl.excl.unique u t ho hown) hu

/-- **The comparison in `lock`, made by the holder**, comes out by how it acquired the lock. -/
theorem lock_by_holder (h : (noted T).Reachable p) (hc : p.1.ctl t = .lock a .tidLoad)
    (ho : a.owns = true) (hs : (machine T).next p.1 (.step t) = some s') :
    s'.data = p.1.data ∧
      s'.ctl t = if p.2 t then .lock a (.plain (.timed 0 .load)) else .lock a .threw := by
  have hnamed : Named p.1.data (p.2 t) (p.1.ctl t) := named_reachable h t
  rw [hc] at hnamed
  have hspec : p.1.data.tid = some a.thisTid ↔ p.2 t = false := hnamed ho
  have hact : code (p.1.ctl t) = lockCode a .tidLoad := by rw [hc]; rfl
  rw [lockCode] at hact
  have hnext : s' = ({ p.1 with data := p.1.data }.goto t
      (if p.1.data.tid = some a.thisTid then .lock a .threw
        else .lock a (.plain (.timed 0 .load)))) :=
    Option.some.inj (hs.symm.trans (next_act hact rfl))
  subst hnext
  refine ⟨rfl, ?_⟩
  rw [State.goto_ctl, Function.update_self]
  cases htried : p.2 t with
  | true =>
      rw [if_neg fun htid => ?_]
      · rfl
      · rw [hspec.mp htid] at htried
        cases htried
  | false =>
      rw [if_pos (hspec.mpr htried)]
      rfl

/-- A worker that is in `lock` with the mutex got it from `lock`, and does not spin. -/
def Heeded (p : State T Empty Empty (Data T) (Ctl T) × (T → Bool)) (t : T) : Prop :=
  ∀ a q, p.1.ctl t = .lock a q → a.owns = true → p.2 t = false ∧ (Ctl.lock a q).spins = false

/-- How a worker gets to a point of `lock` with the mutex. -/
theorem jump_to_lock {q : LockPoint} (hj : Jump code now c x (.lock a q) y) (ho : a.owns = true) :
    (c = .idle a ∧ q = .tidLoad) ∨
      (c = .lock a .tidLoad ∧
        q = if x.tid = some a.thisTid then .threw else .plain (.timed 0 .load)) ∨
      (∃ r, c = .lock a (.plain r)) ∨ (flag.taken x = false ∧ q = .tidStore) := by
  cases goes_of_jump hj with
  | calls hk =>
      cases q with
      | tidLoad =>
          cases of_decide_eq_true hk
          exact Or.inl ⟨rfl, rfl⟩
      | _ => cases hk
  | lockRefused ht => exact Or.inr (Or.inl ⟨rfl, (if_pos ht).symm⟩)
  | lockEnter ht => exact Or.inr (Or.inl ⟨rfl, (if_neg ht).symm⟩)
  | lockOn => exact Or.inr (Or.inr (Or.inl ⟨_, rfl⟩))
  | lockTakes hw =>
      cases hw with
      | won hx _ => exact Or.inr (Or.inr (Or.inr ⟨hx, rfl⟩))

/-- A worker in its own code moves when its caller says so. -/
theorem choose_of_idle {k : Ctl T} (hs : Step code s e s') (hc : s.ctl t = .idle a)
    (hk : s'.ctl t = k) (hne : k ≠ .idle a) : e = .choose t k := by
  have hw : e.worker = some t := by
    by_contra hn
    exact hne (by rw [← hk, hs.ctl_of_ne hn, hc])
  cases e with
  | choose u k' =>
      cases hw
      cases hs with
      | choose =>
          rw [State.goto_ctl, Function.update_self] at hk
          rw [hk]
  | step u =>
      cases hw
      have hcode : code (s.ctl t) = .choose (Ctl.calls a) := by rw [hc]; rfl
      cases hs with
      | act h | lock h | tryYes h | tryNo h | unlock h | link h | arm h | release h | park h
      | resume h | relock h | unlink h | doze h | fallAsleep h | awake h | notifyNone h
      | notifyOne h | scan h | scanOne h | scanEnd h =>
          rw [hcode] at h
          cases h
  | tick d => cases hw

/-- **Nobody spins on a mutex it has**, in a run that calls `lock` on top of `lock` only. -/
theorem heeded_reach (h : (noted T).Reach RelocksLocked p) : ∀ t, Heeded p t := by
  refine Lib.Machine.Reach.invariant (I := fun p => ∀ t, Heeded p t) ?_ ?_ h
  · rintro ⟨s, f⟩ ⟨⟨now, rfl⟩, -⟩ t a q hk
    cases hk
  · intro p e p' hr hok hs hi u a q hk ho
    obtain ⟨hnext, hnote⟩ := Lib.Machine.track_next.mp hs
    have hst : Step code p.1 e p'.1 := step_of_next hnext
    have hl := locked_reachable hr.untrack
    rw [hnote]
    by_cases hstay : p'.1.ctl u = p.1.ctl u
    · rw [noteAcquisition_same hstay]
      exact hi u a q (hstay ▸ hk) ho
    · rcases hst.jump with ⟨hc, _⟩ | ⟨t, hc, hj⟩
      · exact absurd (congrFun hc u) hstay
      · have htu : u = t := by
          by_contra hne
          exact hstay (by rw [hc, Function.update_of_ne hne])
        subst htu
        rw [hk] at hj
        rcases jump_to_lock hj ho with ⟨hcu, rfl⟩ | ⟨hcu, hq⟩ | ⟨r, hcu⟩ | ⟨hx, rfl⟩
        · have hown : (p.1.ctl u).owns = true := by
            rw [hcu]
            exact ho
          rw [noteAcquisition_owned hown]
          exact ⟨hok u a (choose_of_idle hst hcu hk nofun) hown, rfl⟩
        · have hown : (p.1.ctl u).owns = true := by
            rw [hcu]
            exact ho
          have htried := (hi u a .tidLoad hcu ho).1
          have hnamed : Named p.1.data (p.2 u) (p.1.ctl u) := named_reachable hr.reachable u
          rw [hcu] at hnamed
          -- the last acquisition was by `lock`, so `m_tid` names the worker
          have htid : p.1.data.tid = some a.thisTid := (hnamed ho).mpr htried
          rw [if_pos htid] at hq
          rw [noteAcquisition_owned hown, hq]
          exact ⟨htried, rfl⟩
        · cases (hi u a _ hcu ho).2
        · have hown' : (p'.1.ctl u).owns = true := by
            rw [hk]
            exact ho
          rw [noteAcquisition, if_pos ⟨hl.excl.nobody hx u, hown'⟩, hk]
          exact ⟨rfl, rfl⟩

/--
**Deadlock is detected after `lock`, and only then.** In any run, the comparison a holder makes
in `lock` throws exactly if the holder acquired the mutex by `lock`. So in every run in which a
worker that has the mutex calls `lock` only if it got it from `lock`, a holder in `lock` never
spins, the comparison makes it throw, and it leaves with the mutex.
-/
theorem lock_detects_deadlock :
    (∀ p, (noted T).Reachable p → ∀ t a, p.1.ctl t = .lock a .tidLoad → a.owns = true →
      ∀ s', (machine T).next p.1 (.step t) = some s' →
        (s'.ctl t = .lock a .threw ↔ p.2 t = false)) ∧
    ∀ p, (noted T).Reach RelocksLocked p → ∀ t, (p.1.ctl t).owns = true →
      (p.1.ctl t).spins = false ∧
      ∀ a s', (machine T).next p.1 (.step t) = some s' →
        (p.1.ctl t = .lock a .tidLoad → s'.ctl t = .lock a .threw ∧ s'.data = p.1.data) ∧
        (p.1.ctl t = .lock a .threw →
          s'.ctl t = .idle a ∧ (s'.ctl t).owns = true ∧ s'.data = p.1.data) := by
  refine ⟨fun p hp t a hc ho s' hs => ?_, fun p hp t ho => ⟨?_, fun a s' hs => ⟨fun hc => ?_,
    fun hc => ?_⟩⟩⟩
  · rw [(lock_by_holder hp hc ho hs).2]
    cases p.2 t with
    | true => exact ⟨nofun, nofun⟩
    | false => exact ⟨fun _ => rfl, fun _ => rfl⟩
  · cases hc : p.1.ctl t with
    | lock a q => exact (heeded_reach hp t a q hc (by rw [hc] at ho; exact ho)).2
    | _ => rfl
  · have hown : a.owns = true := by rw [hc] at ho; exact ho
    obtain ⟨hdata, hctl⟩ := lock_by_holder hp.reachable hc hown hs
    rw [(heeded_reach hp t a _ hc hown).1] at hctl
    exact ⟨hctl, hdata⟩
  · have hact : code (p.1.ctl t) = lockCode a .threw := by rw [hc]; rfl
    rw [lockCode] at hact
    have hnext := hs.symm.trans (next_act hact rfl)
    cases hnext
    rw [hc] at ho
    rw [State.goto_ctl, Function.update_self]
    exact ⟨rfl, ho, rfl⟩

/-- A worker that got the mutex by `try_lock` and calls `lock` spins on it. -/
theorem relock_after_tryLock_spins :
    ¬∀ s, (machine (Fin 1)).Reachable s → ∀ t, (s.ctl t).owns = true →
      (s.ctl t).spins = false := by
  intro hall
  obtain ⟨s, hr, hp⟩ := Lib.Machine.exists_of_run (M := machine (Fin 1))
    (p := fun s => (s.ctl 0).owns && (s.ctl 0).spins) (.init ⟨0, rfl⟩)
    [.choose 0 (.tryLock ⟨0, false⟩ (.spin .load)), .step 0, .step 0, .step 0,
      .choose 0 (.lock ⟨0, true⟩ .tidLoad), .step 0] (by decide +kernel)
  rw [Bool.and_eq_true] at hp
  rw [hall s hr 0 hp.1] at hp
  cases hp.2

/-- A worker calls `lock` twice, and is told. -/
theorem lock_detects_deadlock_run : ∃ p, (noted (Fin 1)).Reach RelocksLocked p ∧
    p.1.ctl 0 = .lock ⟨0, true⟩ .threw ∧
    ∀ s', (machine (Fin 1)).next p.1 (.step 0) = some s' → (s'.ctl 0).owns = true := by
  have hr0 : (noted (Fin 1)).Reach RelocksLocked
      (.start (fun t => .idle { thisTid := t }) {} 0, fun _ => false) := .init ⟨⟨0, rfl⟩, rfl⟩
  obtain ⟨p, hr, hp⟩ := Lib.Machine.exists_reach_of_run (M := noted (Fin 1))
    (fun p e => match e with
      | .choose t _ => !(p.1.ctl t).owns || !p.2 t
      | _ => true)
    (fun p => decide (p.1.ctl 0 = Ctl.lock ⟨0, true⟩ .threw))
    (fun p e he t h hc ho => by subst hc; simpa [ho] using he) hr0
    [.choose 0 (.lock ⟨0, false⟩ .tidLoad), .step 0, .step 0, .step 0, .step 0,
      .choose 0 (.lock ⟨0, true⟩ .tidLoad), .step 0] (by decide +kernel) (by decide +kernel)
  have hc := of_decide_eq_true hp
  refine ⟨p, hr, hc, fun s' hs => ?_⟩
  exact (((lock_detects_deadlock.2 p hr 0 (by rw [hc]; rfl)).2 ⟨0, true⟩ s' hs).2 hc).2.1

end

end Ums.Mutex
