import Ums.CondVarAny.Program
import Ums.Monitor.Announce
import Ums.Monitor.LockOrder
import Mathlib.Data.Fintype.Card

/-!
# `Condition_variable_any` releases and waits atomically

A waiter holds `*m_mtx` from before it gives up the user's lock until it is in the list of
`m_cv` with its flag cleared, and every notification passes `*m_mtx` first. The user's
lock is never asked for with `*m_mtx`.
-/

namespace Ums.CondVarAny

open Monitor

variable {T L D : Type}

namespace Ctl

/-- The worker. -/
def caller : Ctl T D → Caller T
  | .own h | .lock h | .unlock h | .change h _ | .wait h _ _ | .notifyOne h _ | .notifyAll h _ => h

/-- The worker has the user's lock. -/
def user : Ctl T D → Bool
  | .own h | .notifyOne h _ | .notifyAll h _ => h.locked
  | .lock _ => false
  | .unlock _ | .change _ _ => true
  | .wait _ _ .test | .wait _ _ .innerLock | .wait _ _ .userUnlock | .wait _ _ (.after _)
  | .wait _ _ .last => true
  | .wait .. => false

/-- The worker cannot go on without the user's lock. -/
def requests : Ctl T D → Bool
  | .lock _ | .wait _ _ (.userLock _) => true
  | _ => false

/-- The changes that the worker's `notify_all` was called after. -/
def stamp : Ctl T D → Nat
  | .notifyAll _ (.enter n) | .notifyAll _ (.leave n) | .notifyAll _ (.notify n)
  | .notifyAll _ (.returned n) => n
  | _ => 0

/-- That `notify_all` has passed `*m_mtx`. -/
def passed : Ctl T D → Bool
  | .notifyAll _ (.notify _) | .notifyAll _ (.returned _) => true
  | _ => false

/-- It has just returned. -/
def returned : Ctl T D → Bool
  | .notifyAll _ (.returned _) => true
  | _ => false

/-- The changes the worker had seen when it gave up the user's lock, while it waits for more. -/
def seen : Ctl T D → Option Nat
  | .wait _ _ (.clock n) | .wait _ _ (.body n) => some n
  | _ => none

/-- The worker is outside `wait_internal` and `notify_all`. -/
def Plain (c : Ctl T D) : Prop :=
  c.stamp = 0 ∧ c.passed = false ∧ c.returned = false ∧ c.seen = none

end Ctl

/-- What the data and the control points say about changes. -/
def stamps : Stamps (Data L D) (Ctl T D) where
  version := Data.version
  announced := Data.announced
  stamp := Ctl.stamp
  passed := Ctl.passed
  returned := Ctl.returned
  seen := Ctl.seen

section

variable [DecidableEq T] {b : BasicLockable T L} {c k : Ctl T D} {x y : Data L D} {now : Time}

/-- What a statement does to the data, and to its worker. -/
inductive Change (b : BasicLockable T L) (c : Ctl T D) (x : Data L D) (k : Ctl T D) :
    Data L D → Prop
  /-- Nothing. -/
  | quiet (hk : k.Plain) (hu : k.user = c.user) : Change b c x k x
  /-- It locks the user's lock. -/
  | userLock (l : L) (hl : b.lock c.caller.thisTid x.lock = some l) (hk : k.Plain)
      (hc : c.user = false) (hu : k.user = true) : Change b c x k { x with lock := l }
  /-- It unlocks the user's lock, and perhaps waits now. -/
  | userUnlock (hp : k.stamp = 0 ∧ k.passed = false ∧ k.returned = false)
      (hs : k.seen = none ∨ k.seen = some x.version) (hc : c.user = true) (hu : k.user = false) :
      Change b c x k { x with lock := b.unlock c.caller.thisTid x.lock }
  /-- It changes the value. -/
  | change (value : D) (hk : k.Plain) (hu : k.user = c.user) :
      Change b c x k { x with value := value, version := x.version + 1 }
  /-- It compares the clock, and waits. -/
  | clock (n : Nat) (hf : ∃ f, code b c = .act f)
      (hp : k.stamp = c.stamp ∧ k.passed = c.passed ∧ k.returned = false)
      (hs : c.seen = some n ∧ k.seen = some n) (hu : k.user = c.user) : Change b c x k x
  /-- It calls `notify_all`. -/
  | call (hn : k.stamp = x.version) (hp : k.passed = false ∧ k.returned = false ∧ k.seen = none)
      (hu : k.user = c.user) : Change b c x k x
  /-- It goes on in `notify_all`, and has passed the mutex only if it had it. -/
  | notifies (hn : k.stamp = c.stamp)
      (hp : k.passed = true → holds c () = true ∧ (code b c).waitsOn = none)
      (hr : k.returned = false ∧ k.seen = none) (hu : k.user = c.user) : Change b c x k x
  /-- It returns from going through the list. -/
  | returns (hc : code b c = .notifyAll () k) (hp : c.passed = true) (hn : k.stamp = c.stamp)
      (hk : k.seen = none) (hu : k.user = c.user) : Change b c x k x
  /-- What it announced is recorded. -/
  | record (hc : c.returned = true) (hk : k.Plain) (hu : k.user = c.user) :
      Change b c x k { x with announced := max x.announced c.stamp }

theorem calls_quiet {h : Caller T} (hk : k.calls h = true) :
    k.caller = h ∧ k.Plain ∧ k.user = h.locked := by
  unfold Ctl.calls at hk
  split at hk
  case h_1 =>
    simp only [Bool.and_eq_true, decide_eq_true_eq, Bool.not_eq_true'] at hk
    obtain ⟨rfl, hl⟩ := hk
    exact ⟨rfl, ⟨rfl, rfl, rfl, rfl⟩, hl.symm⟩
  case h_2 | h_3 =>
    simp only [Bool.and_eq_true, decide_eq_true_eq] at hk
    obtain ⟨rfl, hl⟩ := hk
    exact ⟨rfl, ⟨rfl, rfl, rfl, rfl⟩, hl.symm⟩
  case h_4 =>
    simp only [Bool.and_eq_true, decide_eq_true_eq] at hk
    obtain ⟨⟨rfl, hl⟩, rfl⟩ := hk
    refine ⟨rfl, ?_, ?_⟩
    · unfold Call.first
      split <;> exact ⟨rfl, rfl, rfl, rfl⟩
    · unfold Call.first
      split <;> exact hl.symm
  case h_5 | h_6 =>
    obtain rfl := of_decide_eq_true hk
    exact ⟨rfl, ⟨rfl, rfl, rfl, rfl⟩, rfl⟩
  case h_7 => cases hk

theorem change_of_wait {h : Caller T} {call : Call D} {p : WaitPoint}
    (hj : Jump (code b) now (.wait h call p) x k y) :
    Change b (.wait h call p) x k y ∧ k.caller.thisTid = h.thisTid := by
  cases p with
  | test =>
      cases hj with
      | act hc =>
          cases hc
          simp only
          split
          · exact ⟨.quiet ⟨rfl, rfl, rfl, rfl⟩ rfl, rfl⟩
          · exact ⟨.quiet ⟨rfl, rfl, rfl, rfl⟩ rfl, rfl⟩
      | _ hc => cases hc
  | innerLock =>
      cases hj with
      | lock hc => cases hc; exact ⟨.quiet ⟨rfl, rfl, rfl, rfl⟩ rfl, rfl⟩
      | _ hc => cases hc
  | userUnlock =>
      -- `wait_until` compares the clock next, `wait` goes straight on to `wait_internal`
      cases hj with
      | act hc =>
          cases hc
          simp only
          split
          · exact ⟨.userUnlock ⟨rfl, rfl, rfl⟩ (Or.inr rfl) rfl rfl, rfl⟩
          · exact ⟨.userUnlock ⟨rfl, rfl, rfl⟩ (Or.inr rfl) rfl rfl, rfl⟩
      | _ hc => cases hc
  | clock n =>
      cases hj with
      | act hc =>
          cases hc
          simp only
          split
          · exact ⟨.quiet ⟨rfl, rfl, rfl, rfl⟩ rfl, rfl⟩
          · exact ⟨.clock n ⟨_, rfl⟩ ⟨rfl, rfl, rfl⟩ ⟨rfl, rfl⟩ rfl, rfl⟩
      | _ hc => cases hc
  | body n =>
      cases hj with
      | wait hc =>
          cases hc
          split <;> exact ⟨.quiet ⟨rfl, rfl, rfl, rfl⟩ rfl, rfl⟩
      | _ hc => cases hc
  | status =>
      cases hj with
      | act hc => cases hc; exact ⟨.quiet ⟨rfl, rfl, rfl, rfl⟩ rfl, rfl⟩
      | _ hc => cases hc
  | innerUnlock timeout =>
      cases hj with
      | unlock hc => cases hc; exact ⟨.quiet ⟨rfl, rfl, rfl, rfl⟩ rfl, rfl⟩
      | _ hc => cases hc
  | userLock timeout =>
      cases hj with
      | act hc =>
          cases hc
          simp only
          split
          · rename_i l hl
            exact ⟨.userLock l hl ⟨rfl, rfl, rfl, rfl⟩ rfl rfl, rfl⟩
          · exact ⟨.quiet ⟨rfl, rfl, rfl, rfl⟩ rfl, rfl⟩
      | _ hc => cases hc
  | after timeout =>
      cases hj with
      | act hc =>
          cases hc
          -- a call without a predicate returns now
          simp only
          split
          · cases timeout <;> exact ⟨.quiet ⟨rfl, rfl, rfl, rfl⟩ rfl, rfl⟩
          · exact ⟨.quiet ⟨rfl, rfl, rfl, rfl⟩ rfl, rfl⟩
      | _ hc => cases hc
  | last =>
      cases hj with
      | act hc => cases hc; exact ⟨.quiet ⟨rfl, rfl, rfl, rfl⟩ rfl, rfl⟩
      | _ hc => cases hc

theorem change_of_notifyAll {h : Caller T} {p : AllPoint}
    (hj : Jump (code b) now (.notifyAll h p) x k y) :
    Change b (.notifyAll h p) x k y ∧ k.caller.thisTid = h.thisTid := by
  cases p with
  | call =>
      cases hj with
      | act hc => cases hc; exact ⟨.call rfl ⟨rfl, rfl, rfl⟩ rfl, rfl⟩
      | _ hc => cases hc
  | enter n =>
      cases hj with
      | lock hc => cases hc; exact ⟨.notifies rfl nofun ⟨rfl, rfl⟩ rfl, rfl⟩
      | _ hc => cases hc
  | leave n =>
      cases hj with
      | unlock hc =>
          cases hc
          exact ⟨.notifies rfl (fun _ => ⟨rfl, rfl⟩) ⟨rfl, rfl⟩ rfl, rfl⟩
      | _ hc => cases hc
  | notify n =>
      cases hj with
      | notifyAll hc => cases hc; exact ⟨.returns rfl rfl rfl rfl rfl, rfl⟩
      | _ hc => cases hc
  | returned n =>
      cases hj with
      | act hc => cases hc; exact ⟨.record rfl ⟨rfl, rfl, rfl, rfl⟩ rfl, rfl⟩
      | _ hc => cases hc

/-- **Every statement makes one of the changes.** -/
theorem change_of_jump (hj : Jump (code b) now c x k y) :
    Change b c x k y ∧ k.caller.thisTid = c.caller.thisTid := by
  cases c with
  | own h =>
      cases hj with
      | choose hc hk =>
          cases hc
          obtain ⟨hh, hp, hu⟩ := calls_quiet hk
          exact ⟨.quiet hp hu, congrArg Caller.thisTid hh⟩
      | _ hc => cases hc
  | lock h =>
      cases hj with
      | act hc =>
          cases hc
          simp only
          split
          · rename_i l hl
            exact ⟨.userLock l hl ⟨rfl, rfl, rfl, rfl⟩ rfl rfl, rfl⟩
          · exact ⟨.quiet ⟨rfl, rfl, rfl, rfl⟩ rfl, rfl⟩
      | _ hc => cases hc
  | unlock h =>
      cases hj with
      | act hc => cases hc; exact ⟨.userUnlock ⟨rfl, rfl, rfl⟩ (Or.inl rfl) rfl rfl, rfl⟩
      | _ hc => cases hc
  | change h value =>
      cases hj with
      | act hc => cases hc; exact ⟨.change value ⟨rfl, rfl, rfl, rfl⟩ rfl, rfl⟩
      | _ hc => cases hc
  | wait h call p => exact change_of_wait hj
  | notifyOne h p =>
      cases p with
      | enter =>
          cases hj with
          | lock hc => cases hc; exact ⟨.quiet ⟨rfl, rfl, rfl, rfl⟩ rfl, rfl⟩
          | _ hc => cases hc
      | leave =>
          cases hj with
          | unlock hc => cases hc; exact ⟨.quiet ⟨rfl, rfl, rfl, rfl⟩ rfl, rfl⟩
          | _ hc => cases hc
      | notify =>
          cases hj with
          | notifyOne hc => cases hc; exact ⟨.quiet ⟨rfl, rfl, rfl, rfl⟩ rfl, rfl⟩
          | _ hc => cases hc
  | notifyAll h p => exact change_of_notifyAll hj

/-- **Notifications pass the mutex of the waiters.** -/
theorem announces : Announces (code (D := D) b) holds () () stamps where
  version {now c x k y} hj := by
    show x.version ≤ y.version
    cases (change_of_jump hj).1 with
    | change => exact Nat.le_succ _
    | _ => exact Nat.le_refl _
  stamps {now c x k y} hj := by
    show k.stamp ≤ c.stamp ∨ k.stamp ≤ y.version
    cases (change_of_jump hj).1 with
    | quiet hk | userLock _ _ hk | userUnlock hk | change _ hk | record _ hk =>
        rw [hk.1]
        exact Or.inl (Nat.zero_le _)
    | clock _ _ hp => exact Or.inl (Nat.le_of_eq hp.1)
    | call hn => exact Or.inr (Nat.le_of_eq hn)
    | notifies hn | returns _ _ hn => exact Or.inl (Nat.le_of_eq hn)
  announces {now c x k y} hj := by
    show y.announced ≤ x.announced ∨ (c.returned = true ∧ y.announced ≤ max x.announced c.stamp)
    cases (change_of_jump hj).1 with
    | record hc => exact Or.inr ⟨hc, Nat.le_refl _⟩
    | _ => exact Or.inl (Nat.le_refl _)
  returns {now c x k y} hj hk := by
    have hret : k.returned = true := hk
    cases (change_of_jump hj).1 with
    | returns hc _ hn => exact ⟨hc, hn⟩
    | quiet hp | userLock _ _ hp | change _ hp | record _ hp =>
        rw [hp.2.2.1] at hret
        cases hret
    | userUnlock hp | clock _ _ hp =>
        rw [hp.2.2] at hret
        cases hret
    | call _ hp =>
        rw [hp.2.1] at hret
        cases hret
    | notifies _ _ hp =>
        rw [hp.1] at hret
        cases hret
  passes {now c x k y} hj hk := by
    have hpass : k.passed = true := hk
    cases (change_of_jump hj).1 with
    | returns _ hp hn => exact Or.inl ⟨hp, hn⟩
    | clock _ _ hp =>
        rw [hp.2.1] at hpass
        exact Or.inl ⟨hpass, hp.1⟩
    | notifies _ hp => exact Or.inr (hp hpass)
    | quiet hp | userLock _ _ hp | userUnlock hp | change _ hp | record _ hp =>
        rw [hp.2.1] at hpass
        cases hpass
    | call _ hp =>
        rw [hp.1] at hpass
        cases hpass
  scans c k hc := by
    cases c with
    | wait h call p | notifyOne h p => cases p <;> cases hc
    | notifyAll h p =>
        cases p with
        | notify n => rfl
        | _ => cases hc
    | _ => cases hc
  returned c hc := by
    have hret : c.returned = true := hc
    unfold Ctl.returned at hret
    split at hret
    · rfl
    · cases hret
  sees {now c x k y n} hj hk := by
    have hsn : k.seen = some n := hk
    cases (change_of_jump hj).1 with
    | userUnlock _ hs =>
        rcases hs with hs | hs
        · -- it does not wait
          rw [hs] at hsn
          cases hsn
        · exact Or.inl (Option.some.inj (hsn.symm.trans hs))
    | clock n' hf hp hs =>
        obtain rfl := Option.some.inj (hsn.symm.trans hs.2)
        exact Or.inr ⟨hs.1, hf, hp.2.1, hp.1⟩
    | quiet hp | userLock _ _ hp | change _ hp | record _ hp =>
        rw [hp.2.2.2] at hsn
        cases hsn
    | call _ hp =>
        rw [hp.2.2] at hsn
        cases hsn
    | notifies _ _ hp =>
        rw [hp.2] at hsn
        cases hsn
    | returns _ _ _ hp =>
        rw [hp] at hsn
        cases hsn
  seen c n hc := by
    have hsn : c.seen = some n := hc
    unfold Ctl.seen at hsn
    split at hsn
    · rfl
    · rfl
    · cases hsn

/-! ## The user's lock -/

variable {s s' : State T Unit Unit (Data L D) (Ctl T D)} {t u : T} {e : Event T (Ctl T D)}
  {value : D}

/-- Who has the user's lock. -/
structure UserLocked (b : BasicLockable T L)
    (s : State T Unit Unit (Data L D) (Ctl T D)) : Prop where
  /-- Everybody knows who it is. -/
  me : ∀ t, (s.ctl t).caller.thisTid = t
  /-- The control point of a worker says whether it has the user's lock. -/
  has : ∀ t, b.has t s.data.lock = (s.ctl t).user

theorem UserLocked.step (hs : Step (code b) s e s') (h : UserLocked b s) : UserLocked b s' := by
  have hme : ∀ u, (s'.ctl u).caller.thisTid = u := by
    refine hs.forall_ctl (Q := fun u (c : Ctl T D) _ => c.caller.thisTid = u) (fun t hj => ?_)
      (fun _ _ _ _ hme => hme) h.me
    rw [(change_of_jump hj).2, h.me]
  have hhas : ∀ u, b.has u s'.data.lock = (s'.ctl u).user := by
    refine hs.forall_ctl (Q := fun u (c : Ctl T D) (x : Data L D) => b.has u x.lock = c.user)
      (fun t hj => ?_) (fun t u hu hj hhas => ?_) h.has
    · have hmine := h.has t
      have hch := (change_of_jump hj).1
      generalize s'.data = y at hch ⊢
      cases hch with
      | quiet _ hu | change _ _ hu | clock _ _ _ _ hu | call _ _ hu | notifies _ _ _ hu
      | returns _ _ _ _ hu | record _ _ hu =>
          rw [hu]
          exact hmine
      | userLock l hl _ hcu hku =>
          rw [h.me] at hl
          rw [hku]
          exact (b.has_lock t _ l (hmine.trans hcu) hl).1
      | userUnlock _ _ hcu hku =>
          rw [hku, h.me]
          exact (b.has_unlock t s.data.lock (hmine.trans hcu)).1
    · -- nobody else gets the lock, or loses it
      have hmine := h.has t
      have hch := (change_of_jump hj).1
      rw [← hhas]
      generalize s'.data = y at hch ⊢
      cases hch with
      | quiet | change | clock | call | notifies | returns | record => rfl
      | userLock l hl _ hcu =>
          rw [h.me] at hl
          exact (b.has_lock t _ l (hmine.trans hcu) hl).2 u hu
      | userUnlock _ _ hcu =>
          rw [h.me]
          exact (b.has_unlock t s.data.lock (hmine.trans hcu)).2 u hu
  exact ⟨hme, hhas⟩

theorem userLocked_reachable (h : (machine b value).Reachable s) : UserLocked b s := by
  refine Lib.Machine.Reach.invariant ?_ ?_ h
  · rintro s ⟨now, rfl⟩
    exact ⟨fun _ => rfl, fun t => b.has_init t⟩
  · intro s e s' _ _ hs hi
    exact hi.step (step_of_next hs)

/-! ## The two locks -/

/-- The two locks. -/
inductive Lock where
  /-- The user's. -/
  | user
  /-- `*m_mtx`. -/
  | inner

/-- The user's lock comes before `*m_mtx`. -/
def Lock.rank : Lock → Bool
  | .user => false
  | .inner => true

/-- Who has which of the two locks, and who waits for which. -/
def twoLocks (b : BasicLockable T L) (s : State T Unit Unit (Data L D) (Ctl T D)) :
    Lib.Locks T Lock where
  holds
    | t, .user => b.has t s.data.lock = true
    | t, .inner => s.owner () = some t
  wants
    | t, .user => (s.ctl t).requests = true
    | t, .inner => (code b (s.ctl t)).locking (s.phase t) = some ()

omit [DecidableEq T] in
/-- Whoever asks for the user's lock has neither of the two. -/
theorem requests_none (hc : c.requests = true) : c.user = false ∧ holds c () = false := by
  unfold Ctl.requests at hc
  split at hc
  · exact ⟨rfl, rfl⟩
  · exact ⟨rfl, rfl⟩
  · cases hc

theorem owner_of_requests (hg : Guarded (code b) holds s) (hr : (s.ctl t).requests = true) :
    s.owner () ≠ some t := by
  intro ho
  have hh := (hg () t).mp ho
  rw [Holding, (requests_none hr).2] at hh
  cases hh

theorem ascends (c : Ctl T D) : (code b c).Ascends (fun _ => 0) (holds c) := by
  cases c with
  | wait h call p =>
      cases p with
      | innerLock => exact nofun
      | body => exact fun _ _ hne => absurd rfl hne
      | _ => trivial
  | notifyOne h p =>
      cases p with
      | enter => exact nofun
      | _ => trivial
  | notifyAll h p =>
      cases p with
      | enter => exact nofun
      | _ => trivial
  | _ => trivial

theorem twoLocks_ordered (hg : Guarded (code b) holds s) (hu : UserLocked b s) :
    (twoLocks b s).Ordered Lock.rank := by
  intro t l m hw hh
  cases l with
  | user =>
      have hno := requests_none hw
      cases m with
      | user =>
          have hhas : b.has t s.data.lock = true := hh
          rw [hu.has, hno.1] at hhas
          cases hhas
      | inner => exact absurd hh (owner_of_requests hg hw)
  | inner =>
      cases m with
      | user => exact rfl
      | inner => exact absurd (hg.ordered ascends t () () hw hh) (Nat.lt_irrefl _)

/-! ## Atomic release and wait -/

/-- A worker comes back from a wait with the user's lock. -/
theorem locked_of_jump {h h' : Caller T} {call : Call D} {p : WaitPoint}
    (hj : Jump (code b) now (.wait h call p) x (.own h') y) : h'.locked = true := by
  generalize hk : (Ctl.own h' : Ctl T D) = k at hj
  cases p with
  | test | after =>
      cases hj with
      | act hc =>
          cases hc
          simp only at hk
          split at hk <;> cases hk
          rfl
      | _ hc => cases hc
  | last => cases hj with | act hc => cases hc; cases hk; rfl | _ hc => cases hc
  | status => cases hj with | act hc => cases hc; cases hk | _ hc => cases hc
  | innerLock => cases hj with | lock hc => cases hc; cases hk | _ hc => cases hc
  | userUnlock | clock | userLock =>
      cases hj with
      | act hc =>
          cases hc
          simp only at hk
          split at hk <;> cases hk
      | _ hc => cases hc
  -- none of the others returns
  | body => cases hj with | wait hc => cases hc; cases hk | _ hc => cases hc
  | innerUnlock => cases hj with | unlock hc => cases hc; cases hk | _ hc => cases hc

/-- A worker in `m_cv` is in its list from its `add_waiter` on. -/
theorem listed_of_seen (hl : Listed (code b) s) {n : Nat} (hs : (s.ctl t).seen = some n)
    (hp : (s.phase t).enters = false) : t ∈ s.waiters () := by
  rw [hl.mem]
  have hf := hl.fits t
  unfold Ctl.seen at hs
  split at hs
  · -- a worker that compares the clock is about to enter
    rename_i hc
    obtain ⟨f, hact⟩ : ∃ f, code b (s.ctl t) = .act f := by
      rw [hc]
      exact ⟨_, rfl⟩
    have hst := hl.at_start hact fun p hp => by cases p <;> first | rfl | cases hp
    rw [hst] at hp
    cases hp
  · rename_i hc
    rw [hc] at hf ⊢
    -- after `start` the phases of a wait are those with a place in the list
    cases hph : s.phase t with
    | start | linked | armed =>
        rw [hph] at hp
        cases hp
    | released | parked | resumed | relocked => rfl
    | dozing | asleep | scanning =>
        rw [hph] at hf
        cases hf
  · cases hs

/--
**`Condition_variable_any` releases and waits atomically.** Let a worker have given up the
user's lock in a wait when there had been `n` changes. When a `notify_all` called after more
changes has passed `*m_mtx`, the worker is in the list of `m_cv` and has cleared its flag
for good; and as long as it is blocked and not notified, no such `notify_all` has returned,
or gone past it in the list. A worker that comes back from a wait has the user's lock and
not `*m_mtx`; nobody asks for the user's lock with `*m_mtx`, and no set of workers is
deadlocked on the two.
-/
theorem releases_and_waits_atomically (h : (machine b value).Reachable s) :
    (∀ t n, (s.ctl t).seen = some n →
      (∀ u, (s.ctl u).passed = true → n < (s.ctl u).stamp →
        t ∈ s.waiters () ∧ (s.phase t).enters = false) ∧
      (Asleep (code b) s () t → s.data.announced ≤ n ∧ ∀ u, n < (s.ctl u).stamp →
        (s.ctl u).returned = false ∧
          ∀ rest, (code b (s.ctl u)).scans (s.phase u) = some ((), rest) → t ∈ rest)) ∧
    (∀ t e s' h call p h', (machine b value).next s e = some s' → s.ctl t = .wait h call p →
      s'.ctl t = .own h' → b.has t s'.data.lock = true ∧ s'.owner () ≠ some t) ∧
    (∀ t, (s.ctl t).requests = true → s.owner () ≠ some t) ∧
    ∀ S, ¬(twoLocks b s).Deadlocked S := by
  have hl : Listed (code b) s := listed_reachable h
  have hg : Guarded (code b) holds s := guarded_reachable (disciplined b) (fun _ _ => rfl) h
  have hu := userLocked_reachable h
  have ha : Announced (code b) stamps () s :=
    announced_reachable announces (disciplined b) (fun _ _ => rfl) (fun _ => Nat.zero_le _)
      (Nat.zero_le _) h
  refine ⟨fun t n hs => ⟨fun u hp hn => ?_, fun hsleep => ha.owed t n hs hsleep⟩,
    fun t e s' h₀ call p h' hs hc hc' => ?_, fun t hr => owner_of_requests hg hr,
    fun S => (twoLocks_ordered hg hu).not_deadlocked S⟩
  · -- while it still has `*m_mtx`, no later `notify_all` has passed it
    have hen : (s.phase t).enters = false := by
      by_contra hen
      have hle := (ha.unpassed t n hs (by simpa using hen)).2 u hp
      have hle' : (s.ctl u).stamp ≤ n := hle
      omega
    exact ⟨listed_of_seen hl hs hen, hen⟩
  · have hr' := h.tail hs
    have hlocked : h'.locked = true := by
      cases (step_of_next hs).moves t with
      | stays hsame | inside hsame =>
          rw [hc', hc] at hsame
          cases hsame
      | jumps hj =>
          rw [hc, hc'] at hj
          exact locked_of_jump hj
    refine ⟨?_, fun ho => ?_⟩
    · rw [(userLocked_reachable hr').has, hc']
      exact hlocked
    · have hg' : Guarded (code b) holds s' := guarded_reachable (disciplined b) (fun _ _ => rfl) hr'
      have hh := (hg' () t).mp ho
      rw [Holding, hc'] at hh
      cases hh

/-- A mutex as the user's lock. -/
def mutex (T : Type) [DecidableEq T] : BasicLockable T (Option T) where
  init := none
  lock t x := if x = none then some (some t) else none
  unlock _ _ := none
  has t x := decide (x = some t)
  has_init _ := rfl
  has_lock t x y _ hy := by
    split at hy
    · rename_i hx
      cases hy
      refine ⟨decide_eq_true rfl, fun u hu => ?_⟩
      rw [hx, decide_eq_false (fun he => hu (Option.some.inj he).symm)]
      rfl
    · cases hy
  has_unlock t x hx := by
    refine ⟨rfl, fun u hu => ?_⟩
    rw [of_decide_eq_true hx, decide_eq_false (fun he => hu (Option.some.inj he).symm)]
    rfl

/-- A worker is blocked; another one, which has changed the data since, is about to notify it. -/
theorem releases_and_waits_atomically_run : ∃ s, (machine (mutex (Fin 2)) false).Reachable s ∧
    (s.ctl 0).seen = some 0 ∧ (s.ctl 1).stamp = 1 ∧ 0 ∈ s.waiters () ∧
    (s.phase 0).enters = false ∧ s.data.announced = 0 ∧
    ¬(twoLocks (mutex (Fin 2)) s).Deadlocked Set.univ := by
  obtain ⟨s, hr, hp⟩ := Lib.Machine.exists_of_run (M := machine (mutex (Fin 2)) false)
    (p := fun s => decide ((s.ctl 0).seen = some 0 ∧ Asleep (code (mutex (Fin 2))) s () 0 ∧
      (s.ctl 1).passed = true ∧ (s.ctl 1).stamp = 1))
    (.init ⟨0, rfl⟩)
    (List.flatten [
      [.choose 0 (.lock ⟨0, false⟩), .step 0, .choose 0 (.wait ⟨0, true⟩ .wait .innerLock)],
      List.replicate 6 (.step 0),
      [.choose 1 (.lock ⟨1, false⟩), .step 1, .choose 1 (.change ⟨1, true⟩ true), .step 1,
        .choose 1 (.unlock ⟨1, true⟩), .step 1, .choose 1 (.notifyAll ⟨1, false⟩ .call)],
      List.replicate 3 (.step 1)]) (by decide +kernel)
  obtain ⟨hseen, hsleep, hpassed, hstamp⟩ := of_decide_eq_true hp
  obtain ⟨hwaits, -, -, hfree⟩ := releases_and_waits_atomically hr
  obtain ⟨hlate, howed⟩ := hwaits 0 0 hseen
  obtain ⟨hmem, hen⟩ := hlate 1 hpassed (by omega)
  exact ⟨s, hr, hseen, hstamp, hmem, hen, Nat.le_zero.mp (howed hsleep).1, hfree Set.univ⟩

end

end Ums.CondVarAny
