import Ums.Monitor.Steps

/-!
# Spinlocks and plain mutexes

`Spinlock::lock`, `Spinlock::try_lock`, `Spinlock::lock_with_timeout` and
`Plain_mutex::lock` as parts of a program, one access of the flag at a time: every load
and every exchange is a step of its own. How long a worker pauses between two attempts
concerns nobody else, and is left out.

Whatever program uses them, the flag is set exactly while one worker has the lock, if
every statement of the program is one of those that `Hold` lists (`Exclusive.step`).
-/

namespace Ums.Mutex

open Monitor

/-- A flag in the data of a program. -/
structure Flag (δ : Type) where
  /-- Its value. -/
  get : δ → BitVec 32
  /-- The data with another value. -/
  set : BitVec 32 → δ → δ
  /-- The value is the one last set. -/
  get_set : ∀ v x, get (set v x) = v

/-- `max_try` of `lock_with_timeout`. -/
def maxTry : Nat := 256

/-- The accesses of an attempt. -/
inductive SpinPoint where
  /-- `m_flag.load`. -/
  | load
  /-- `m_flag.exchange(1)`. -/
  | exchange
  deriving DecidableEq

/-- The statements of `Plain_mutex::lock`. -/
inductive PlainPoint where
  /-- `m_spinlock.lock_with_timeout`, after so many attempts. -/
  | timed (tries : Nat) (p : SpinPoint)
  /-- `m_spinlock.try_lock`. -/
  | retry (p : SpinPoint)
  /-- `worker::get()->yield`. -/
  | yield
  deriving DecidableEq

namespace Flag

variable {δ κ : Type} (f : Flag δ)

/-- The lock is taken. -/
def taken (x : δ) : Bool := f.get x != 0#32

/-- `Spinlock::try_lock`. -/
def tryLock (inside : SpinPoint → κ) (ret : Bool → κ) : SpinPoint → Cmd Empty Empty δ κ
  | .load => .act fun _ x => (x, if f.get x = 0#32 then inside .exchange else ret false)
  | .exchange => .act fun _ x => (f.set 1#32 x, ret (f.get x == 0#32))

/-- `Spinlock::lock_with_timeout`, after `tries` attempts. -/
def lockWithTimeout (inside : Nat → SpinPoint → κ) (ret : Bool → κ) (tries : Nat) :
    SpinPoint → Cmd Empty Empty δ κ
  | .load =>
    .act fun _ x =>
      (x, if f.get x = 0#32 then inside tries .exchange
        else if tries + 1 = maxTry then ret false else inside (tries + 1) .load)
  | .exchange =>
    .act fun _ x =>
      (f.set 1#32 x, if f.get x = 0#32 then ret true
        else if tries + 1 = maxTry then ret false else inside (tries + 1) .load)

/-- `Spinlock::lock`. -/
def spinLock (inside : SpinPoint → κ) (ret : κ) : SpinPoint → Cmd Empty Empty δ κ
  | .load => .act fun _ x => (x, if f.get x = 0#32 then inside .exchange else inside .load)
  | .exchange => .act fun _ x => (f.set 1#32 x, if f.get x = 0#32 then ret else inside .load)

/-- `Plain_mutex::lock`. -/
def plainLock (inside : PlainPoint → κ) (ret : κ) : PlainPoint → Cmd Empty Empty δ κ
  | .timed tries p =>
    f.lockWithTimeout (fun tries p => inside (.timed tries p))
      (fun r => if r then ret else inside (.retry .load)) tries p
  | .retry p => f.tryLock (fun p => inside (.retry p)) (fun r => if r then ret else inside .yield) p
  | .yield => .act fun _ x => (x, inside (.retry .load))

variable {f} {code : κ → Cmd Empty Empty δ κ} {now : Time} {c k : κ} {x y : δ}

@[simp] theorem taken_set_one (x : δ) : f.taken (f.set 1#32 x) = true := by
  rw [taken, f.get_set]
  rfl

@[simp] theorem taken_set_zero (x : δ) : f.taken (f.set 0#32 x) = false := by
  rw [taken, f.get_set]
  rfl

theorem taken_eq_false : f.taken x = false ↔ f.get x = 0#32 := by
  simp [taken]

/-- What an attempt does to the flag. -/
inductive Tries (f : Flag δ) (x y : δ) : Bool → Prop
  /-- The worker has found the flag clear, and has set it. -/
  | won (hx : f.taken x = false) (hy : y = f.set 1#32 x) : Tries f x y true
  /-- It has found it set, or has only looked. -/
  | lost (hy : y = x ∨ (f.taken x = true ∧ y = f.set 1#32 x)) : Tries f x y false

/-- The flag says that the lock is taken, as it did before, or since now. -/
theorem Tries.taken {r : Bool} (h : Tries f x y r) : f.taken y = (f.taken x || r) := by
  cases h with
  | won hx hy => rw [hy, taken_set_one, Bool.or_true]
  | lost hy =>
      rcases hy with rfl | ⟨hx, rfl⟩
      · rw [Bool.or_false]
      · rw [taken_set_one, hx, Bool.true_or]

/-- Nothing but the flag changes. -/
theorem Tries.same {α : Type} {r : Bool} {g : δ → α} (hg : ∀ v x, g (f.set v x) = g x)
    (h : Tries f x y r) : g y = g x := by
  cases h with
  | won hx hy => rw [hy, hg]
  | lost hy =>
      rcases hy with rfl | ⟨_, rfl⟩
      · rfl
      · rw [hg]

/-- **`try_lock` returns `true` exactly when it has set the flag.** -/
theorem tryLock_jump {inside : SpinPoint → κ} {ret : Bool → κ} {p : SpinPoint}
    (hc : code c = f.tryLock inside ret p) (hj : Jump code now c x k y) :
    (∃ q, k = inside q ∧ Tries f x y false) ∨ ∃ r, k = ret r ∧ Tries f x y r := by
  cases p with
  | load =>
      cases hj with
      | act hc' =>
          rw [hc] at hc'
          cases hc'
          by_cases hx : f.get x = 0#32
          · exact Or.inl ⟨.exchange, if_pos hx, .lost (Or.inl rfl)⟩
          · exact Or.inr ⟨false, if_neg hx, .lost (Or.inl rfl)⟩
      | _ hc' => rw [hc] at hc'; cases hc'
  | exchange =>
      cases hj with
      | act hc' =>
          rw [hc] at hc'
          cases hc'
          refine Or.inr ⟨_, rfl, ?_⟩
          by_cases hx : f.get x = 0#32
          · rw [beq_iff_eq.mpr hx]
            exact .won (taken_eq_false.mpr hx) rfl
          · rw [beq_eq_false_iff_ne.mpr hx]
            exact .lost (Or.inr ⟨by simpa [Flag.taken] using hx, rfl⟩)
      | _ hc' => rw [hc] at hc'; cases hc'

/-- **`try_lock` returns `false` only when it has found the flag set.** -/
theorem tryLock_refused {inside : SpinPoint → κ} {ret : Bool → κ} {p : SpinPoint}
    (hc : code c = f.tryLock inside ret p) (hj : Jump code now c x k y) (hk : k = ret false)
    (hin : ∀ q, inside q ≠ ret false) (hret : ret true ≠ ret false) : f.taken x = true := by
  by_contra hn
  have hx : f.get x = 0#32 := taken_eq_false.mp (by simpa using hn)
  cases p with
  | load =>
      cases hj with
      | act hc' =>
          rw [hc] at hc'
          cases hc'
          exact hin _ (by rw [← hk]; exact (if_pos hx).symm)
      | _ hc' => rw [hc] at hc'; cases hc'
  | exchange =>
      cases hj with
      | act hc' =>
          rw [hc] at hc'
          cases hc'
          simp only [hx, beq_self_eq_true] at hk
          exact hret hk
      | _ hc' => rw [hc] at hc'; cases hc'

/-- A worker leaves `Spinlock::lock` when it has set the flag. -/
theorem spinLock_jump {inside : SpinPoint → κ} {ret : κ} {p : SpinPoint}
    (hc : code c = f.spinLock inside ret p) (hj : Jump code now c x k y) :
    (∃ q, k = inside q ∧ Tries f x y false) ∨ (k = ret ∧ Tries f x y true) := by
  cases p with
  | load =>
      cases hj with
      | act hc' =>
          rw [hc] at hc'
          cases hc'
          by_cases hx : f.get x = 0#32
          · exact Or.inl ⟨.exchange, if_pos hx, .lost (Or.inl rfl)⟩
          · exact Or.inl ⟨.load, if_neg hx, .lost (Or.inl rfl)⟩
      | _ hc' => rw [hc] at hc'; cases hc'
  | exchange =>
      cases hj with
      | act hc' =>
          rw [hc] at hc'
          cases hc'
          by_cases hx : f.get x = 0#32
          · exact Or.inr ⟨if_pos hx, .won (taken_eq_false.mpr hx) rfl⟩
          · exact Or.inl ⟨.load, if_neg hx, .lost (Or.inr ⟨by simpa [Flag.taken] using hx, rfl⟩)⟩
      | _ hc' => rw [hc] at hc'; cases hc'

/-- **So does `lock_with_timeout`.** -/
theorem lockWithTimeout_jump {inside : Nat → SpinPoint → κ} {ret : Bool → κ} {n : Nat}
    {p : SpinPoint} (hc : code c = f.lockWithTimeout inside ret n p) (hj : Jump code now c x k y) :
    (∃ n q, k = inside n q ∧ Tries f x y false) ∨ ∃ r, k = ret r ∧ Tries f x y r := by
  -- an attempt that was lost is followed by the next one or by the end of the loop
  have hagain : ∀ {y}, Tries f x y false →
      (∃ n' q, (if n + 1 = maxTry then ret false else inside (n + 1) .load) = inside n' q ∧
        Tries f x y false) ∨
      ∃ r, (if n + 1 = maxTry then ret false else inside (n + 1) .load) = ret r ∧
        Tries f x y r := by
    intro y hl
    by_cases hn : n + 1 = maxTry
    · exact Or.inr ⟨false, if_pos hn, hl⟩
    · exact Or.inl ⟨n + 1, .load, if_neg hn, hl⟩
  cases p with
  | load =>
      cases hj with
      | act hc' =>
          rw [hc] at hc'
          cases hc'
          simp only
          by_cases hx : f.get x = 0#32
          · rw [if_pos hx]
            exact Or.inl ⟨n, .exchange, rfl, .lost (Or.inl rfl)⟩
          · rw [if_neg hx]
            exact hagain (.lost (Or.inl rfl))
      | _ hc' => rw [hc] at hc'; cases hc'
  | exchange =>
      cases hj with
      | act hc' =>
          rw [hc] at hc'
          cases hc'
          simp only
          by_cases hx : f.get x = 0#32
          · rw [if_pos hx]
            exact Or.inr ⟨true, rfl, .won (taken_eq_false.mpr hx) rfl⟩
          · rw [if_neg hx]
            exact hagain (.lost (Or.inr ⟨by simpa [Flag.taken] using hx, rfl⟩))
      | _ hc' => rw [hc] at hc'; cases hc'

/-- A worker leaves `Plain_mutex::lock` when it has set the flag. -/
theorem plainLock_jump {inside : PlainPoint → κ} {ret : κ} {p : PlainPoint}
    (hc : code c = f.plainLock inside ret p) (hj : Jump code now c x k y) :
    (∃ q, k = inside q ∧ Tries f x y false) ∨ (k = ret ∧ Tries f x y true) := by
  cases p with
  | timed n p =>
      rw [plainLock] at hc
      rcases lockWithTimeout_jump hc hj with ⟨n, q, hk, hl⟩ | ⟨r, hk, ht⟩
      · exact Or.inl ⟨_, hk, hl⟩
      · cases r with
        | true => exact Or.inr ⟨hk, ht⟩
        | false => exact Or.inl ⟨_, hk, ht⟩
  | retry p =>
      rw [plainLock] at hc
      rcases tryLock_jump hc hj with ⟨q, hk, hl⟩ | ⟨r, hk, ht⟩
      · exact Or.inl ⟨_, hk, hl⟩
      · cases r with
        | true => exact Or.inr ⟨hk, ht⟩
        | false => exact Or.inl ⟨_, hk, ht⟩
  | yield =>
      cases hj with
      | act hc' =>
          rw [hc] at hc'
          cases hc'
          exact Or.inl ⟨_, rfl, .lost (Or.inl rfl)⟩
      | _ hc' => rw [hc] at hc'; cases hc'

end Flag

/-! ## One worker has the lock -/

section

variable {T δ κ : Type} [DecidableEq T] {code : κ → Cmd Empty Empty δ κ} {taken : δ → Bool}
  {owns : κ → Bool} {s s' : State T Empty Empty δ κ} {t u : T} {e : Event T κ}

/-- What a statement does to the flag and to its worker's hold of the lock. -/
inductive Hold (taken : δ → Bool) (owns : κ → Bool) (c : κ) (x : δ) (k : κ) (y : δ) : Prop
  /-- Nothing. -/
  | keeps (hy : taken y = taken x) (hk : owns k = owns c)
  /-- The worker acquires the lock. -/
  | acquires (hx : taken x = false) (hy : taken y = true) (hk : owns k = true)
  /-- The holder releases it. -/
  | releases (hc : owns c = true) (hy : taken y = false) (hk : owns k = false)

/-- The flag is set exactly while one worker has the lock. -/
structure Exclusive (taken : δ → Bool) (owns : κ → Bool) (s : State T Empty Empty δ κ) : Prop where
  /-- There is one holder at most. -/
  unique : ∀ t u, owns (s.ctl t) = true → owns (s.ctl u) = true → t = u
  /-- The flag says whether there is one. -/
  flag : taken s.data = true ↔ ∃ t, owns (s.ctl t) = true

omit [DecidableEq T] in
theorem Exclusive.nobody (h : Exclusive taken owns s) (hx : taken s.data = false) (u : T) :
    owns (s.ctl u) = false := by
  by_contra hu
  rw [h.flag.mpr ⟨u, by simpa using hu⟩] at hx
  cases hx

/-- **One statement** keeps the flag true. -/
theorem Exclusive.step
    (hJ : ∀ t, Jump code s.now (s.ctl t) s.data (s'.ctl t) s'.data →
      Hold taken owns (s.ctl t) s.data (s'.ctl t) s'.data)
    (hs : Step code s e s') (h : Exclusive taken owns s) : Exclusive taken owns s' := by
  rcases hs.jump with ⟨hc, hd⟩ | ⟨t, hc, hj⟩
  · refine ⟨fun u v => ?_, ?_⟩
    · rw [hc]
      exact h.unique u v
    · rw [hc, hd]
      exact h.flag
  · have hother : ∀ u, u ≠ t → s'.ctl u = s.ctl u := fun u hu => by
      rw [hc, Function.update_of_ne hu]
    cases hJ t hj with
    | keeps hy hk =>
        have hsame : ∀ u, owns (s'.ctl u) = owns (s.ctl u) := fun u => by
          by_cases hu : u = t
          · rw [hu, hk]
          · rw [hother u hu]
        refine ⟨fun u v => ?_, ?_⟩
        · rw [hsame, hsame]
          exact h.unique u v
        · rw [hy, h.flag]
          simp only [hsame]
    | acquires hx hy hk =>
        -- the flag was clear, so nobody owned the mutex before
        have hmine : ∀ u, owns (s'.ctl u) = true → u = t := fun u hu => by
          by_contra hne
          rw [hother u hne, h.nobody hx u] at hu
          cases hu
        refine ⟨fun u v hu hv => ?_, ?_⟩
        · rw [hmine u hu, hmine v hv]
        · rw [hy]
          simp only [true_iff]
          exact ⟨t, hk⟩
    | releases ho hy hk =>
        -- the only owner gives it up
        have hnone : ∀ u, owns (s'.ctl u) = false := fun u => by
          by_cases hu : u = t
          · rw [hu, hk]
          · rw [hother u hu]
            by_contra hne
            exact hu (h.unique u t (by simpa using hne) ho)
        refine ⟨fun u v hu => ?_, ?_⟩
        · rw [hnone u] at hu
          cases hu
        · rw [hy]
          simp [hnone]

omit [DecidableEq T] in
theorem exclusive_start {ctl : T → κ} {data : δ} {now : Time} (h0 : ∀ t, owns (ctl t) = false)
    (hd : taken data = false) :
    Exclusive taken owns (State.start ctl data now : State T Empty Empty δ κ) where
  unique t u ht := by
    have hno := h0 t
    cases hno.symm.trans ht
  flag := by
    simp [State.start, hd, h0]

end

end Ums.Mutex
