import Ums.Monitor.Discipline

/-!
# Predicate waits and the most general client

`Await` is the text of `Condition_variable::wait` and `wait_until` with a predicate.

`Client` is every program that uses one condition variable with one `Mutex` as it is
meant to be used: at each moment a worker may lock, try to lock, unlock, change the
data while it holds the mutex, wait for any predicate with or without a deadline
while it holds it, notify one or all waiters whether it holds it or not, or sleep.
The data carry the number of changes made so far: a waiter notes that number when
its predicate is false, and a notifier notes the number of its last change.
-/

namespace Ums.Monitor

/-! ## `wait` and `wait_until` with a predicate -/

/-- Where a worker is inside a predicate wait; `σ` is what it notes when its predicate is false. -/
inductive Await (σ : Type) where
  /-- `while (!pred())`. -/
  | test
  /-- `wait_until`, about to compare the clock with the deadline. -/
  | clock (seen : σ)
  /-- `wait_internal`. -/
  | body (seen : σ)
  /-- `wait_until_internal`, about to compare the clock with the deadline. -/
  | after
  /-- `return pred()`, after a time-out. -/
  | last
  deriving DecidableEq

/--
The command at each point of a predicate wait on `v` with the mutex `m`: without a
deadline it is `wait(lock, pred)`, with one `wait_until(lock, t, pred)`. The worker
goes on inside the wait at `inside`, and after it at `ret` of the result.
-/
def Await.code {μ γ δ κ σ : Type} (v : γ) (m : μ) (pred : δ → Bool) (deadline : Option Time)
    (note : δ → σ) (inside : Await σ → κ) (ret : Bool → κ) : Await σ → Cmd μ γ δ κ
  | .test =>
    .act fun _ x =>
      (x, if pred x then ret true
        else inside (if deadline.isSome then .clock (note x) else .body (note x)))
  | .clock seen =>
    .act fun now x =>
      (x, inside (if now ≥ deadline.getD Time.max then .last else .body seen))
  | .body _ =>
    .wait v m (deadline.getD Time.max) (inside (if deadline.isSome then .after else .test))
  | .after => .act fun now x => (x, inside (if now ≥ deadline.getD Time.max then .last else .test))
  | .last => .act fun _ x => (x, ret (pred x))

/-- A predicate wait ends with the mutexes it began with, the one it waits with among them. -/
theorem Await.keeps {μ γ δ κ σ : Type} [DecidableEq μ] {v : γ} {m : μ} {pred : δ → Bool}
    {deadline : Option Time} {note : δ → σ} {inside : Await σ → κ} {ret : Bool → κ}
    (holds : κ → μ → Bool) (h : μ → Bool) (hm : h m = true) (hi : ∀ b, holds (inside b) = h)
    (hr : ∀ r, holds (ret r) = h) (a : Await σ) :
    (a.code v m pred deadline note inside ret).Keeps holds h := by
  cases a with
  | test =>
      intro _ x
      simp only
      split
      · exact hr true
      · exact hi _
  | clock seen | after => exact fun _ _ => hi _
  | body seen => exact ⟨hm, hi _⟩
  | last => exact fun _ _ => hr _

/-- **A worker leaves a predicate wait with the truth about its predicate**, and changes nothing. -/
theorem Await.jump {μ γ δ κ σ : Type} {v : γ} {m : μ} {pred : δ → Bool} {deadline : Option Time}
    {note : δ → σ} {inside : Await σ → κ} {ret : Bool → κ} {code : κ → Cmd μ γ δ κ} {now : Time}
    {c k : κ} {x y : δ} {a : Await σ} (hc : code c = a.code v m pred deadline note inside ret)
    (hj : Jump code now c x k y) : y = x ∧ ((∃ b, k = inside b) ∨ k = ret (pred x)) := by
  cases a with
  | test =>
      cases hj with
      | act hc' =>
          rw [hc] at hc'
          cases hc'
          refine ⟨rfl, ?_⟩
          by_cases hp : pred x = true
          · exact Or.inr (by simp [hp])
          · exact Or.inl ⟨_, if_neg hp⟩
      | _ hc' => rw [hc] at hc'; cases hc'
  | clock seen | after =>
      cases hj with
      | act hc' =>
          rw [hc] at hc'
          cases hc'
          exact ⟨rfl, Or.inl ⟨_, rfl⟩⟩
      | _ hc' => rw [hc] at hc'; cases hc'
  | body seen =>
      cases hj with
      | wait hc' =>
          rw [hc] at hc'
          cases hc'
          exact ⟨rfl, Or.inl ⟨_, rfl⟩⟩
      | _ hc' => rw [hc] at hc'; cases hc'
  | last =>
      cases hj with
      | act hc' =>
          rw [hc] at hc'
          cases hc'
          exact ⟨rfl, Or.inr rfl⟩
      | _ hc' => rw [hc] at hc'; cases hc'

/-- The predicate was false, and the worker is about to wait. -/
def Await.refused {σ : Type} : Await σ → Bool
  | .clock _ | .body _ => true
  | _ => false

/-- **A worker goes on to wait only if its predicate is false**, or has just been. -/
theorem Await.jump_refused {μ γ δ κ σ : Type} {v : γ} {m : μ} {pred : δ → Bool}
    {deadline : Option Time} {note : δ → σ} {inside : Await σ → κ} {ret : Bool → κ}
    {code : κ → Cmd μ γ δ κ} {now : Time} {c k : κ} {x y : δ} {a : Await σ}
    (hc : code c = a.code v m pred deadline note inside ret) (hj : Jump code now c x k y) :
    k = ret (pred x) ∨ ∃ b, k = inside b ∧
      (b.refused = true → pred x = false ∨ (a.refused = true ∧ ∃ f, code c = .act f)) := by
  cases a with
  | test =>
      cases hj with
      | act hc' =>
          rw [hc] at hc'
          cases hc'
          by_cases hp : pred x = true
          · exact Or.inl (by simp [hp])
          · exact Or.inr ⟨_, if_neg hp, fun _ => Or.inl (by simpa using hp)⟩
      | _ hc' => rw [hc] at hc'; cases hc'
  | clock seen =>
      have hact : ∃ f, code c = .act f := ⟨_, hc⟩
      cases hj with
      | act hc' =>
          rw [hc] at hc'
          cases hc'
          exact Or.inr ⟨_, rfl, fun _ => Or.inr ⟨rfl, hact⟩⟩
      | _ hc' => rw [hc] at hc'; cases hc'
  | body seen =>
      cases hj with
      | wait hc' =>
          rw [hc] at hc'
          cases hc'
          refine Or.inr ⟨_, rfl, fun hb => ?_⟩
          split at hb <;> cases hb
      | _ hc' => rw [hc] at hc'; cases hc'
  | after =>
      cases hj with
      | act hc' =>
          rw [hc] at hc'
          cases hc'
          refine Or.inr ⟨_, rfl, fun hb => ?_⟩
          split at hb <;> cases hb
      | _ hc' => rw [hc] at hc'; cases hc'
  | last =>
      cases hj with
      | act hc' =>
          rw [hc] at hc'
          cases hc'
          exact Or.inl rfl
      | _ hc' => rw [hc] at hc'; cases hc'

/-- Where a predicate wait waits, and where it goes on. -/
theorem Await.wait_eq {μ γ δ κ σ : Type} {v w : γ} {m l : μ} {pred : δ → Bool}
    {deadline : Option Time} {note : δ → σ} {inside : Await σ → κ} {ret : Bool → κ} {d : Time}
    {k : κ} {a : Await σ} (hc : a.code v m pred deadline note inside ret = .wait w l d k) :
    w = v ∧ l = m ∧ a.refused = true ∧ ∃ b, k = inside b ∧ b.refused = false := by
  cases a with
  | body seen =>
      cases hc
      refine ⟨rfl, rfl, rfl, _, rfl, ?_⟩
      split <;> rfl
  | _ => cases hc

/-! ## The client -/

/-- The data of the client: a value, and what has happened to it. -/
structure Shared (D : Type) where
  /-- What the predicates are about. -/
  value : D
  /-- How often it was changed. -/
  version : Nat := 0
  /-- The latest change whose author has returned from a `notify_all` after it. -/
  announced : Nat := 0

/-- Where a worker of the client is; `mine` is its last change. -/
inductive Client (D : Type) where
  /-- In its own code, without the mutex. -/
  | free (mine : Nat)
  /-- In its own code, with the mutex. -/
  | held (mine : Nat)
  /-- About to lock the mutex. -/
  | acquire (mine : Nat)
  /-- About to try to lock the mutex. -/
  | tryAcquire (mine : Nat)
  /-- About to unlock the mutex. -/
  | release (mine : Nat)
  /-- About to change the value. -/
  | change (x : D) (mine : Nat)
  /-- In a predicate wait. -/
  | await (pred : D → Bool) (deadline : Option Time) (mine : Nat) (a : Await Nat)
  /-- `wait_until` without a predicate, about to compare the clock with the deadline. -/
  | timedWait (d : Time) (mine : Nat)
  /-- `wait` without a predicate, or `wait_until` past that comparison. -/
  | plainWait (d : Time) (mine : Nat)
  /-- `notify_one`, with the mutex or without it. -/
  | notifyOne (locked : Bool) (mine : Nat)
  /-- `notify_all`, with the mutex or without it. -/
  | notifyAll (locked : Bool) (mine : Nat)
  /-- `notify_all` has just returned. -/
  | notified (locked : Bool) (mine : Nat)
  /-- `sleep_until`, with the mutex or without it. -/
  | sleep (locked : Bool) (d : Time) (mine : Nat)

namespace Client

variable {D : Type}

/-- The last change a worker has made. -/
def mine : Client D → Nat
  | .free n | .held n | .acquire n | .tryAcquire n | .release n | .change _ n | .await _ _ n _
  | .timedWait _ n | .plainWait _ n | .notifyOne _ n | .notifyAll _ n | .notified _ n
  | .sleep _ _ n => n

/-- In its own code again. -/
def back (locked : Bool) (mine : Nat) : Client D := if locked then .held mine else .free mine

/-- What a worker without the mutex may decide to do. -/
def fromFree (n : Nat) : Client D → Bool
  | .acquire n' | .tryAcquire n' | .notifyOne false n' | .notifyAll false n' | .sleep false _ n' =>
    decide (n' = n)
  | _ => false

/-- What a worker with the mutex may decide to do. -/
def fromHeld (n : Nat) : Client D → Bool
  | .plainWait d n' => decide (n' = n) && decide (d = Time.max)
  | .release n' | .change _ n' | .await _ _ n' .test | .timedWait _ n' | .notifyOne true n'
  | .notifyAll true n' | .sleep true _ n' => decide (n' = n)
  | _ => false

/-- The client as a program. -/
def code : Client D → Cmd Unit Unit (Shared D) (Client D)
  | .free n => .choose (fromFree n)
  | .held n => .choose (fromHeld n)
  | .acquire n => .lock () (.held n)
  | .tryAcquire n => .tryLock () (.held n) (.free n)
  | .release n => .unlock () (.free n)
  | .change x _ =>
    .act fun _ y => ({ y with value := x, version := y.version + 1 }, .held (y.version + 1))
  | .await pred deadline n a =>
    a.code () () (fun y => pred y.value) deadline Shared.version (.await pred deadline n)
      (fun _ => .held n)
  | .timedWait d n => .act fun now y => (y, if now ≥ d then .held n else .plainWait d n)
  | .plainWait d n => .wait () () d (.held n)
  | .notifyOne locked n => .notifyOne () (back locked n)
  | .notifyAll locked n => .notifyAll () (.notified locked n)
  | .notified locked n =>
    .act fun _ y => ({ y with announced := max y.announced n }, back locked n)
  | .sleep locked d n => .sleep d (back locked n)

/-- The points at which the mutex is held. -/
def holds : Client D → Unit → Bool
  | .free _, _ | .acquire _, _ | .tryAcquire _, _ => false
  | .notifyOne locked _, _ | .notifyAll locked _, _ | .notified locked _, _
  | .sleep locked _ _, _ => locked
  | _, _ => true

/-- The client from the beginning: nobody has done anything. -/
abbrev machine (T : Type) [DecidableEq T] (x : D) :
    Lib.Machine (State T Unit Unit (Shared D) (Client D)) (Event T (Client D)) :=
  Monitor.machine code (fun _ => .free 0) { value := x }

end Client

/-! ## A `notify_all` reaches every waiter that has not seen the change -/

namespace Client

variable {T D : Type} [DecidableEq T] {s s' : State T Unit Unit (Shared D) (Client D)}

theorem holds_back (locked : Bool) (n : Nat) (m : Unit) :
    (back locked n : Client D).holds m = locked := by
  cases locked <;> rfl

theorem disciplined : Disciplined (code (D := D)) holds := by
  have hset : ∀ (f : Unit → Bool) (b : Bool), Function.update f () b = fun _ => b := fun f b =>
    funext fun m => Function.update_self ..
  intro c
  cases c with
  | free n =>
      intro k hk
      funext m
      simp only [fromFree] at hk
      split at hk <;> first | rfl | cases hk
  | held n =>
      intro k hk
      funext m
      simp only [fromHeld] at hk
      split at hk <;> first | rfl | cases hk
  | acquire n => exact (hset _ _).symm
  | tryAcquire n => exact ⟨(hset _ _).symm, rfl⟩
  | release n => exact ⟨rfl, (hset _ _).symm⟩
  | change x n => exact fun _ _ => rfl
  | await pred deadline n a =>
      rw [code]
      refine a.keeps holds _ ?_ ?_ ?_
      · rfl
      · exact fun _ => rfl
      · exact fun _ => rfl
  | timedWait d n =>
      intro now _
      simp only
      split <;> rfl
  | plainWait d n => exact ⟨rfl, rfl⟩
  | notifyOne locked n | sleep locked d n => exact funext fun m => holds_back locked n m
  | notifyAll locked n => rfl
  | notified locked n => exact fun _ _ => funext fun m => holds_back locked n m

end Client

end Ums.Monitor
