import Ums.Monitor.Section

/-!
# A task and the workers that wait for it

`TaskBase` as a program: one worker executes the task and calls `notify`, the others
call `wait` and `get` as often as they like. The task may return or throw anything.

`m_state` is a byte with a bit for done and a bit for taken. The data also carry the
history of the calls of `get` that have ended, and whether `notify` has returned.
-/

namespace Ums.Task

open Monitor

/-- `TaskBase::State`. -/
abbrev TaskState := BitVec 8

namespace TaskState

variable (s : TaskState)

/-- `State::done`. -/
def done : TaskState := 1#8

/-- `State::taken`. -/
def taken : TaskState := 2#8

/-- `is_state_done`. -/
def isDone : Bool := s &&& done != 0#8

/-- `is_state_taken`. -/
def isTaken : Bool := s &&& taken != 0#8

/-- `set_state_done`. -/
def setDone : TaskState := s ||| done

/-- `set_state_taken`. -/
def setTaken : TaskState := s ||| taken

@[simp] theorem isDone_setDone : isDone (setDone s) = true := by
  revert s
  decide +kernel

@[simp] theorem isDone_setTaken : isDone (setTaken s) = isDone s := by
  revert s
  decide +kernel

@[simp] theorem isTaken_setDone : isTaken (setDone s) = isTaken s := by
  revert s
  decide +kernel

@[simp] theorem isTaken_setTaken : isTaken (setTaken s) = true := by
  revert s
  decide +kernel

end TaskState

open TaskState

/-- How a call of `get` ends. -/
inductive Outcome (R E : Type) where
  /-- It returns what is in the storage. -/
  | result (r : Option R)
  /-- It rethrows the exception of the task. -/
  | exception (e : E)
  /-- It throws `std::logic_error`, because the result was already taken. -/
  | alreadyTaken
  deriving DecidableEq

/-- The call has got the outcome of the task. -/
def Outcome.takes {R E : Type} : Outcome R E → Bool
  | .alreadyTaken => false
  | _ => true

/-- The fields of `TaskBase` and `TaskResult`. -/
structure Data (R E : Type) where
  /-- `m_state`. -/
  state : TaskState := 0#8
  /-- `m_exception`. -/
  exception : Option E := none
  /-- `m_storage`. -/
  storage : Option R := none
  /-- How the calls of `get` have ended, the latest first. -/
  outcomes : List (Outcome R E) := []
  /-- `notify` has returned. -/
  notified : Bool := false

/-- The statements of `wait`. -/
inductive WaitPoint where
  /-- About to lock `m_mtx`. -/
  | enter
  /-- `m_cv.wait`. -/
  | await (a : Await Unit)
  /-- About to unlock `m_mtx`. -/
  | leave
  deriving DecidableEq

/-- The statements of `get` and `prepare_get`. -/
inductive GetPoint where
  /-- `if (is_state_taken())`. -/
  | test
  /-- `wait`. -/
  | wait (p : WaitPoint)
  /-- `set_state_taken`. -/
  | setTaken
  /-- `if (has_exception())`. -/
  | rethrow
  /-- Moving the result out of the storage. -/
  | extract
  deriving DecidableEq

/-- The statements of the executing worker, from `invoke_noexcept` to the end of `notify`. -/
inductive ExecPoint (R E : Type) where
  /-- The function of the task. -/
  | invoke
  /-- What it has returned or thrown is stored. -/
  | store (o : Except E R)
  /-- About to lock `m_mtx`. -/
  | enter
  /-- `set_state_done`. -/
  | setDone
  /-- About to unlock `m_mtx`. -/
  | leave
  /-- `m_cv.notify_one`. -/
  | notify
  /-- `notify` has just returned. -/
  | returned
  deriving DecidableEq

/-- Where a worker is. -/
inductive Ctl (R E : Type) where
  /-- In its own code. -/
  | idle
  /-- In `wait`. -/
  | wait (p : WaitPoint)
  /-- In `get`. -/
  | get (p : GetPoint)
  /-- Executing the task. -/
  | exec (p : ExecPoint R E)
  deriving DecidableEq

variable {R E : Type} {moved : R → R}

/-- What a worker may call. -/
def Ctl.calls : Ctl R E → Bool
  | .wait .enter | .get .test => true
  | _ => false

/-- What the function of the task may do. -/
def Ctl.invokes : Ctl R E → Bool
  | .exec (.store _) => true
  | _ => false

/-- A command of this program. -/
abbrev Command (R E : Type) := Cmd Unit Unit (Data R E) (Ctl R E)

/-- `wait`, called at `inside` and returning to `ret`. -/
def waitCode (inside : WaitPoint → Ctl R E) (ret : Ctl R E) : WaitPoint → Command R E
  | .enter => .lock () (inside (.await .test))
  | .await a =>
    a.codeWith () () (fun x => isDone x.state) none (fun _ => ()) (fun b => inside (.await b))
      (fun _ x => (x, inside .leave))
  | .leave => .unlock () ret

/-- A call of `get` ends. -/
def Data.ends (x : Data R E) (o : Outcome R E) : Data R E × Ctl R E :=
  ({ x with outcomes := o :: x.outcomes }, .idle)

/-- `get`. -/
def getCode (moved : R → R) : GetPoint → Command R E
  | .test =>
    .act fun _ x => if isTaken x.state then x.ends .alreadyTaken else (x, .get (.wait .enter))
  | .wait p => waitCode (fun p => .get (.wait p)) (.get .setTaken) p
  | .setTaken => .act fun _ x => ({ x with state := setTaken x.state }, .get .rethrow)
  | .rethrow =>
    .act fun _ x =>
      match x.exception with
      | some e => x.ends (.exception e)
      | none => (x, .get .extract)
  | .extract => .act fun _ x => { x with storage := x.storage.map moved }.ends (.result x.storage)

/-- `invoke_noexcept` and `notify`. -/
def execCode : ExecPoint R E → Command R E
  | .invoke => .choose Ctl.invokes
  | .store (.ok r) => .act fun _ x => ({ x with storage := some r }, .exec .enter)
  | .store (.error e) => .act fun _ x => ({ x with exception := some e }, .exec .enter)
  | .enter => .lock () (.exec .setDone)
  | .setDone => .act fun _ x => ({ x with state := setDone x.state }, .exec .leave)
  | .leave => .unlock () (.exec .notify)
  | .notify => .notifyOne () (.exec .returned)
  | .returned => .act fun _ x => ({ x with notified := true }, .idle)

/-- The program. `moved` is what the move constructor of the result leaves behind. -/
def code (moved : R → R) : Ctl R E → Command R E
  | .idle => .choose Ctl.calls
  | .wait p => waitCode .wait .idle p
  | .get p => getCode moved p
  | .exec p => execCode p

/-- Where `m_mtx` is held. -/
def holds : Ctl R E → Unit → Bool
  | .wait (.await _), _ | .wait .leave, _ => true
  | .get (.wait (.await _)), _ | .get (.wait .leave), _ => true
  | .exec .setDone, _ | .exec .leave, _ => true
  | _, _ => false

/-- A new task, which the worker `w` executes. -/
abbrev machine (moved : R → R) (E : Type) {T : Type} [DecidableEq T] (w : T) :
    Lib.Machine (State T Unit Unit (Data R E) (Ctl R E)) (Event T (Ctl R E)) :=
  Monitor.machine (code moved) (fun t => if t = w then .exec .invoke else .idle) {}

/-- A move that leaves zero behind. -/
abbrev zeroed : Nat → Nat := fun _ => 0

theorem keeps_wait (inside : WaitPoint → Ctl R E) {ret : Ctl R E}
    (hi : ∀ p, holds (inside p) = fun _ => decide (p ≠ .enter)) (hr : holds ret = fun _ => false)
    (p : WaitPoint) : (waitCode inside ret p).Keeps holds (holds (inside p)) := by
  have hset : ∀ (f : Unit → Bool) (b : Bool), Function.update f () b = fun _ => b := fun f b =>
    funext fun m => Function.update_self ..
  have ha : ∀ a, holds (inside (.await a)) = fun _ => true := fun a => by
    rw [hi]
    exact funext fun _ => decide_eq_true nofun
  have hl : holds (inside .leave) = fun _ => true := by
    rw [hi]
    exact funext fun _ => decide_eq_true nofun
  cases p with
  | enter =>
      exact (ha _).trans (hset _ _).symm
  | await a =>
      rw [ha, waitCode]
      exact a.keepsWith holds _ rfl ha fun _ _ => hl
  | leave =>
      rw [hl]
      exact ⟨rfl, hr.trans (hset _ _).symm⟩

theorem disciplined : Disciplined (code (E := E) moved) holds := by
  have hset : ∀ (f : Unit → Bool) (b : Bool), Function.update f () b = fun _ => b := fun f b =>
    funext fun m => Function.update_self ..
  intro c
  cases c with
  | idle =>
      intro k hk
      funext m
      unfold Ctl.calls at hk
      split at hk <;> first | rfl | cases hk
  | wait p => exact keeps_wait .wait (fun p => by cases p <;> rfl) rfl p
  | get p =>
      cases p with
      | test =>
          intro _ x
          simp only
          split <;> rfl
      | wait p =>
          exact keeps_wait (fun p => .get (.wait p)) (fun p => by cases p <;> rfl) rfl p
      | setTaken => exact fun _ _ => rfl
      | rethrow =>
          intro _ x
          simp only
          split <;> rfl
      | extract => exact fun _ _ => rfl
  | exec p =>
      cases p with
      | invoke =>
          intro k hk
          funext m
          unfold Ctl.invokes at hk
          split at hk <;> first | rfl | cases hk
      | store o => cases o <;> exact fun _ _ => rfl
      | enter => exact (hset _ _).symm
      | setDone => exact fun _ _ => rfl
      | leave => exact ⟨rfl, (hset _ _).symm⟩
      | notify => rfl
      | returned => exact fun _ _ => rfl

/-! ## What a statement does -/

/-- What a statement of `wait` does, before it returns. -/
inductive WaitGoes (x : Data R E) : WaitPoint → WaitPoint → Prop
  | enter : WaitGoes x .enter (.await .test)
  | on {a b : Await Unit} (hu : a.untimed = true → b.untimed = true) :
      WaitGoes x (.await a) (.await b)
  /-- The task is done, unless the wait had a deadline. -/
  | ends {a : Await Unit} (hd : a.untimed = true → isDone x.state = true) :
      WaitGoes x (.await a) .leave

/-- What a statement does: where it leads, and what becomes of the data. -/
inductive Goes (moved : R → R) (x : Data R E) : Ctl R E → Ctl R E → Data R E → Prop
  /-- A call begins. -/
  | calls {k} (hk : k = .wait .enter ∨ k = .get .test) : Goes moved x .idle k x
  | wait {p q} (hw : WaitGoes x p q) : Goes moved x (.wait p) (.wait q) x
  | waited : Goes moved x (.wait .leave) .idle x
  /-- `get` throws, because the result was already taken. -/
  | taken (ht : isTaken x.state = true) : Goes moved x (.get .test) .idle (x.ends .alreadyTaken).1
  | passes (ht : isTaken x.state = false) : Goes moved x (.get .test) (.get (.wait .enter)) x
  | getWait {p q} (hw : WaitGoes x p q) : Goes moved x (.get (.wait p)) (.get (.wait q)) x
  | getWaited : Goes moved x (.get (.wait .leave)) (.get .setTaken) x
  | setTaken : Goes moved x (.get .setTaken) (.get .rethrow) { x with state := setTaken x.state }
  /-- `get` rethrows. -/
  | rethrows {e} (he : x.exception = some e) :
      Goes moved x (.get .rethrow) .idle (x.ends (.exception e)).1
  /-- There is no exception. -/
  | spares (he : x.exception = none) : Goes moved x (.get .rethrow) (.get .extract) x
  /-- `get` returns. -/
  | extracts : Goes moved x (.get .extract) .idle
      ({ x with storage := x.storage.map moved }.ends (.result x.storage)).1
  /-- The function of the task ends. -/
  | invokes {o} : Goes moved x (.exec .invoke) (.exec (.store o)) x
  | returns {r} : Goes moved x (.exec (.store (.ok r))) (.exec .enter) { x with storage := some r }
  | throws {e} :
      Goes moved x (.exec (.store (.error e))) (.exec .enter) { x with exception := some e }
  | enter : Goes moved x (.exec .enter) (.exec .setDone) x
  | setDone : Goes moved x (.exec .setDone) (.exec .leave) { x with state := setDone x.state }
  | leave : Goes moved x (.exec .leave) (.exec .notify) x
  | notify : Goes moved x (.exec .notify) (.exec .returned) x
  | returned : Goes moved x (.exec .returned) .idle { x with notified := true }

variable {c k : Ctl R E} {x y : Data R E} {now : Time}

/-- Only a worker in its own code and the function of the task decide where to go. -/
theorem choose_cases {ok : Ctl R E → Bool} (hc : code moved c = .choose ok) :
    (c = .idle ∧ ok = Ctl.calls) ∨ (c = .exec .invoke ∧ ok = Ctl.invokes) := by
  cases c with
  | idle =>
      cases hc
      exact Or.inl ⟨rfl, rfl⟩
  | wait p =>
      cases p with
      | await a => cases a <;> cases hc
      | _ => cases hc
  | get p =>
      cases p with
      | wait p =>
          cases p with
          | await a => cases a <;> cases hc
          | _ => cases hc
      | _ => cases hc
  | exec p =>
      cases p with
      | invoke =>
          cases hc
          exact Or.inr ⟨rfl, rfl⟩
      | store o => cases o <;> cases hc
      | _ => cases hc

theorem waitGoes_of_jump {inside : WaitPoint → Ctl R E} {ret : Ctl R E} {p : WaitPoint}
    (hc : code moved c = waitCode inside ret p) (hj : Jump (code moved) now c x k y) :
    y = x ∧ ((p = .leave ∧ k = ret) ∨ ∃ q, k = inside q ∧ WaitGoes x p q) := by
  cases p with
  | enter =>
      cases hj with
      | lock hc' =>
          rw [hc] at hc'
          cases hc'
          exact ⟨rfl, Or.inr ⟨_, rfl, .enter⟩⟩
      | _ hc' =>
          rw [hc] at hc'
          cases hc'
  | await a =>
      rw [waitCode] at hc
      cases Await.goes hc hj with
      | ends hk ht ha =>
          cases hk
          refine ⟨rfl, Or.inr ⟨_, rfl, .ends fun hu => ha.elim ht fun hlast => ?_⟩⟩
          rw [hlast] at hu
          cases hu
      | on b hk hy _ hu => exact ⟨hy, Or.inr ⟨_, hk, .on (hu rfl)⟩⟩
  | leave =>
      cases hj with
      | unlock hc' =>
          rw [hc] at hc'
          cases hc'
          exact ⟨rfl, Or.inl ⟨rfl, rfl⟩⟩
      | _ hc' =>
          rw [hc] at hc'
          cases hc'

theorem goes_of_get {p : GetPoint} (hj : Jump (code moved) now (.get p) x k y) :
    Goes moved x (.get p) k y := by
  cases p with
  | test =>
      cases hj with
      | act hc =>
          cases hc
          simp only
          by_cases ht : isTaken x.state = true
          · rw [if_pos ht]
            exact .taken ht
          · rw [if_neg ht]
            exact .passes (by simpa using ht)
      | _ hc => cases hc
  | wait p =>
      have hcode : code (E := E) moved (.get (.wait p)) =
          waitCode (fun p => .get (.wait p)) (.get .setTaken) p := rfl
      obtain ⟨rfl, ⟨rfl, rfl⟩ | ⟨q, rfl, hw⟩⟩ := waitGoes_of_jump hcode hj
      · exact .getWaited
      · exact .getWait hw
  | rethrow =>
      cases hj with
      | act hc =>
          cases hc
          simp only
          split
          · exact .rethrows ‹_›
          · exact .spares ‹_›
      | _ hc => cases hc
  | setTaken => cases hj with | _ hc => cases hc <;> exact .setTaken
  | extract => cases hj with | _ hc => cases hc <;> exact .extracts

theorem goes_of_exec {p : ExecPoint R E} (hj : Jump (code moved) now (.exec p) x k y) :
    Goes moved x (.exec p) k y := by
  cases p with
  | invoke =>
      cases hj with
      | choose hc hk =>
          cases hc
          unfold Ctl.invokes at hk
          split at hk
          · exact .invokes
          · cases hk
      | _ hc => cases hc
  | store o =>
      cases o with
      | ok r => cases hj with | _ hc => cases hc <;> exact .returns
      | error e => cases hj with | _ hc => cases hc <;> exact .throws
  | enter => cases hj with | _ hc => cases hc <;> exact .enter
  | setDone => cases hj with | _ hc => cases hc <;> exact .setDone
  | leave => cases hj with | _ hc => cases hc <;> exact .leave
  | notify => cases hj with | _ hc => cases hc <;> exact .notify
  | returned => cases hj with | _ hc => cases hc <;> exact .returned

/-- **Every statement does one of these things.** -/
theorem goes_of_jump (hj : Jump (code moved) now c x k y) : Goes moved x c k y := by
  cases c with
  | idle =>
      cases hj with
      | choose hc hk =>
          cases hc
          unfold Ctl.calls at hk
          split at hk
          · exact .calls (Or.inl rfl)
          · exact .calls (Or.inr rfl)
          · cases hk
      | _ hc => cases hc
  | wait p =>
      obtain ⟨rfl, ⟨rfl, rfl⟩ | ⟨q, rfl, hw⟩⟩ := waitGoes_of_jump rfl hj
      · exact .waited
      · exact .wait hw
  | get p => exact goes_of_get hj
  | exec p => exact goes_of_exec hj

/-! ## Who waits, and who executes -/

/-- Where the worker is in its wait for the task. -/
def Ctl.waits : Ctl R E → Option (Bool × Await Unit)
  | .wait (.await a) | .get (.wait (.await a)) => some (true, a)
  | _ => none

theorem awaits : Awaits (code (E := E) moved) holds () () (fun x => isDone x.state = true)
    Ctl.waits where
  await c g a hc := by
    cases c with
    | wait p =>
        cases p with
        | await b =>
            -- the predicate of `m_cv.wait` is `is_state_done`, and `get` gets here through `wait`
            cases hc
            exact ⟨fun x => isDone x.state, none, fun b => .wait (.await b),
              fun _ x => (x, .wait .leave), rfl, fun _ => rfl, fun _ _ => rfl, fun _ hx => hx⟩
        | _ => cases hc
    | get p =>
        cases p with
        | wait p =>
            cases p with
            | await b =>
                cases hc
                exact ⟨fun x => isDone x.state, none, fun b => .get (.wait (.await b)),
                  fun _ x => (x, .get (.wait .leave)), rfl, fun _ => rfl, fun _ _ => rfl,
                  fun _ hx => hx⟩
            | _ => cases hc
        | _ => cases hc
    | _ => cases hc
  fresh {now c x k y g a} hj hc hk := by
    cases goes_of_jump hj with
    | calls hcall => rcases hcall with rfl | rfl <;> cases hk
    | wait hw | getWait hw =>
        cases hw with
        | enter =>
            cases hk
            rfl
        | on => cases hc
        | ends => cases hk
    | _ => cases hk
  only c m' d k hc hn := by
    cases c with
    | idle => cases hc
    | wait p => cases p <;> first | cases hc | cases hn
    | get p =>
        cases p with
        | wait p => cases p <;> first | cases hc | cases hn
        | _ => cases hc
    | exec p =>
        cases p with
        | store o => cases o <;> cases hc
        | _ => cases hc
  guarded c hc := by
    unfold Ctl.waits at hc
    split at hc
    · rfl
    · rfl
    · exact absurd rfl hc

/-- The worker has set the done bit, and has yet to perform its `notify_one`. -/
def Ctl.announces : Ctl R E → Bool
  | .exec .leave | .exec .notify => true
  | _ => false

/-- The worker executes the task. -/
def Ctl.executes : Ctl R E → Bool
  | .exec _ => true
  | _ => false

/-- What a worker knows of the task before its next statement. -/
def Ready (x : Data R E) : Ctl R E → Prop
  | .exec .leave | .exec .notify | .exec .returned => isDone x.state = true
  | _ => True

end Ums.Task
