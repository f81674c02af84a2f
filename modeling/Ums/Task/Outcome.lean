import Ums.Task.Basic

/-!
# Who gets the outcome of a task

`prepare_get` tests the taken bit, waits, and sets the bit afterwards, all but the wait
without `m_mtx`. A call that begins its test between the test and the set of another
call passes it too, and both get the outcome. Calls that do not overlap so far exclude
each other.
-/

namespace Ums.Task

open Monitor TaskState

variable {R E T : Type} [DecidableEq T] {moved : R → R} {c k : Ctl R E} {x y : Data R E}
  {s s' : State T Unit Unit (Data R E) (Ctl R E)} {e : Event T (Ctl R E)} {t u w : T} {now : Time}

/-- How far a worker is in `get`. -/
inductive Stage where
  /-- It is not in `get`, or has yet to test the taken bit. -/
  | outside
  /-- It has found the taken bit clear, and has yet to set it. -/
  | tested
  /-- It has set the taken bit, and has yet to return. -/
  | set
  deriving DecidableEq

/-- How far the worker is. -/
def Ctl.stage : Ctl R E → Stage
  | .get (.wait _) | .get .setTaken => .tested
  | .get .rethrow | .get .extract => .set
  | _ => .outside

/-- How many calls of `get` have got the outcome. -/
def Data.takers (x : Data R E) : Nat := (x.outcomes.filter Outcome.takes).length

/-- What a statement does to the taken bit and to the calls of `get`. -/
inductive Takes (c : Ctl R E) (x : Data R E) (k : Ctl R E) (y : Data R E) : Prop
  /-- Nothing. -/
  | quiet (hs : k.stage = c.stage) (ht : isTaken y.state = isTaken x.state)
      (hn : y.takers = x.takers)
  /-- The worker finds the taken bit clear. -/
  | passes (hc : c = .get .test) (ht : isTaken x.state = false) (hk : k.stage = .tested)
      (hy : y = x)
  /-- It sets the taken bit. -/
  | sets (hc : c.stage = .tested) (hk : k.stage = .set) (ht : isTaken y.state = true)
      (hn : y.takers = x.takers)
  /-- It returns the result, or rethrows the exception. -/
  | ends (hc : c.stage = .set) (hk : k.stage = .outside) (ht : isTaken y.state = isTaken x.state)
      (hn : y.takers = x.takers + 1)

theorem takes_of_jump (hj : Jump (code moved) now c x k y) : Takes c x k y := by
  cases goes_of_jump hj with
  | calls hk => rcases hk with rfl | rfl <;> exact .quiet rfl rfl rfl
  | passes ht => exact .passes rfl ht rfl rfl
  | setTaken => exact .sets rfl rfl (isTaken_setTaken _) rfl
  | rethrows | extracts => exact .ends rfl rfl rfl rfl
  | setDone => exact .quiet rfl (isTaken_setDone _) rfl
  | _ => exact .quiet rfl rfl rfl

/-- No call of `get` passes its test between the test and the set of another one. -/
def SoleGet (s : State T Unit Unit (Data R E) (Ctl R E)) (e : Event T (Ctl R E)) : Prop :=
  ∀ t, e = .step t → s.ctl t = .get .test → isTaken s.data.state = false →
    ∀ u, (s.ctl u).stage ≠ .tested

/-- One call of `get` at most is past its test, or has got the outcome. -/
structure TakenOnce (s : State T Unit Unit (Data R E) (Ctl R E)) : Prop where
  /-- There is one call at most past its test. -/
  one : ∀ t u, (s.ctl t).stage ≠ .outside → (s.ctl u).stage ≠ .outside → t = u
  /-- When there is one, no call has got the outcome. -/
  fresh : ∀ t, (s.ctl t).stage ≠ .outside → s.data.takers = 0
  /-- The bit is clear until it is set. -/
  clear : ∀ t, (s.ctl t).stage = .tested → isTaken s.data.state = false
  /-- It is set afterwards. -/
  bit : ∀ t, (s.ctl t).stage = .set → isTaken s.data.state = true
  /-- One call at most has got the outcome. -/
  bound : s.data.takers ≤ 1
  /-- It has set the bit. -/
  taken : s.data.takers = 1 → isTaken s.data.state = true

omit [DecidableEq T] in
/-- The calls are as far as they were. -/
theorem TakenOnce.same (h : TakenOnce s) (hc : ∀ u, (s'.ctl u).stage = (s.ctl u).stage)
    (ht : isTaken s'.data.state = isTaken s.data.state) (hn : s'.data.takers = s.data.takers) :
    TakenOnce s' where
  one t u := by
    rw [hc, hc]
    exact h.one t u
  fresh t := by
    rw [hc, hn]
    exact h.fresh t
  clear t := by
    rw [hc, ht]
    exact h.clear t
  bit t := by
    rw [hc, ht]
    exact h.bit t
  bound := by
    rw [hn]
    exact h.bound
  taken := by
    rw [hn, ht]
    exact h.taken

theorem TakenOnce.step (hs : Step (code moved) s e s') (hok : SoleGet s e) (h : TakenOnce s) :
    TakenOnce s' := by
  rcases hs.jump with ⟨hc, hd⟩ | ⟨t, hc, hj⟩
  · exact h.same (fun u => by rw [hc]) (by rw [hd]) (by rw [hd])
  · have hother : ∀ u, u ≠ t → s'.ctl u = s.ctl u := fun u hu => by
      rw [hc, Function.update_of_ne hu]
    have hbound := h.bound
    cases takes_of_jump hj with
    | quiet hstage ht hn =>
        refine h.same (fun u => ?_) ht hn
        by_cases hu : u = t
        · rw [hu]
          exact hstage
        · rw [hother u hu]
    | passes htest htaken hk hy =>
        have hmove : s'.ctl t ≠ s.ctl t := fun he => by
          rw [he, htest] at hk
          cases hk
        have hev := hs.event_eq hmove fun ok => by
          rw [htest]
          nofun
        -- nobody is past its test before
        have hnone : ∀ u, (s.ctl u).stage = .outside := fun u => by
          cases hu : (s.ctl u).stage with
          | outside => rfl
          | tested => exact absurd hu (hok t hev htest htaken u)
          | set =>
              have := h.bit u hu
              rw [htaken] at this
              cases this
        have hzero : s.data.takers = 0 := by
          by_contra hne
          have := h.taken (by omega)
          rw [htaken] at this
          cases this
        have hmine : ∀ u, (s'.ctl u).stage ≠ .outside → u = t := fun u hu => by
          by_contra hne
          rw [hother u hne] at hu
          exact hu (hnone u)
        refine ⟨fun u v hu hv => ?_, fun u _ => ?_, fun u _ => ?_, fun u hu => ?_, ?_, ?_⟩
        · rw [hmine u hu, hmine v hv]
        · rw [hy, hzero]
        · rw [hy, htaken]
        · have hut := hmine u (by rw [hu]; nofun)
          rw [hut, hk] at hu
          cases hu
        · rw [hy]
          exact h.bound
        · rw [hy]
          exact h.taken
    | sets hstage hk htaken hn =>
        -- it is past its test, so all the others are outside
        have hpast : (s.ctl t).stage ≠ .outside := by
          rw [hstage]
          nofun
        have hmine : ∀ u, (s'.ctl u).stage ≠ .outside → u = t := fun u hu => by
          by_contra hne
          rw [hother u hne] at hu
          exact hne (h.one u t hu hpast)
        refine ⟨fun u v hu hv => ?_, fun u _ => ?_, fun u hu => ?_, fun _ _ => htaken, ?_,
          fun _ => htaken⟩
        · rw [hmine u hu, hmine v hv]
        · rw [hn]
          exact h.fresh t hpast
        · have hut := hmine u (by rw [hu]; nofun)
          rw [hut, hk] at hu
          cases hu
        · rw [hn]
          exact h.bound
    | ends hstage hk ht hn =>
        -- the first one to get the outcome, and nobody is on the way to it
        have hpast : (s.ctl t).stage ≠ .outside := by
          rw [hstage]
          nofun
        have hzero := h.fresh t hpast
        have hnone : ∀ u, (s'.ctl u).stage = .outside := fun u => by
          by_cases hu : u = t
          · rw [hu, hk]
          · rw [hother u hu]
            by_contra hne
            exact hu (h.one u t hne hpast)
        refine ⟨fun u _ hu => ?_, fun u hu => ?_, fun u hu => ?_, fun u hu => ?_, ?_, fun _ => ?_⟩
        · exact absurd (hnone u) hu
        · exact absurd (hnone u) hu
        · rw [hnone u] at hu
          cases hu
        · rw [hnone u] at hu
          cases hu
        · omega
        · rw [ht]
          exact h.bit t hstage

theorem takenOnce_reachable (h : (machine moved E w).Reach SoleGet s) : TakenOnce s := by
  refine Lib.Machine.Reach.invariant ?_ ?_ h
  · rintro s ⟨now, rfl⟩
    have hnone : ∀ t : T, (if t = w then .exec .invoke else .idle : Ctl R E).stage = .outside :=
      fun t => by split <;> rfl
    refine ⟨fun t _ ht => ?_, fun t ht => ?_, fun t ht => ?_, fun t ht => ?_, Nat.zero_le _, nofun⟩
    · exact absurd (hnone t) ht
    · exact absurd (hnone t) ht
    · cases (hnone t).symm.trans ht
    · cases (hnone t).symm.trans ht
  · intro s e s' _ hok hs hi
    exact hi.step (step_of_next hs) hok

/--
**The outcome of a task is taken at most once** in a run in which no call of `get` passes its
test between the test and the set of another one: of all calls that have ended, one at most has
returned the result or rethrown the exception, and the others have thrown `std::logic_error`.
-/
theorem outcome_taken_once (h : (machine moved E w).Reach SoleGet s) :
    (s.data.outcomes.filter Outcome.takes).length ≤ 1 ∧
      ∀ o ∈ s.data.outcomes, o.takes = true ∨ o = .alreadyTaken := by
  refine ⟨(takenOnce_reachable h).bound, fun o _ => ?_⟩
  cases o with
  | alreadyTaken => exact Or.inr rfl
  | _ => exact Or.inl rfl

/-- Two calls of `get`, one after the other. -/
theorem outcome_taken_once_run : ∃ s, (machine zeroed Nat (0 : Fin 2)).Reach SoleGet s ∧
    s.data.outcomes = [.alreadyTaken, .result (some 7)] ∧
    (s.data.outcomes.filter Outcome.takes).length ≤ 1 := by
  have hok : ∀ (s : State (Fin 2) Unit Unit (Data Nat Nat) (Ctl Nat Nat))
      (e : Event (Fin 2) (Ctl Nat Nat)),
      decide (∀ t, e = .step t → s.ctl t = .get .test → ∀ u, (s.ctl u).stage ≠ .tested) = true →
        SoleGet s e :=
    fun s e hall t he hc _ => of_decide_eq_true hall t he hc
  obtain ⟨s, hr, hp⟩ := Lib.Machine.exists_reach_of_run (M := machine zeroed Nat (0 : Fin 2))
    (fun s e => decide (∀ t, e = .step t → s.ctl t = .get .test → ∀ u, (s.ctl u).stage ≠ .tested))
    (fun s => decide (s.data.outcomes = [.alreadyTaken, .result (some 7)]))
    hok (.init ⟨0, rfl⟩)
    (List.flatten [
      [.choose 0 (.exec (.store (.ok 7)))], List.replicate 6 (.step 0),
      [.choose 1 (.get .test)], List.replicate 7 (.step 1),
      [.choose 1 (.get .test), .step 1]])
    (by decide +kernel) (by decide +kernel)
  exact ⟨s, hr, of_decide_eq_true hp, (outcome_taken_once hr).1⟩

/-- Two calls of `get` overlap, and both return; the second one gets what the first one has left
behind. -/
theorem outcome_taken_twice : ∃ s, (machine zeroed Nat (0 : Fin 3)).Reachable s ∧
    s.data.outcomes = [.result (some 0), .result (some 7)] := by
  obtain ⟨s, hr, hp⟩ := Lib.Machine.exists_of_run (M := machine zeroed Nat (0 : Fin 3))
    (p := fun s => decide (s.data.outcomes = [.result (some 0), .result (some 7)])) (.init ⟨0, rfl⟩)
    (List.flatten [
      [.choose 1 (.get .test), .step 1, .choose 2 (.get .test), .step 2],
      [.choose 0 (.exec (.store (.ok 7)))], List.replicate 6 (.step 0),
      List.replicate 6 (.step 1), List.replicate 6 (.step 2)])
    (by decide +kernel)
  exact ⟨s, hr, of_decide_eq_true hp⟩

end Ums.Task
