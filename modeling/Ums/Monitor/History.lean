import Ums.Lib.Object
import Ums.Monitor.Steps

/-!
# Histories of calls and returns

A program of `Ums.Monitor` that implements an object: `status` says of each control point
whether its worker is in an operation and whether the operation has had its effect, and
`view` is the value of the object. The program is linearizable if every jump does to the
value what `Object.Moves` allows.
-/

namespace Ums.Monitor

open Lib (Object Status Saying)

variable {T μ γ δ κ : Type} [DecidableEq T] [DecidableEq μ] [DecidableEq γ]
  {code : κ → Cmd μ γ δ κ} {s s' : State T μ γ δ κ} {ctl : T → κ} {data : δ}

/-- The worker that jumps is the one that takes the step. -/
theorem Step.worker_jumps {e : Event T κ} (hs : Step code s e s') :
    (s'.ctl = s.ctl ∧ s'.data = s.data) ∨
      ∃ t, e.worker = some t ∧ s'.ctl = Function.update s.ctl t (s'.ctl t) ∧
        Jump code s.now (s.ctl t) s.data (s'.ctl t) s'.data := by
  have hgo : ∀ {r : State T μ γ δ κ} {t : T} {k : κ}, e.worker = some t → r.ctl = s.ctl →
      Jump code s.now (s.ctl t) s.data k r.data →
      (((r.goto t k).ctl = s.ctl ∧ (r.goto t k).data = s.data) ∨
        ∃ u, e.worker = some u ∧ (r.goto t k).ctl = Function.update s.ctl u ((r.goto t k).ctl u) ∧
          Jump code s.now (s.ctl u) s.data ((r.goto t k).ctl u) (r.goto t k).data) := by
    intro r t k he hr hj
    refine Or.inr ⟨t, he, ?_, ?_⟩
    · rw [State.goto_ctl, Function.update_self, hr]
    · rwa [State.goto_ctl, Function.update_self]
  cases hs with
  | choose hc hk => exact hgo rfl rfl (.choose hc hk)
  | act hc => exact hgo (r := { s with data := _ }) rfl rfl (.act hc)
  | lock hc => exact hgo (r := s.setOwner _ _) rfl rfl (.lock hc)
  | tryYes hc => exact hgo (r := s.setOwner _ _) rfl rfl (.tryYes hc)
  | tryNo hc => exact hgo rfl rfl (.tryNo hc)
  | unlock hc => exact hgo (r := s.setOwner _ _) rfl rfl (.unlock hc)
  | unlink hc => exact hgo (r := s.setWaiters _ _) rfl rfl (.wait hc)
  | awake hc => exact hgo rfl rfl (.sleep hc)
  | notifyNone hc => exact hgo rfl rfl (.notifyOne hc)
  | notifyOne hc => exact hgo (r := s.notifyWaiter _) rfl rfl (.notifyOne hc)
  | scanEnd hc => exact hgo (r := s.setScanner _ _) rfl rfl (.notifyAll hc)
  | _ => exact Or.inl ⟨rfl, rfl⟩

variable {Op Res σ : Type}

/-- What a step says: the calls and returns of the worker that takes it. -/
def sayings (code : κ → Cmd μ γ δ κ) (status : κ → Status Op Res) (direct : Op → Res)
    (s : State T μ γ δ κ) (e : Event T κ) : List (Saying T Op Res) :=
  match e.worker, next code s e with
  | some t, some s' => Object.saying direct t (status (s.ctl t)) (status (s'.ctl t))
  | _, _ => []

omit [DecidableEq T] in
theorem saying_self {direct : Op → Res} {t : T} (st : Status Op Res) :
    Object.saying direct t st st = [] := by
  cases st <;> rfl

/-- **A program whose jumps are moves of the object** is linearizable. `Shows` says which values
of the object the control points and the data stand for. -/
theorem linearizable_of_moves {O : Object T Op Res σ} {status : κ → Status Op Res}
    {direct : Op → Res} (Shows : (T → κ) → δ → σ → Prop)
    (hinit : ∃ v, O.init v ∧ Shows ctl data v) (haway : ∀ t, status (ctl t) = .away)
    (hjump : ∀ s t k y v, (machine code ctl data).Reachable s → Shows s.ctl s.data v →
      Jump code s.now (s.ctl t) s.data k y →
      ∃ v', Shows (Function.update s.ctl t k) y v' ∧
        O.Moves direct t v v' (status (s.ctl t)) (status k)) :
    Object.Linearizable (machine code ctl data) (sayings code status direct) O := by
  refine Object.linearizable_of_simulates
    (R := fun s c => Shows s.ctl s.data c.val ∧ ∀ t, c.status t = status (s.ctl t)) ⟨?_, ?_⟩
  · rintro s ⟨now, rfl⟩
    obtain ⟨v, hv, hshows⟩ := hinit
    exact ⟨⟨v, fun _ => .away⟩, ⟨hv, fun _ => rfl⟩, hshows, fun t => (haway t).symm⟩
  · rintro s c e s' hr - ⟨hv, hst⟩ - hs
    have hnext : next code s e = some s' := hs
    rcases (step_of_next hnext).worker_jumps with ⟨hc, hd⟩ | ⟨t, he, hc, hj⟩
    · refine ⟨[], c, rfl, ?_, ?_, fun t => ?_⟩
      · rw [sayings, hnext]
        cases e.worker with
        | none => rfl
        | some t =>
            change [] = Object.saying direct t (status (s.ctl t)) (status (s'.ctl t))
            rw [hc, saying_self]
      · rw [hc, hd]
        exact hv
      · rw [hc, hst]
    · obtain ⟨v', hshows, hm⟩ := hjump s t _ _ _ hr hv hj
      rw [← hst t] at hm
      rw [← hc] at hshows
      obtain ⟨bs, hrun, hlog⟩ := hm.run
      refine ⟨bs, _, hrun, ?_, hshows, fun u => ?_⟩
      · rw [hlog, sayings, he, hnext, hst]
      · rw [hc]
        by_cases hu : u = t
        · subst hu
          simp only [Object.Conf.move, Function.update_self]
        · simp only [Object.Conf.move, Function.update_of_ne hu, hst]

/-- The same for a value that the control points and the data determine. -/
theorem linearizable_of_jumps {O : Object T Op Res σ} {status : κ → Status Op Res}
    {direct : Op → Res} (view : (T → κ) → δ → σ) (hinit : O.init (view ctl data))
    (haway : ∀ t, status (ctl t) = .away)
    (hjump : ∀ s t k y, (machine code ctl data).Reachable s →
      Jump code s.now (s.ctl t) s.data k y →
      O.Moves direct t (view s.ctl s.data) (view (Function.update s.ctl t k) y)
        (status (s.ctl t)) (status k)) :
    Object.Linearizable (machine code ctl data) (sayings code status direct) O := by
  refine linearizable_of_moves (fun ctl x v => v = view ctl x) ⟨_, hinit, rfl⟩ haway ?_
  intro s t k y v hr hv hj
  rw [hv]
  exact ⟨_, rfl, hjump s t k y hr hj⟩

end Ums.Monitor
