import Ums.Task.Completion
import Ums.Task.Outcome

/-!
# What one consumer gets

The runs here carry along how the function of the task has ended. When a single worker waits
for the task and gets its result, the first `get` yields just that and the later ones throw,
and neither `wait` nor `get` returns before: the done bit says that the outcome is stored, and
between its test of the taken bit and the set nobody else is on the way.

A function that returns nothing has the result type `Unit`.
-/

namespace Ums.Task

open Monitor TaskState

variable {R E T : Type} [DecidableEq T] {moved : R → R} {c k : Ctl R E} {x y : Data R E}
  {now : Time} {o : Option (Except E R)} {t u w : T}

/-- What a call of `get` yields when the function has ended so. -/
def deliver : Except E R → Outcome R E
  | .ok r => .result (some r)
  | .error e => .exception e

/-- How the function of the task has ended, after a step. -/
def noteEnd (_ : State T Unit Unit (Data R E) (Ctl R E)) (e : Event T (Ctl R E))
    (_ : State T Unit Unit (Data R E) (Ctl R E)) (ended : Option (Except E R)) :
    Option (Except E R) :=
  match e with
  | .choose _ (.exec (.store o)) => some o
  | _ => ended

/-- The machine whose states say how the function has ended. -/
abbrev noted (moved : R → R) (E : Type) {T : Type} [DecidableEq T] (w : T) :
    Lib.Machine (State T Unit Unit (Data R E) (Ctl R E) × Option (Except E R))
      (Event T (Ctl R E)) :=
  (machine moved E w).track none noteEnd

/-- Nobody but `u` calls `wait` and `get`. -/
def OneConsumer (u : T) (_ : State T Unit Unit (Data R E) (Ctl R E) × Option (Except E R))
    (e : Event T (Ctl R E)) : Prop :=
  ∀ t k, e = .choose t k → k.calls = true → t = u

/-! ## What the done bit says -/

/-- The task holds how its function has ended, a result until the first `get` ends. -/
def Data.stores (x : Data R E) : Except E R → Prop
  | .ok r => (x.outcomes = [] → x.storage = some r) ∧ x.exception = none
  | .error e => x.storage = none ∧ x.exception = some e

/-- Nothing is stored. -/
def Data.blank (x : Data R E) : Prop :=
  x.storage = none ∧ x.exception = none ∧ isDone x.state = false

/-- What the point the executing worker has come to says about the task. -/
def Produced (x : Data R E) (o : Option (Except E R)) : Ctl R E → Prop
  | .exec .invoke => o = none ∧ x.blank
  | .exec (.store r) => o = some r ∧ x.blank
  | _ => ∃ r, o = some r ∧ x.stores r

/-- What `wait` and `get` leave as it is. -/
structure Same (x y : Data R E) : Prop where
  /-- The done bit. -/
  done : isDone y.state = isDone x.state
  /-- The storage, until the first `get` ends. -/
  storage : y.outcomes = [] → x.outcomes = [] ∧ y.storage = x.storage
  /-- An empty storage. -/
  empty : x.storage = none → y.storage = none
  /-- The exception. -/
  exception : y.exception = x.exception

theorem Same.blank (h : Same x y) (hb : x.blank) : y.blank :=
  ⟨h.empty hb.1, h.exception.trans hb.2.1, h.done.trans hb.2.2⟩

theorem Same.stores {r : Except E R} (h : Same x y) (hs : x.stores r) : y.stores r := by
  cases r with
  | ok r =>
      refine ⟨fun hy => ?_, h.exception.trans hs.2⟩
      obtain ⟨hx, hsame⟩ := h.storage hy
      exact hsame.trans (hs.1 hx)
  | error e => exact ⟨h.empty hs.1, h.exception.trans hs.2⟩

theorem Same.produced (h : Same x y) (hp : Produced x o c) : Produced y o c := by
  unfold Produced at hp ⊢
  split at hp
  · exact ⟨hp.1, h.blank hp.2⟩
  · exact ⟨hp.1, h.blank hp.2⟩
  · obtain ⟨r, ho, hs⟩ := hp
    exact ⟨r, ho, h.stores hs⟩

/-- When the done bit is set, the outcome is stored. -/
theorem Produced.stored (h : Produced x o c) (hd : isDone x.state = true) :
    ∃ r, o = some r ∧ x.stores r := by
  unfold Produced at h
  split at h
  · rw [h.2.2.2] at hd
    cases hd
  · rw [h.2.2.2] at hd
    cases hd
  · exact h

/-- `wait` changes nothing. -/
theorem wait_of_jump {p : WaitPoint} (hj : Jump (code moved) now (.wait p) x k y) : y = x := by
  cases goes_of_jump hj <;> rfl

/-- Nobody but the executing worker changes what is stored. -/
theorem same_of_jump (hj : Jump (code moved) now c x k y) (hc : c.executes = false) :
    Same x y ∧ k.executes = false := by
  cases goes_of_jump hj with
  | calls hk => rcases hk with rfl | rfl <;> exact ⟨⟨rfl, fun h => ⟨h, rfl⟩, id, rfl⟩, rfl⟩
  | setTaken => exact ⟨⟨isDone_setTaken _, fun h => ⟨h, rfl⟩, id, rfl⟩, rfl⟩
  | wait | waited | passes | getWait | getWaited | spares =>
      exact ⟨⟨rfl, fun h => ⟨h, rfl⟩, id, rfl⟩, rfl⟩
  | taken | rethrows => exact ⟨⟨rfl, nofun, id, rfl⟩, rfl⟩
  | extracts =>
      -- what is left behind is no result any more, but this call has ended
      exact ⟨⟨rfl, nofun, Option.map_eq_none_iff.mpr, rfl⟩, rfl⟩
  | _ => cases hc

/-- What the executing worker does to the task, from its function on. -/
theorem produced_of_jump {p : ExecPoint R E} (hj : Jump (code moved) now (.exec p) x k y)
    (hi : p ≠ .invoke) (h : Produced x o (.exec p)) :
    Produced y o k ∧ isTaken y.state = isTaken x.state ∧ y.outcomes = x.outcomes := by
  cases goes_of_jump hj with
  | invokes => exact absurd rfl hi
  | returns =>
      obtain ⟨ho, _, he, _⟩ := h
      exact ⟨⟨_, ho, fun _ => rfl, he⟩, rfl, rfl⟩
  | throws =>
      obtain ⟨ho, hs, _, _⟩ := h
      exact ⟨⟨_, ho, hs, rfl⟩, rfl, rfl⟩
  | setDone =>
      obtain ⟨r, ho, hs⟩ := h
      refine ⟨⟨r, ho, ?_⟩, isTaken_setDone _, rfl⟩
      cases r with
      | ok r => exact hs
      | error e => exact hs
  | returned =>
      obtain ⟨r, ho, hs⟩ := h
      refine ⟨⟨r, ho, ?_⟩, rfl, rfl⟩
      cases r with
      | ok r => exact hs
      | error e => exact hs
  | enter | leave | notify => exact ⟨h, rfl, rfl⟩

/-! ## What the consumer knows -/

/-- Nothing has been taken. -/
def Data.fresh (x : Data R E) : Prop := isTaken x.state = false ∧ x.outcomes = []

/-- One call of `get` has yielded how the function has ended, and the later ones have thrown. -/
def Settled (x : Data R E) (o : Option (Except E R)) : Prop :=
  isTaken x.state = true ∧ isDone x.state = true ∧
    ∃ r n, o = some r ∧ x.outcomes = List.replicate n .alreadyTaken ++ [deliver r]

/-- What the consumer knows before its next statement. -/
def Consumed (x : Data R E) (o : Option (Except E R)) : Ctl R E → Prop
  | .wait (.await a) => a.untimed = true ∧ (x.fresh ∨ Settled x o)
  | .wait .leave => isDone x.state = true ∧ (x.fresh ∨ Settled x o)
  | .get (.wait .enter) => x.fresh
  | .get (.wait (.await a)) => a.untimed = true ∧ x.fresh
  | .get (.wait .leave) | .get .setTaken => isDone x.state = true ∧ x.fresh
  | .get .rethrow => isDone x.state = true ∧ isTaken x.state = true ∧ x.outcomes = []
  | .get .extract =>
    isDone x.state = true ∧ isTaken x.state = true ∧ x.outcomes = [] ∧ x.exception = none
  | _ => x.fresh ∨ Settled x o

/-- The calls that have returned. -/
theorem Consumed.outcomes (h : Consumed x o c) :
    x.outcomes = [] ∨
      ∃ r n, o = some r ∧ x.outcomes = List.replicate n .alreadyTaken ++ [deliver r] := by
  unfold Consumed at h
  split at h
  · exact h.2.imp And.right fun hs => hs.2.2
  · exact h.2.imp And.right fun hs => hs.2.2
  · exact Or.inl h.2
  · exact Or.inl h.2.2
  · exact Or.inl h.2.2
  · exact Or.inl h.2.2
  · exact Or.inl h.2.2
  · exact Or.inl h.2.2.1
  · exact h.imp And.right fun hs => hs.2.2

/-- **A statement of the consumer.** -/
theorem consumed_of_jump (hj : Jump (code moved) now c x k y) (hc : c.executes = false)
    (hstored : isDone x.state = true → ∃ r, o = some r ∧ x.stores r) (h : Consumed x o c) :
    Consumed y o k := by
  cases goes_of_jump hj with
  | calls hk => rcases hk with rfl | rfl <;> exact h
  | wait hw =>
      cases hw with
      | enter => exact ⟨rfl, h⟩
      | on hu => exact ⟨hu h.1, h.2⟩
      | ends hd => exact ⟨hd h.1, h.2⟩
  | waited => exact h.2
  | taken ht =>
      rcases h with hf | ⟨_, hd, r, n, ho, hout⟩
      · rw [hf.1] at ht
        cases ht
      · refine Or.inr ⟨ht, hd, r, n + 1, ho, ?_⟩
        rw [List.replicate_succ, List.cons_append, ← hout]
        rfl
  | passes ht =>
      refine h.resolve_right fun hs => ?_
      rw [hs.1] at ht
      cases ht
  | getWait hw =>
      cases hw with
      | enter => exact ⟨rfl, h⟩
      | on hu => exact ⟨hu h.1, h.2⟩
      | ends hd => exact ⟨hd h.1, h.2⟩
  | getWaited => exact h
  | setTaken => exact ⟨(isDone_setTaken _).trans h.1, isTaken_setTaken _, h.2.2⟩
  | @rethrows e he =>
      obtain ⟨hd, ht, hout⟩ := h
      obtain ⟨r, ho, hr⟩ := hstored hd
      cases r with
      | ok r =>
          have hnone : x.exception = none := hr.2
          rw [he] at hnone
          cases hnone
      | error e' =>
          have hsome : x.exception = some e' := hr.2
          have hsame : e' = e := Option.some.inj (hsome.symm.trans he)
          subst hsame
          have houtcome : Outcome.exception (R := R) e' :: x.outcomes = [.exception e'] := by
            rw [hout]
          exact Or.inr ⟨ht, hd, _, 0, ho, houtcome⟩
  | spares he =>
      obtain ⟨hd, ht, hout⟩ := h
      exact ⟨hd, ht, hout, he⟩
  | extracts =>
      obtain ⟨hd, ht, hout, he⟩ := h
      obtain ⟨r, ho, hr⟩ := hstored hd
      cases r with
      | ok r =>
          have houtcome : Outcome.result (E := E) x.storage :: x.outcomes =
              [.result (some r)] := by rw [hr.1 hout, hout]
          exact Or.inr ⟨ht, hd, _, 0, ho, houtcome⟩
      | error e =>
          have hsome : x.exception = some e := hr.2
          rw [he] at hsome
          cases hsome
  | _ => cases hc

/-- The consumer knows it still when another worker goes on with the task. -/
theorem Consumed.transfer (h : Consumed x o c) (hd : isDone x.state = true → isDone y.state = true)
    (ht : isTaken y.state = isTaken x.state) (hout : y.outcomes = x.outcomes)
    (he : isDone x.state = true → y.exception = x.exception) : Consumed y o c := by
  have hfresh : x.fresh → y.fresh := fun hf => ⟨ht.trans hf.1, hout.trans hf.2⟩
  have hsettled : x.fresh ∨ Settled x o → y.fresh ∨ Settled y o := fun hs =>
    hs.imp hfresh fun ⟨h1, h2, r, n, h3, h4⟩ => ⟨ht.trans h1, hd h2, r, n, h3, hout.trans h4⟩
  unfold Consumed at h ⊢
  split at h
  · exact ⟨h.1, hsettled h.2⟩
  · exact ⟨hd h.1, hsettled h.2⟩
  · exact hfresh h
  · exact ⟨h.1, hfresh h.2⟩
  · exact ⟨hd h.1, hfresh h.2⟩
  · exact ⟨hd h.1, hfresh h.2⟩
  · exact ⟨hd h.1, ht.trans h.2.1, hout.trans h.2.2⟩
  · exact ⟨hd h.1, ht.trans h.2.1, hout.trans h.2.2.1, (he h.1).trans h.2.2.2⟩
  · exact hsettled h

/-! ## Along a run -/

variable {s s' : State T Unit Unit (Data R E) (Ctl R E)} {e : Event T (Ctl R E)}
  {p p' : State T Unit Unit (Data R E) (Ctl R E) × Option (Except E R)}

/-- The worker is in `wait` or in `get`. -/
def Ctl.calling : Ctl R E → Bool
  | .wait _ | .get _ => true
  | _ => false

/-- The executing worker and the one consumer, and what the task says to them. -/
structure Delivered (w u : T) (p : State T Unit Unit (Data R E) (Ctl R E) × Option (Except E R)) :
    Prop where
  /-- Nobody else is in `wait` or in `get`. -/
  solo : ∀ t, (p.1.ctl t).calling = true → t = u
  /-- What has been produced. -/
  produced : Produced p.1.data p.2 (p.1.ctl w)
  /-- What the consumer has got. -/
  consumed : Consumed p.1.data p.2 (p.1.ctl u)

/-- The function of the task ends. -/
theorem Delivered.ends {r : Except E R} (h : Delivered w u p) (hw : p.1.ctl w = .exec .invoke) :
    Delivered w u (p.1.goto w (.exec (.store r)), some r) := by
  have hp := h.produced
  rw [hw] at hp
  obtain ⟨ho, hs, he, hd⟩ := hp
  have hfresh : ∀ {c : Ctl R E}, Consumed p.1.data p.2 c → Consumed p.1.data (some r) c := by
    intro c hc
    have hno : ¬Settled p.1.data p.2 := fun hset => by rw [hset.2.1] at hd; cases hd
    unfold Consumed at hc ⊢
    split at hc <;> first
      | exact hc
      | exact ⟨hc.1, Or.inl (hc.2.resolve_right hno)⟩
      | exact Or.inl (hc.resolve_right hno)
  refine ⟨fun t ht => ?_, ?_, ?_⟩
  · by_cases htw : t = w
    · subst htw
      rw [State.goto_ctl, Function.update_self] at ht
      cases ht
    · rw [State.goto_ctl, Function.update_of_ne htw] at ht
      exact h.solo t ht
  · rw [State.goto_ctl, Function.update_self]
    exact ⟨rfl, hs, he, hd⟩
  · by_cases huw : u = w
    · subst huw
      rw [State.goto_ctl, Function.update_self]
      have hc := h.consumed
      rw [hw] at hc
      exact hfresh hc
    · rw [State.goto_ctl, Function.update_of_ne huw]
      exact hfresh h.consumed

/-- Outside of `wait` and `get` the consumer only knows what it has got. -/
theorem consumed_of_not_calling (h : c.calling = false) :
    Consumed x o c ↔ (x.fresh ∨ Settled x o) := by
  cases c with
  | wait p | get p => cases h
  | _ => rfl

/-- Unless it is still to store the outcome, the executing worker has stored it. -/
theorem produced_of_not_executing (h : c.executes = false) :
    Produced x o c ↔ ∃ r, o = some r ∧ x.stores r := by
  cases c with
  | exec p => cases h
  | _ => rfl

/-- **A call of the consumer begins.** -/
theorem Delivered.calls {k : Ctl R E} (h : Delivered w u p) (hu : p.1.ctl u = .idle)
    (hk : k.calls = true) : Delivered w u (p.1.goto u k, p.2) := by
  have hkc : k.executes = false ∧ ∀ {x : Data R E} {o : Option (Except E R)},
      Consumed x o k ↔ (x.fresh ∨ Settled x o) := by
    unfold Ctl.calls at hk
    split at hk
    · exact ⟨rfl, Iff.rfl⟩
    · exact ⟨rfl, Iff.rfl⟩
    · cases hk
  have hc := h.consumed
  have hp := h.produced
  rw [hu] at hc
  refine ⟨fun t ht => ?_, ?_, ?_⟩
  · by_contra htu
    rw [State.goto_ctl, Function.update_of_ne htu] at ht
    exact htu (h.solo t ht)
  · by_cases hwu : w = u
    · subst hwu
      rw [hu] at hp
      rw [State.goto_ctl, Function.update_self]
      exact (produced_of_not_executing hkc.1).mpr hp
    · rwa [State.goto_ctl, Function.update_of_ne hwu]
  · rw [State.goto_ctl, Function.update_self]
    exact hkc.2.mpr hc

/-- **A statement of the executing worker.** -/
theorem Delivered.execs {q : ExecPoint R E} (h : Delivered w u (s, o)) (hw : s.ctl w = .exec q)
    (hq : q ≠ .invoke) (hc : s'.ctl = Function.update s.ctl w (s'.ctl w))
    (hj : Jump (code moved) s.now (s.ctl w) s.data (s'.ctl w) s'.data) : Delivered w u (s', o) := by
  have hp : Produced s.data o (s.ctl w) := h.produced
  have hcons : Consumed s.data o (s.ctl u) := h.consumed
  have hother : ∀ t, t ≠ w → s'.ctl t = s.ctl t := fun t ht => by
    rw [hc, Function.update_of_ne ht]
  have hdone := (change_of_jump hj).isDone_mono
  rw [hw] at hj hp
  obtain ⟨hp', ht, hout⟩ := produced_of_jump hj hq hp
  have hnot : (s'.ctl w).calling = false := by
    cases change_of_jump hj with
    | call he => cases he
    | runs _ hk | finishes _ _ hk =>
        cases hk' : s'.ctl w with
        | wait p | get p =>
            rw [hk'] at hk
            cases hk
        | _ => rfl
    | returns _ hk => rw [hk]; rfl
  have hnew : Consumed s'.data o (s.ctl u) := by
    refine hcons.transfer hdone ht hout fun hd => ?_
    -- once the done bit is set, both know the same outcome
    obtain ⟨r, ho, hr⟩ := hp.stored hd
    obtain ⟨r', ho', hr'⟩ := hp'.stored (hdone hd)
    cases ho.symm.trans ho'
    cases r with
    | ok r => rw [hr.2, hr'.2]
    | error e => rw [hr.2, hr'.2]
  refine ⟨fun t hcall => ?_, hp', ?_⟩
  · by_cases htw : t = w
    · subst htw
      cases hnot.symm.trans hcall
    · exact h.solo t (by rw [← hother t htw]; exact hcall)
  · by_cases huw : u = w
    · subst huw
      rw [hw] at hnew
      exact (consumed_of_not_calling hnot).mpr hnew
    · show Consumed s'.data o (s'.ctl u)
      rw [hother u huw]
      exact hnew

/-- **A statement of the consumer, in `wait` or in `get`.** -/
theorem Delivered.goes (h : Delivered w u (s, o)) (hcall : (s.ctl u).calling = true)
    (hc : s'.ctl = Function.update s.ctl u (s'.ctl u))
    (hj : Jump (code moved) s.now (s.ctl u) s.data (s'.ctl u) s'.data) : Delivered w u (s', o) := by
  have hp : Produced s.data o (s.ctl w) := h.produced
  have hother : ∀ t, t ≠ u → s'.ctl t = s.ctl t := fun t ht => by
    rw [hc, Function.update_of_ne ht]
  have hex : (s.ctl u).executes = false := by
    cases hctl : s.ctl u with
    | exec q => rw [hctl] at hcall; cases hcall
    | _ => rfl
  obtain ⟨hsame, hex'⟩ := same_of_jump hj hex
  refine ⟨fun t ht => ?_, ?_, consumed_of_jump hj hex hp.stored h.consumed⟩
  · by_contra htu
    exact htu (h.solo t (by rw [← hother t htu]; exact ht))
  · by_cases hwu : w = u
    · subst hwu
      have hp' := hsame.produced hp
      rw [produced_of_not_executing hex] at hp'
      exact (produced_of_not_executing hex').mpr hp'
    · show Produced s'.data o (s'.ctl w)
      rw [hother w hwu]
      exact hsame.produced hp

/-- A call begins somewhere else, and so does the function when it ends. -/
theorem jump_ne (hj : Jump (code moved) now c x k y) (hc : c = .idle ∨ c = .exec .invoke) :
    k ≠ c := by
  rcases hc with rfl | rfl
  · cases goes_of_jump hj with
    | calls hk => rcases hk with rfl | rfl <;> nofun
  · cases goes_of_jump hj with
    | invokes => nofun

theorem Delivered.step (h : Delivered w u p) (hx : Executed w p.1) (hok : OneConsumer u p e)
    (hs : (noted moved E w).next p e = some p') : Delivered w u p' := by
  obtain ⟨s, o⟩ := p
  obtain ⟨s', o'⟩ := p'
  obtain ⟨hnext, hnote⟩ := Lib.Machine.track_next.mp hs
  have hnote : o' = noteEnd s e s' o := hnote
  have hst : Step (code moved) s e s' := step_of_next hnext
  by_cases he : ∃ t k, e = .choose t k
  · obtain ⟨t, k, rfl⟩ := he
    cases hst with
    | choose hcode hk =>
        rcases choose_cases hcode with ⟨hctl, rfl⟩ | ⟨hctl, rfl⟩
        · obtain rfl := hok t k rfl hk
          have hsame : o' = o := by
            rw [hnote]
            unfold Ctl.calls at hk
            split at hk <;> first | rfl | cases hk
          rw [hsame]
          exact h.calls hctl hk
        · obtain ⟨rfl, -⟩ := hx.one t (by rw [hctl]; rfl)
          unfold Ctl.invokes at hk
          split at hk
          · rw [hnote]
            exact h.ends hctl
          · cases hk
  · have hsame : o' = o := by
      rw [hnote]
      cases e with
      | choose t k => exact absurd ⟨t, k, rfl⟩ he
      | _ => rfl
    rw [hsame]
    rcases hst.jump with ⟨hc, hd⟩ | ⟨t, hc, hj⟩
    · refine ⟨fun t ht => h.solo t ?_, ?_, ?_⟩
      · rwa [← hc]
      · show Produced s'.data o (s'.ctl w)
        rw [hc, hd]
        exact h.produced
      · show Consumed s'.data o (s'.ctl u)
        rw [hc, hd]
        exact h.consumed
    · -- nobody leaves its own code by itself, and no function ends by itself
      have hstay : ∀ {ok : Ctl R E → Bool}, code moved (s.ctl t) = .choose ok →
          s'.ctl t = s.ctl t := fun hcode =>
        (jump_of_next hnext fun k hk => he ⟨t, k, hk⟩).resolve_right fun hr => hr.1 _ hcode
      cases hctl : s.ctl t with
      | idle =>
          have hcode : code moved (s.ctl t) = .choose Ctl.calls := by rw [hctl]; rfl
          exact absurd (hstay hcode) (jump_ne hj (Or.inl hctl))
      | exec q =>
          obtain ⟨rfl, -⟩ := hx.one t (by rw [hctl]; rfl)
          refine h.execs hctl (fun hq => ?_) hc hj
          subst hq
          have hcode : code moved (s.ctl t) = .choose Ctl.invokes := by rw [hctl]; rfl
          exact jump_ne hj (Or.inr hctl) (hstay hcode)
      | wait q | get q =>
          have hcall : (s.ctl t).calling = true := by rw [hctl]; rfl
          obtain rfl := h.solo t hcall
          exact h.goes hcall hc hj

theorem delivered_reach (h : (noted moved E w).Reach (OneConsumer u) p) : Delivered w u p := by
  refine Lib.Machine.Reach.invariant (I := fun p => Delivered w u p) ?_ ?_ h
  · rintro ⟨s, o⟩ ⟨⟨now, rfl⟩, rfl⟩
    have hidle : ∀ t, (if t = w then .exec .invoke else .idle : Ctl R E).calling = false :=
      fun t => by split <;> rfl
    have hdone : isDone 0#8 = false := by decide
    have htaken : isTaken 0#8 = false := by decide
    refine ⟨fun t ht => absurd ((hidle t).symm.trans ht) nofun, ?_, ?_⟩
    · show Produced _ _ (if w = w then .exec .invoke else .idle : Ctl R E)
      rw [if_pos rfl]
      exact ⟨rfl, rfl, rfl, hdone⟩
    · exact (consumed_of_not_calling (hidle u)).mpr (Or.inl ⟨htaken, rfl⟩)
  · intro p e p' hr hok hs hi
    exact hi.step (executed_reachable hr.untrack) hok hs

/-- A call that returns has found the task done, or the outcome taken. -/
theorem ended_of_return (hj : Jump (code moved) now c x k y) (hc : c.calling = true)
    (hk : k = .idle)
    (hstored : isDone x.state = true → ∃ r, o = some r ∧ x.stores r) (h : Consumed x o c) :
    ∃ r, o = some r := by
  have hdone : isDone x.state = true → ∃ r, o = some r := fun hd =>
    (hstored hd).imp fun _ hr => hr.1
  cases goes_of_jump hj with
  | waited => exact hdone h.1
  | taken ht =>
      rcases h with hf | hs
      · rw [hf.1] at ht
        cases ht
      · exact hdone hs.2.1
  | rethrows | extracts => exact hdone h.1
  | calls | returned => cases hc
  | _ => cases hk

end Ums.Task
