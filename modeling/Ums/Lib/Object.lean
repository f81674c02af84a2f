import Mathlib.Algebra.Order.BigOperators.Group.Finset
import Mathlib.Logic.Function.Basic
import Ums.Lib.Bins
import Ums.Lib.Simulation

/-!
# Linearizable objects

An `Object` is given by what its operations do to its value, each in one piece. Its own
machine lets every caller call an operation, lets the operation take effect at some moment,
and lets the caller return with the result. A machine is linearizable if whatever its
callers and it say to each other, the callers and the object may say.

An effect without a result belongs to an operation that goes on: one that takes several
steps which others can see.
-/

namespace Ums.Lib

/-- Where a caller is. -/
inductive Status (Op Res : Type) where
  /-- In its own code. -/
  | away
  /-- In an operation that has no result yet. -/
  | calling (o : Op)
  /-- About to return. -/
  | leaving (r : Res)
  deriving DecidableEq

/-- What passes between a caller and the object. -/
inductive Saying (T Op Res : Type) where
  | call (t : T) (o : Op)
  | ret (t : T) (r : Res)
  deriving DecidableEq

/-- What the operations do. -/
structure Object (T Op Res σ : Type) where
  /-- The values to begin with. -/
  init : σ → Prop
  /-- What an operation of a caller does, and its result, if it has one by then. -/
  eff : T → Op → σ → Option Res → σ → Prop

namespace Object

variable {T Op Res σ : Type} [DecidableEq T]

/-- The value and the callers. -/
structure Conf (T Op Res σ : Type) where
  /-- The value. -/
  val : σ
  /-- Where each caller is. -/
  status : T → Status Op Res

/-- What can happen. -/
inductive Act (T Op Res σ : Type) where
  /-- A caller calls an operation. -/
  | call (t : T) (o : Op)
  /-- The operation of a caller takes effect. -/
  | effect (t : T) (r : Option Res) (v : σ)
  /-- A caller returns. -/
  | ret (t : T)

/-- A caller goes on. -/
def Conf.move (c : Conf T Op Res σ) (t : T) (st : Status Op Res) : Conf T Op Res σ :=
  { c with status := Function.update c.status t st }

theorem Conf.move_status (c : Conf T Op Res σ) (t u : T) (st : Status Op Res) :
    (c.move t st).status u = if u = t then st else c.status u :=
  Function.update_apply ..

open Classical in
/-- One step of the callers and the object. -/
noncomputable def next (O : Object T Op Res σ) (c : Conf T Op Res σ) :
    Act T Op Res σ → Option (Conf T Op Res σ)
  | .call t o => if c.status t = .away then some (c.move t (.calling o)) else none
  | .effect t r v =>
    match c.status t with
    | .calling o =>
      if O.eff t o c.val r v then
        some ({ c with val := v }.move t (r.elim (.calling o) .leaving))
      else none
    | _ => none
  | .ret t =>
    match c.status t with
    | .leaving _ => some (c.move t .away)
    | _ => none

/-- The object and its callers. -/
noncomputable def machine (O : Object T Op Res σ) : Machine (Conf T Op Res σ) (Act T Op Res σ) where
  init c := O.init c.val ∧ ∀ t, c.status t = .away
  next := O.next

/-- What a step says. -/
def said (c : Conf T Op Res σ) : Act T Op Res σ → List (Saying T Op Res)
  | .call t o => [.call t o]
  | .effect .. => []
  | .ret t =>
    match c.status t with
    | .leaving r => [.ret t r]
    | _ => []

variable {O : Object T Op Res σ} {c : Conf T Op Res σ} {t : T}

theorem next_call {o : Op} (h : c.status t = .away) :
    O.machine.next c (.call t o) = some (c.move t (.calling o)) :=
  if_pos h

theorem next_effect {o : Op} {r : Option Res} {v : σ} (h : c.status t = .calling o)
    (he : O.eff t o c.val r v) :
    O.machine.next c (.effect t r v) =
      some ({ c with val := v }.move t (r.elim (.calling o) .leaving)) := by
  simp only [machine, next, h, if_pos he]

theorem next_ret {r : Res} (h : c.status t = .leaving r) :
    O.machine.next c (.ret t) = some (c.move t .away) := by
  simp only [machine, next, h]

omit [DecidableEq T] in
theorem said_ret {r : Res} (h : c.status t = .leaving r) :
    said c (.ret t : Act T Op Res σ) = [.ret t r] := by
  simp only [said, h]

/-- The outcomes of a step. -/
inductive Steps (O : Object T Op Res σ) (c : Conf T Op Res σ) :
    Act T Op Res σ → Conf T Op Res σ → Prop
  | call {t o} (h : c.status t = .away) : Steps O c (.call t o) (c.move t (.calling o))
  | effect {t o r v} (h : c.status t = .calling o) (he : O.eff t o c.val r v) :
      Steps O c (.effect t r v) ({ c with val := v }.move t (r.elim (.calling o) .leaving))
  | ret {t r} (h : c.status t = .leaving r) : Steps O c (.ret t) (c.move t .away)

theorem steps_of_next {c' : Conf T Op Res σ} {e : Act T Op Res σ}
    (h : O.machine.next c e = some c') : O.Steps c e c' := by
  change O.next c e = some c' at h
  cases e with
  | call t o =>
      by_cases hs : c.status t = .away
      · rw [next, if_pos hs] at h
        cases h
        exact .call hs
      · rw [next, if_neg hs] at h
        cases h
  | effect t r v =>
      cases hs : c.status t with
      | calling o =>
          simp only [next, hs] at h
          by_cases he : O.eff t o c.val r v
          · rw [if_pos he] at h
            cases h
            exact .effect hs he
          · rw [if_neg he] at h
            cases h
      | _ => simp only [next, hs, reduceCtorEq] at h
  | ret t =>
      cases hs : c.status t with
      | leaving r =>
          simp only [next, hs] at h
          cases h
          exact .ret hs
      | _ => simp only [next, hs, reduceCtorEq] at h

/-- **Every history of the machine is one of the object.** -/
def Linearizable {τ ε : Type} (M : Machine τ ε) (f : τ → ε → List (Saying T Op Res))
    (O : Object T Op Res σ) : Prop :=
  ∀ s es s', M.init s → M.run s es = some s' →
    ∃ c bs c', O.machine.init c ∧ O.machine.run c bs = some c' ∧
      O.machine.log said c bs = M.log f s es

/-- What the object simulates is linearizable. -/
theorem linearizable_of_simulates {τ ε : Type} {M : Machine τ ε}
    {f : τ → ε → List (Saying T Op Res)} {R : τ → Conf T Op Res σ → Prop}
    (h : Simulates M (fun _ _ => True) O.machine R f said) : Linearizable M f O := by
  intro s es s' hi hr
  obtain ⟨c, hc, hR⟩ := h.init s hi
  obtain ⟨bs, c', hrun, hlog, -⟩ := h.run es (.init hi) (.init hc) hR (Machine.meets_true s es) hr
  exact ⟨c, bs, c', hc, hrun, hlog⟩

/-! ## One caller at a time -/

/-- What a caller says when it goes on; `direct` is the result of an operation that takes effect as
it returns. -/
def saying (direct : Op → Res) (t : T) : Status Op Res → Status Op Res → List (Saying T Op Res)
  | .away, .calling o => [.call t o]
  | .leaving r, .away => [.ret t r]
  | .calling o, .away => [.ret t (direct o)]
  | _, _ => []

/-- What a step of a caller does to the value, by where it leads. -/
inductive Moves (O : Object T Op Res σ) (direct : Op → Res) (t : T) (v v' : σ) :
    Status Op Res → Status Op Res → Prop
  /-- The caller goes on in its own code, or on its way out. -/
  | stay {st} (hv : v' = v) : Moves O direct t v v' st st
  | call {o} (hv : v' = v) : Moves O direct t v v' .away (.calling o)
  /-- Others see that the operation has come further. -/
  | goes {o} (he : O.eff t o v none v') : Moves O direct t v v' (.calling o) (.calling o)
  | effect {o r} (he : O.eff t o v (some r) v') : Moves O direct t v v' (.calling o) (.leaving r)
  | ret {r} (hv : v' = v) : Moves O direct t v v' (.leaving r) .away
  /-- The operation takes effect as it returns. -/
  | direct {o} (he : O.eff t o v (some (direct o)) v') : Moves O direct t v v' (.calling o) .away

/-- **A move is a run of the object** that says the same. -/
theorem Moves.run {direct : Op → Res} {v' : σ} {st : Status Op Res}
    (h : Moves O direct t c.val v' (c.status t) st) :
    ∃ bs, O.machine.run c bs = some ({ c with val := v' }.move t st) ∧
      O.machine.log said c bs = saying direct t (c.status t) st := by
  have hself : ∀ {st' : Status Op Res}, c.status t = st' →
      ({ c with val := c.val }.move t st') = c := fun he => by
    rw [Conf.move, ← he, Function.update_eq_self]
  generalize hs : c.status t = st₀ at h
  cases h with
  | stay hv =>
      refine ⟨[], ?_, ?_⟩
      · rw [hv, hself hs]
        rfl
      · cases st <;> rfl
  | @call o hv =>
      refine ⟨[.call t o], ?_, ?_⟩
      · rw [Machine.run_singleton, next_call hs, hv]
      · rw [Machine.log_singleton (next_call hs)]
        rfl
  | goes he =>
      have hn := next_effect hs he
      exact ⟨[.effect t none v'], by rw [Machine.run_singleton, hn]; rfl,
        by rw [Machine.log_singleton hn]; rfl⟩
  | @effect o r he =>
      have hn := next_effect hs he
      exact ⟨[.effect t (some r) v'], by rw [Machine.run_singleton, hn]; rfl,
        by rw [Machine.log_singleton hn]; rfl⟩
  | ret hv =>
      have hn := next_ret (O := O) hs
      refine ⟨[.ret t], ?_, ?_⟩
      · rw [Machine.run_singleton, hn, hv]
      · rw [Machine.log_singleton hn, said_ret hs]
        rfl
  | @direct o he =>
      -- the effect, and the return from it
      have h1 : O.machine.next c (.effect t (some (direct o)) v') =
          some ({ c with val := v' }.move t (.leaving (direct o))) := next_effect hs he
      have hs' : ({ c with val := v' }.move t (.leaving (direct o))).status t =
          .leaving (direct o) := Function.update_self ..
      have h2 := next_ret (O := O) hs'
      refine ⟨[.effect t (some (direct o)) v', .ret t], ?_, ?_⟩
      · rw [Machine.run_cons_of_next _ h1, Machine.run_singleton]
        refine h2.trans (congrArg some ?_)
        simp only [Conf.move, Function.update_idem]
      · rw [Machine.log_cons _ h1, Machine.log_singleton h2, said_ret hs']
        rfl

/-! ## What the callers are told -/

section

variable [DecidableEq Op] [DecidableEq Res]

/-- How often a caller has been told `gets`, less how often it has called `gives`. -/
def balance (gets : Res) (gives : Op) (t : T) (h : List (Saying T Op Res)) : Int :=
  (h.count (.ret t gets) : Int) - h.count (.call t gives)

/-- What the value is ahead of what the caller has been told. -/
def ahead (gets : Res) (gives : Op) : Status Op Res → Int
  | .away => 0
  | .calling o => if o = gives then 1 else 0
  | .leaving r => if r = gets then 1 else 0

variable {gets : Res} {gives : Op}

theorem balance_append (t : T) (h h' : List (Saying T Op Res)) :
    balance gets gives t (h ++ h') = balance gets gives t h + balance gets gives t h' := by
  simp only [balance, List.count_append]
  omega

theorem balance_call (t u : T) (o : Op) :
    balance gets gives u [.call t o] = if u = t ∧ o = gives then -1 else 0 := by
  by_cases h : u = t ∧ o = gives
  · rw [if_pos h, h.1, h.2]
    simp [balance]
  · rw [if_neg h]
    have hne : ¬(t = u ∧ o = gives) := fun he => h ⟨he.1.symm, he.2⟩
    simp [balance, hne]

theorem balance_ret (t u : T) (r : Res) :
    balance gets gives u [.ret t r] = if u = t ∧ r = gets then 1 else 0 := by
  by_cases h : u = t ∧ r = gets
  · rw [if_pos h, h.1, h.2]
    simp [balance]
  · rw [if_neg h]
    have hne : ¬(t = u ∧ r = gets) := fun he => h ⟨he.1.symm, he.2⟩
    simp [balance, hne]

omit [DecidableEq T] in
theorem ahead_nonneg (st : Status Op Res) : 0 ≤ ahead gets gives st := by
  unfold ahead
  split
  · exact Int.le_refl 0
  · split <;> decide
  · split <;> decide

/-- The value keeps count of the answers `gets` and the calls of `gives`. -/
structure Counts (O : Object T Op Res σ) (gets : Res) (gives : Op) (m : σ → T → Int) : Prop where
  mine : ∀ t o v r v', O.eff t o v r v' → m v' t = m v t + (if r = some gets then 1 else 0) -
    (if o = gives ∧ r.isSome = true then 1 else 0)
  others : ∀ t o v r v' u, O.eff t o v r v' → u ≠ t → m v' u = m v u

variable {m : σ → T → Int} {c' : Conf T Op Res σ}

/-- **One act** tells its caller what it does. -/
theorem Counts.next {e : Act T Op Res σ} (hm : O.Counts gets gives m)
    (h : O.machine.next c e = some c') (t : T) :
    m c'.val t - ahead gets gives (c'.status t) =
      m c.val t - ahead gets gives (c.status t) + balance gets gives t (said c e) := by
  cases steps_of_next h with
  | @call u o hs =>
      have hsaid : said c (.call u o : Act T Op Res σ) = [.call u o] := rfl
      rw [hsaid, balance_call, Conf.move_status]
      by_cases ht : t = u
      · subst ht
        rw [if_pos rfl, hs]
        simp only [Conf.move, ahead, true_and]
        split <;> omega
      · rw [if_neg ht, if_neg fun hu => ht hu.1]
        simp only [Conf.move]
        omega
  | @effect u o r v hs he =>
      have hsaid : balance gets gives t (said c (.effect u r v : Act T Op Res σ)) = 0 := rfl
      rw [hsaid, Conf.move_status]
      by_cases ht : t = u
      · subst ht
        have hmine := hm.mine t o c.val r v he
        rw [if_pos rfl, hs]
        simp only [Conf.move]
        cases r with
        | none =>
            simp only [Option.elim_none]
            simp at hmine
            omega
        | some r =>
            simp only [Option.elim_some, ahead]
            simp at hmine
            omega
      · have hother := hm.others u o c.val r v t he ht
        rw [if_neg ht]
        simp only [Conf.move]
        omega
  | @ret u r hs =>
      rw [said_ret hs, balance_ret, Conf.move_status]
      by_cases ht : t = u
      · subst ht
        rw [if_pos rfl, hs]
        simp only [Conf.move, ahead, true_and]
        split <;> omega
      · rw [if_neg ht, if_neg fun hu => ht hu.1]
        simp only [Conf.move]
        omega

theorem Counts.run (hm : O.Counts gets gives m) (es : List (Act T Op Res σ))
    (h : O.machine.run c es = some c') (t : T) :
    m c'.val t - ahead gets gives (c'.status t) = m c.val t - ahead gets gives (c.status t) +
      balance gets gives t (O.machine.log said c es) := by
  induction es generalizing c with
  | nil =>
      rw [Machine.run_nil] at h
      rw [Option.some.inj h]
      simp [Machine.log, balance]
  | cons e es ih =>
      obtain ⟨b, hb, hr⟩ := Machine.run_cons_some h
      rw [Machine.log_cons _ hb, balance_append, ih hr, hm.next hb t]
      omega

/-- Whoever has been told that it has something has it. -/
theorem Counts.le (hm : O.Counts gets gives m) {es : List (Act T Op Res σ)}
    (hi : O.machine.init c) (h0 : ∀ t, m c.val t = 0) (h : O.machine.run c es = some c') (t : T) :
    balance gets gives t (O.machine.log said c es) ≤ m c'.val t := by
  have hrun := hm.run es h t
  have hstart : ahead gets gives (c.status t) = 0 := by
    rw [hi.2 t]
    rfl
  have hend : 0 ≤ ahead gets gives (c'.status t) := ahead_nonneg _
  rw [h0 t, hstart] at hrun
  omega

/-! ## What all of them are told -/

/-- The value pays for every answer `gets` with a call of `gives`. -/
structure Spends (O : Object T Op Res σ) (gets : Res) (gives : Op) (m : σ → Int) : Prop where
  eff : ∀ t o v r v', O.eff t o v r v' → m v' + (if r = some gets then 1 else 0) ≤
    m v + (if o = gives ∧ r.isSome = true then 1 else 0)

variable [Fintype T] {m' : σ → Int}

/-- What the value is ahead of what all the callers have been told. -/
def aheadBy (gets : Res) (gives : Op) (c : Conf T Op Res σ) : Int :=
  ∑ t, ahead gets gives (c.status t)

/-- What all the callers have been told. -/
def balanceBy (gets : Res) (gives : Op) (h : List (Saying T Op Res)) : Int :=
  ∑ t, balance gets gives t h

theorem aheadBy_move (t : T) (st : Status Op Res) :
    aheadBy gets gives (c.move t st) =
      aheadBy gets gives c + (ahead gets gives st - ahead gets gives (c.status t)) :=
  sum_update_tag c.status (ahead gets gives) t st

theorem balanceBy_append (h h' : List (Saying T Op Res)) :
    balanceBy gets gives (h ++ h') = balanceBy gets gives h + balanceBy gets gives h' := by
  rw [balanceBy, balanceBy, balanceBy, ← Finset.sum_add_distrib]
  exact Finset.sum_congr rfl fun t _ => balance_append t h h'

theorem balanceBy_call (t : T) (o : Op) :
    balanceBy gets gives [(.call t o : Saying T Op Res)] = if o = gives then -1 else 0 := by
  rw [balanceBy, Finset.sum_congr rfl fun u _ => balance_call t u o]
  by_cases ho : o = gives
  · simp [ho]
  · simp [ho]

theorem balanceBy_ret (t : T) (r : Res) :
    balanceBy gets gives [(.ret t r : Saying T Op Res)] = if r = gets then 1 else 0 := by
  rw [balanceBy, Finset.sum_congr rfl fun u _ => balance_ret t u r]
  by_cases hr : r = gets
  · simp [hr]
  · simp [hr]

/-- **One act** spends what it tells. -/
theorem Spends.next {e : Act T Op Res σ} (hm : O.Spends gets gives m')
    (h : O.machine.next c e = some c') :
    m' c'.val + aheadBy gets gives c' + balanceBy gets gives (said c e) ≤
      m' c.val + aheadBy gets gives c := by
  cases steps_of_next h with
  | @call u o hs =>
      have hsaid : said c (.call u o : Act T Op Res σ) = [.call u o] := rfl
      rw [hsaid, balanceBy_call, aheadBy_move, hs]
      simp only [Conf.move, ahead]
      split <;> omega
  | @effect u o r v hs he =>
      have hsaid : said c (.effect u r v : Act T Op Res σ) = [] := rfl
      have hzero : balanceBy gets gives ([] : List (Saying T Op Res)) = 0 := by
        simp [balanceBy, balance]
      have heff := hm.eff u o c.val r v he
      have hahead : aheadBy gets gives ({ c with val := v }.move u (r.elim (.calling o) .leaving)) =
          aheadBy gets gives c +
            (ahead gets gives (r.elim (.calling o) .leaving) - ahead gets gives (c.status u)) :=
        aheadBy_move (c := { c with val := v }) u _
      rw [hsaid, hzero, hahead, hs]
      simp only [Conf.move]
      cases r with
      | none =>
          simp only [Option.elim_none]
          simp at heff
          omega
      | some r =>
          simp only [Option.elim_some, ahead]
          simp at heff
          omega
  | @ret u r hs =>
      rw [said_ret hs, balanceBy_ret, aheadBy_move, hs]
      simp only [Conf.move, ahead]
      split <;> omega

theorem Spends.run (hm : O.Spends gets gives m') (es : List (Act T Op Res σ))
    (h : O.machine.run c es = some c') :
    m' c'.val + aheadBy gets gives c' + balanceBy gets gives (O.machine.log said c es) ≤
      m' c.val + aheadBy gets gives c := by
  induction es generalizing c with
  | nil =>
      rw [Machine.run_nil] at h
      rw [Option.some.inj h]
      simp [Machine.log, balanceBy, balance]
  | cons e es ih =>
      obtain ⟨b, hb, hr⟩ := Machine.run_cons_some h
      have hstep := hm.next hb
      have hrest := ih hr
      rw [Machine.log_cons _ hb, balanceBy_append]
      omega

/-- **What the callers of a linearizable object are told has been paid for.** -/
theorem Linearizable.spends {τ ε : Type} {M : Machine τ ε} {f : τ → ε → List (Saying T Op Res)}
    (hl : Linearizable M f O) (hm : O.Spends gets gives m') (h0 : ∀ v, O.init v → m' v = 0)
    (hpos : ∀ v, 0 ≤ m' v) {s s' : τ} {es : List ε} (hi : M.init s) (hr : M.run s es = some s') :
    balanceBy gets gives (M.log f s es) ≤ 0 := by
  obtain ⟨c, bs, c', hc, hrun, hlog⟩ := hl s es s' hi hr
  have hspent := hm.run bs hrun
  have hstart : aheadBy gets gives c = 0 := Finset.sum_eq_zero fun t _ => by
    rw [hc.2 t]
    rfl
  have hend : 0 ≤ aheadBy gets gives c' := Finset.sum_nonneg fun t _ => ahead_nonneg _
  have hval := hpos c'.val
  rw [h0 c.val hc.1, hstart, hlog] at hspent
  omega

end

/-! ## Operations that are functions -/

/-- An object whose operations are functions of its value. -/
def sequential (T : Type) (init : σ) (f : Op → σ → Res × σ) : Object T Op Res σ where
  init v := v = init
  eff _ o v r v' := r = some (f o v).1 ∧ v' = (f o v).2

end Object

end Ums.Lib
