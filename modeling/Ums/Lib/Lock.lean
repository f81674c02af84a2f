import Ums.Lib.Object

/-!
# Locks as objects

The value of a lock says how often each caller holds it. One caller at most does, and
no oftener than a limit: with the limit one it is a mutex, with a higher one a recursive
mutex. What the callers of a linearizable lock are told is enough for them to exclude each
other (`Object.Linearizable.exclusive`). A gate is a lock that anybody may open; its callers
exclude each other if they open only what they have (`Object.Linearizable.behaved`).
-/

namespace Ums.Lib

/-- The operations of a lock. -/
inductive LockOp where
  /-- Returns when the lock is acquired, or refuses the caller who holds it too often. -/
  | lock
  /-- Returns at once. -/
  | tryLock
  /-- Returns when the lock is acquired or a time is over. -/
  | timedLock
  | unlock
  deriving DecidableEq

/-- What they answer. -/
inductive LockRes where
  | acquired
  | refused
  | released
  deriving DecidableEq

variable {T : Type} [DecidableEq T]

/-- What the operations do to the number of times that each caller holds the lock; `mayFail` are
those that may fail for no reason. -/
inductive LockEff (limit : Nat) (mayFail : LockOp → Bool) (t : T) :
    LockOp → (T → Nat) → Option LockRes → (T → Nat) → Prop
  | acquires {o held} (ho : o ≠ .unlock) (hfree : ∀ u, u ≠ t → held u = 0)
      (hl : held t < limit) :
      LockEff limit mayFail t o held (some .acquired) (Function.update held t (held t + 1))
  /-- The caller holds it as often as it can. -/
  | full {o held} (ho : o ≠ .unlock) (hl : held t = limit) :
      LockEff limit mayFail t o held (some .refused) held
  /-- Somebody else holds it. -/
  | busy {o held u} (ho : o = .tryLock ∨ o = .timedLock) (hu : u ≠ t) (hb : 0 < held u) :
      LockEff limit mayFail t o held (some .refused) held
  | fails {o held} (ho : o ≠ .unlock) (hm : mayFail o = true) :
      LockEff limit mayFail t o held (some .refused) held
  | releases {held} (hb : 0 < held t) :
      LockEff limit mayFail t .unlock held (some .released)
        (Function.update held t (held t - 1))

/-- A lock. -/
def lock (T : Type) [DecidableEq T] (limit : Nat) (mayFail : LockOp → Bool) :
    Object T LockOp LockRes (T → Nat) where
  init held := ∀ t, held t = 0
  eff := LockEff limit mayFail

namespace LockEff

variable {limit : Nat} {mayFail : LockOp → Bool} {t : T} {o : LockOp} {held held' : T → Nat}
  {r : Option LockRes}

theorem acquires_to {n : Nat} (ho : o ≠ .unlock) (hfree : ∀ u, u ≠ t → held u = 0)
    (hl : held t < limit) (hn : n = held t + 1) :
    LockEff limit mayFail t o held (some .acquired) (Function.update held t n) := by
  rw [hn]
  exact .acquires ho hfree hl

theorem releases_to {n : Nat} (hb : 0 < held t) (hn : n = held t - 1) :
    LockEff limit mayFail t .unlock held (some .released) (Function.update held t n) := by
  rw [hn]
  exact .releases hb

/-- Nobody but the caller gets or gives up the lock. -/
theorem others (h : LockEff limit mayFail t o held r held') {u : T} (hu : u ≠ t) :
    held' u = held u := by
  cases h with
  | acquires | releases => exact Function.update_of_ne hu ..
  | _ => rfl

/-- **One caller at most holds the lock**, and no oftener than it may. -/
theorem exclusive (h : LockEff limit mayFail t o held r held')
    (hx : ∀ u w, 0 < held u → 0 < held w → u = w) (u w : T) (hu : 0 < held' u)
    (hw : 0 < held' w) : u = w := by
  cases h with
  | acquires ho hfree hl =>
      -- everybody else was without the lock
      have hmine : ∀ w, 0 < Function.update held t (held t + 1) w → w = t := fun w hw => by
        by_contra hne
        rw [Function.update_of_ne hne, hfree w hne] at hw
        exact Nat.lt_irrefl 0 hw
      rw [hmine u hu, hmine w hw]
  | releases hb =>
      have hback : ∀ w, 0 < Function.update held t (held t - 1) w → 0 < held w := fun w hw => by
        by_cases hwt : w = t
        · rw [hwt]
          exact hb
        · rwa [Function.update_of_ne hwt] at hw
      exact hx u w (hback u hu) (hback w hw)
  | _ => exact hx u w hu hw

end LockEff

/-! ## What the callers are told -/

/-- How often a caller has been told that it has the lock, less how often it has called `unlock`. -/
def kept (t : T) (h : List (Saying T LockOp LockRes)) : Int :=
  Object.balance .acquired .unlock t h

/-- What the value is ahead of what the caller has been told. -/
def unsaid (st : Status LockOp LockRes) : Int :=
  Object.ahead .acquired .unlock st

theorem kept_append (t : T) (h h' : List (Saying T LockOp LockRes)) :
    kept t (h ++ h') = kept t h + kept t h' :=
  Object.balance_append t h h'

theorem kept_call (t u : T) (o : LockOp) :
    kept u [.call t o] = if u = t ∧ o = .unlock then -1 else 0 :=
  Object.balance_call t u o

theorem kept_ret (t u : T) (r : LockRes) :
    kept u [.ret t r] = if u = t ∧ r = .acquired then 1 else 0 :=
  Object.balance_ret t u r

theorem unsaid_nonneg (st : Status LockOp LockRes) : 0 ≤ unsaid st :=
  Object.ahead_nonneg st

section

variable {limit : Nat} {mayFail : LockOp → Bool}
  {c c' : Object.Conf T LockOp LockRes (T → Nat)}

/-- The value of a lock keeps count of what its callers are told. -/
theorem lock_counts : (lock T limit mayFail).Counts .acquired .unlock fun held t => held t where
  mine t o held r held' he := by
    have he' : LockEff limit mayFail t o held r held' := he
    cases he' with
    | acquires ho => simp [ho]
    | full ho | fails ho => simp [ho]
    | busy ho => rcases ho with rfl | rfl <;> simp
    | releases hb =>
        simp only [Function.update_self]
        simp
        omega
  others t o held r held' u he hu := by
    have hsame := LockEff.others he hu
    rw [hsame]

theorem lock_exclusive (h : (lock T limit mayFail).machine.Reachable c) :
    ∀ u w, 0 < c.val u → 0 < c.val w → u = w := by
  refine Machine.Reach.invariant (I := fun c : Object.Conf T LockOp LockRes (T → Nat) =>
    ∀ u w, 0 < c.val u → 0 < c.val w → u = w) ?_ ?_ h
  · rintro c ⟨h0, -⟩ u w hu -
    rw [h0 u] at hu
    exact absurd hu (Nat.lt_irrefl 0)
  · intro c e c' _ _ hs hx
    cases Object.steps_of_next hs with
    | call | ret => exact hx
    | effect _ he => exact LockEff.exclusive he hx

/-- **What the callers of a linearizable lock are told is enough**: at any time one of them at most
has been told that it has the lock and not called `unlock` since. -/
theorem Object.Linearizable.exclusive {τ ε : Type} {M : Machine τ ε}
    {f : τ → ε → List (Saying T LockOp LockRes)}
    (h : Object.Linearizable M f (lock T limit mayFail)) {s s' : τ} {es : List ε}
    (hi : M.init s) (hr : M.run s es = some s') {t u : T} (ht : 0 < kept t (M.log f s es))
    (hu : 0 < kept u (M.log f s es)) : t = u := by
  obtain ⟨c, bs, c', hc, hrun, hlog⟩ := h s es s' hi hr
  have hheld : ∀ w, 0 < kept w (M.log f s es) → 0 < c'.val w := fun w hw => by
    have hle := lock_counts.le hc (fun w => congrArg Nat.cast (hc.1 w)) hrun w
    rw [hlog] at hle
    rw [kept] at hw
    omega
  exact lock_exclusive (Machine.reachable_of_run (.init hc) bs hrun) t u (hheld t ht) (hheld u hu)

end

/-! ## A lock without an owner -/

/-- What the operations do to a lock that anybody may open. -/
inductive GateEff (mayFail : LockOp → Bool) : LockOp → Bool → Option LockRes → Bool → Prop
  | acquires {o} (ho : o ≠ .unlock) : GateEff mayFail o false (some .acquired) true
  | busy {o} (ho : o = .tryLock ∨ o = .timedLock) : GateEff mayFail o true (some .refused) true
  | fails {o shut} (ho : o ≠ .unlock) (hm : mayFail o = true) :
      GateEff mayFail o shut (some .refused) shut
  | releases {shut} : GateEff mayFail .unlock shut (some .released) false

/-- A lock that is shut or open. -/
def gate (T : Type) (mayFail : LockOp → Bool) : Object T LockOp LockRes Bool where
  init shut := shut = false
  eff _ := GateEff mayFail

/-- Nobody calls `unlock` but with the lock. -/
def Behaved (h : List (Saying T LockOp LockRes)) : Prop :=
  ∀ n < h.length, ∀ t, h[n]? = some (.call t .unlock) → 0 < kept t (h.take n)

theorem Behaved.left {h h' : List (Saying T LockOp LockRes)} (hb : Behaved (h ++ h')) :
    Behaved h := by
  intro n hn t ht
  have hlt : n < (h ++ h').length := by
    rw [List.length_append]
    omega
  have hpos := hb n hlt t (by rwa [List.getElem?_append_left hn])
  rwa [List.take_append_of_le_length (Nat.le_of_lt hn)] at hpos

theorem Behaved.last {h : List (Saying T LockOp LockRes)} {t : T}
    (hb : Behaved (h ++ [.call t .unlock])) : 0 < kept t h := by
  have hpos := hb h.length (by simp) t (by simp)
  rwa [List.take_left] at hpos

theorem unsaid_calling {o : LockOp} (h : o ≠ .unlock) : unsaid (.calling o) = 0 := by
  cases o with
  | unlock => exact absurd rfl h
  | _ => rfl

section

variable {mayFail : LockOp → Bool} {c c' : Object.Conf T LockOp LockRes Bool}
  {h : List (Saying T LockOp LockRes)}

/-- What a caller has of a gate: it has been told so, or is about to be, and has not opened it. -/
def having (c : Object.Conf T LockOp LockRes Bool) (h : List (Saying T LockOp LockRes)) (t : T) :
    Int :=
  kept t h + unsaid (c.status t)

/-- While everybody opens only what it has, a gate has an owner. -/
structure Gated (c : Object.Conf T LockOp LockRes Bool) (h : List (Saying T LockOp LockRes)) :
    Prop where
  nonneg : ∀ t, 0 ≤ kept t h
  once : ∀ t, having c h t ≤ 1
  shut : ∀ t, 0 < having c h t → c.val = true
  unique : ∀ t u, 0 < having c h t → 0 < having c h u → t = u

/-- Nothing changes for anybody. -/
theorem Gated.same {h' : List (Saying T LockOp LockRes)} (hg : Gated c h)
    (hn : ∀ t, 0 ≤ kept t h') (hh : ∀ t, having c' h' t = having c h t) (hv : c'.val = c.val) :
    Gated c' h' where
  nonneg := hn
  once t := by
    rw [hh]
    exact hg.once t
  shut t ht := by
    rw [hh] at ht
    rw [hv]
    exact hg.shut t ht
  unique t u ht hu := by
    rw [hh] at ht hu
    exact hg.unique t u ht hu

theorem Gated.step {e : Object.Act T LockOp LockRes Bool} (hg : Gated c h)
    (hn : (gate T mayFail).machine.next c e = some c') (hb : Behaved (h ++ Object.said c e)) :
    Gated c' (h ++ Object.said c e) := by
  cases Object.steps_of_next hn with
  | @call t o hs =>
      have hsaid : Object.said c (.call t o : Object.Act T LockOp LockRes Bool) = [.call t o] := rfl
      rw [hsaid] at hb ⊢
      refine hg.same (fun u => ?_) (fun u => ?_) rfl
      · have hu := hg.nonneg u
        rw [kept_append, kept_call]
        split
        · -- it has the lock that it opens
          rename_i hut
          rw [hut.2] at hb
          have hpos := hb.last
          rw [hut.1]
          omega
        · omega
      · rw [having, having, kept_append, kept_call, Object.Conf.move_status]
        by_cases hut : u = t
        · subst hut
          rw [if_pos rfl, hs]
          cases o with
          | unlock =>
              have hone : unsaid (.calling .unlock) = 1 := rfl
              have hzero : unsaid .away = 0 := rfl
              rw [if_pos ⟨rfl, rfl⟩]
              omega
          | _ => simp [unsaid, Object.ahead]
        · rw [if_neg hut, if_neg fun hu => hut hu.1]
          omega
  | @effect t o r v hs he =>
      have hsaid : h ++ Object.said c (.effect t r v) = h := List.append_nil h
      rw [hsaid]
      have hhave : ∀ u, having ({ c with val := v }.move t (r.elim (.calling o) .leaving)) h u =
          if u = t then kept t h + unsaid (r.elim (.calling o) .leaving) else having c h u :=
        fun u => by
          rw [having, having, Object.Conf.move_status]
          by_cases hut : u = t
          · rw [if_pos hut, if_pos hut, hut]
          · rw [if_neg hut, if_neg hut]
      have hcall : having c h t = kept t h + unsaid (.calling o) := by rw [having, hs]
      have he' : GateEff mayFail o c.val r v := he
      generalize hval : c.val = v₀ at he'
      cases he' with
      | acquires ho =>
          simp only [Option.elim_some] at hhave ⊢
          -- it was open, so nobody had it
          have hnone : ∀ u, ¬0 < having c h u := fun u hu => by
            rw [hg.shut u hu] at hval
            cases hval
          have hkept := hg.nonneg t
          have ht := hnone t
          rw [hcall, unsaid_calling ho] at ht
          have hone : unsaid (.leaving .acquired) = 1 := rfl
          have hmine : ∀ u, 0 < having ({ c with val := true }.move t (.leaving .acquired)) h u →
              u = t := fun u hu => by
            by_contra hut
            rw [hhave, if_neg hut] at hu
            exact hnone u hu
          refine ⟨hg.nonneg, fun u => ?_, fun _ _ => rfl, fun u w hu hw => ?_⟩
          · rw [hhave]
            split
            · omega
            · exact hg.once u
          · rw [hmine u hu, hmine w hw]
      | busy ho | fails ho =>
          simp only [Option.elim_some] at hhave ⊢
          refine hg.same hg.nonneg (fun u => ?_) hval.symm
          rw [hhave]
          split
          · rename_i hut
            have hzero : unsaid (.leaving .refused) = 0 := rfl
            have hop : o ≠ .unlock := by
              first | exact ho | (rcases ho with rfl | rfl <;> decide)
            rw [hut, hcall, unsaid_calling hop, hzero]
          · rfl
      | releases =>
          simp only [Option.elim_some] at hhave ⊢
          -- its caller had it, once, and nobody else
          have hone : unsaid (.calling .unlock) = 1 := rfl
          have hzero : unsaid (.leaving .released) = 0 := rfl
          have hkept := hg.nonneg t
          have honce := hg.once t
          have hnone : ∀ u, ¬0 < having ({ c with val := false }.move t (.leaving .released)) h u :=
            fun u hu => by
              rw [hhave] at hu
              by_cases hut : u = t
              · rw [if_pos hut] at hu
                omega
              · rw [if_neg hut] at hu
                exact hut (hg.unique u t hu (by omega))
          refine ⟨hg.nonneg, fun u => ?_, fun u hu => absurd hu (hnone u),
            fun u w hu => absurd hu (hnone u)⟩
          have hu := hnone u
          omega
  | @ret t r hs =>
      rw [Object.said_ret hs]
      refine hg.same (fun u => ?_) (fun u => ?_) rfl
      · have hu := hg.nonneg u
        rw [kept_append, kept_ret]
        split <;> omega
      · rw [having, having, kept_append, kept_ret, Object.Conf.move_status]
        by_cases hut : u = t
        · subst hut
          rw [if_pos rfl, hs]
          cases r <;> simp [unsaid, Object.ahead]
        · rw [if_neg hut, if_neg fun hu => hut hu.1]
          omega

theorem Gated.run (es : List (Object.Act T LockOp LockRes Bool)) (hg : Gated c h)
    (hr : (gate T mayFail).machine.run c es = some c')
    (hb : Behaved (h ++ (gate T mayFail).machine.log Object.said c es)) :
    Gated c' (h ++ (gate T mayFail).machine.log Object.said c es) := by
  induction es generalizing c h with
  | nil =>
      rw [Machine.run_nil] at hr
      rw [← Option.some.inj hr]
      rw [show (gate T mayFail).machine.log Object.said c [] = [] from rfl, List.append_nil]
      exact hg
  | cons e es ih =>
      obtain ⟨m, hm, hrest⟩ := Machine.run_cons_some hr
      rw [Machine.log_cons _ hm, ← List.append_assoc] at hb ⊢
      exact ih (hg.step hm hb.left) hrest hb

/-- **A linearizable gate excludes those who open only what they have**: at any time one of them
at most has been told that it has it and not called `unlock` since. -/
theorem Object.Linearizable.behaved {τ ε : Type} {M : Machine τ ε}
    {f : τ → ε → List (Saying T LockOp LockRes)}
    (hl : Object.Linearizable M f (gate T mayFail)) {s s' : τ} {es : List ε}
    (hi : M.init s) (hr : M.run s es = some s') (hb : Behaved (M.log f s es)) {t u : T}
    (ht : 0 < kept t (M.log f s es)) (hu : 0 < kept u (M.log f s es)) : t = u := by
  obtain ⟨c, bs, c', hc, hrun, hlog⟩ := hl s es s' hi hr
  have hstart : ∀ w, having c [] w = 0 := fun w => by
    rw [having, hc.2 w]
    rfl
  have hgated : Gated c [] :=
    ⟨fun _ => Int.le_refl 0, fun w => by rw [hstart w]; decide,
      fun w hw => absurd hw (by rw [hstart w]; decide),
      fun w _ hw => absurd hw (by rw [hstart w]; decide)⟩
  rw [← hlog] at hb
  have hend := hgated.run bs hrun hb
  rw [List.nil_append, hlog] at hend
  have hhave : ∀ w, 0 < kept w (M.log f s es) → 0 < having c' (M.log f s es) w := fun w hw => by
    have hn := unsaid_nonneg (c'.status w)
    rw [having]
    omega
  exact hend.unique t u (hhave t ht) (hhave u hu)

end

end Ums.Lib
