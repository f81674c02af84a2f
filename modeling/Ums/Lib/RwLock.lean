import Mathlib.Algebra.Order.BigOperators.Group.Finset
import Ums.Lib.Bins
import Ums.Lib.Object

/-!
# Reader-writer locks as objects

The value of a reader-writer lock says what each caller has of it. A writer comes in two
steps: it enters, and nobody else does from then on; and it owns the lock when the readers
have left. What the callers of a linearizable reader-writer lock are told is enough for the
writers to exclude everybody else, and for the readers to be as few as the lock can count
(`Object.Linearizable.writers_exclude`).
-/

namespace Ums.Lib

/-- The operations of a reader-writer lock. -/
inductive RwOp where
  /-- Returns when the lock is acquired. -/
  | lock
  /-- Returns at once. -/
  | tryLock
  /-- Returns when the lock is acquired or a time is over. -/
  | timedLock
  | unlock
  | lockShared
  | tryLockShared
  | timedLockShared
  | unlockShared
  deriving DecidableEq

/-- What they answer. -/
inductive RwRes where
  | owned
  | shared
  | refused
  | released
  deriving DecidableEq

/-- What a caller has of the lock. -/
structure Part where
  /-- It owns the lock. -/
  owns : Bool := false
  /-- It has entered, and waits for the readers to leave. -/
  waits : Bool := false
  /-- How many shared locks it has. -/
  shared : Nat := 0
  deriving DecidableEq

/-- It owns the lock, or has entered. -/
def Part.writes (p : Part) : Bool := p.owns || p.waits

variable {T : Type} [DecidableEq T] [Fintype T]

/-- All the shared locks. -/
def sharedBy (v : T → Part) : Nat := ∑ t, (v t).shared

/-- What the operations do to the parts of the callers; there are `limit` shared locks at most. -/
inductive RwEff (limit : Nat) (t : T) : RwOp → (T → Part) → Option RwRes → (T → Part) → Prop
  /-- A writer enters. -/
  | enters {o v} (ho : o = .lock ∨ o = .timedLock) (hw : ∀ u, (v u).writes = false) :
      RwEff limit t o v none (Function.update v t { v t with waits := true })
  /-- It has waited for the readers to leave. -/
  | owns {o v} (ho : o = .lock ∨ o = .timedLock) (hw : (v t).waits = true)
      (hx : (v t).owns = false) (hr : sharedBy v = 0) :
      RwEff limit t o v (some .owned)
        (Function.update v t { v t with owns := true, waits := false })
  | takes {v} (hw : ∀ u, (v u).writes = false) (hr : sharedBy v = 0) :
      RwEff limit t .tryLock v (some .owned) (Function.update v t { v t with owns := true })
  /-- There is a writer. -/
  | busy {o v u} (ho : o ≠ .lock ∧ o ≠ .lockShared ∧ o ≠ .unlock ∧ o ≠ .unlockShared)
      (hu : (v u).writes = true) : RwEff limit t o v (some .refused) v
  /-- There are readers. -/
  | read {v} (hr : 0 < sharedBy v) : RwEff limit t .tryLock v (some .refused) v
  /-- Its time is over before the readers have left. -/
  | givesUp {v} (hw : (v t).waits = true) (hr : 0 < sharedBy v) :
      RwEff limit t .timedLock v (some .refused) (Function.update v t { v t with waits := false })
  | unlocks {v} (hx : (v t).owns = true) :
      RwEff limit t .unlock v (some .released) (Function.update v t { v t with owns := false })
  | shares {o v} (ho : o = .lockShared ∨ o = .timedLockShared ∨ o = .tryLockShared)
      (hw : ∀ u, (v u).writes = false) (hl : sharedBy v < limit) :
      RwEff limit t o v (some .shared)
        (Function.update v t { v t with shared := (v t).shared + 1 })
  /-- There are as many readers as can be. -/
  | full {o v} (ho : o = .timedLockShared ∨ o = .tryLockShared) (hl : sharedBy v = limit) :
      RwEff limit t o v (some .refused) v
  | unshares {v} (hs : 0 < (v t).shared) :
      RwEff limit t .unlockShared v (some .released)
        (Function.update v t { v t with shared := (v t).shared - 1 })

/-- A reader-writer lock. -/
def rwLock (T : Type) [DecidableEq T] [Fintype T] (limit : Nat) :
    Object T RwOp RwRes (T → Part) where
  init v := ∀ t, v t = {}
  eff := RwEff limit

/-- What excludes what. -/
structure Excludes (limit : Nat) (v : T → Part) : Prop where
  unique : ∀ t u, (v t).writes = true → (v u).writes = true → t = u
  alone : ∀ t, (v t).owns = true → sharedBy v = 0
  bound : sharedBy v ≤ limit

variable {limit : Nat} {t : T} {v v' : T → Part} {o : RwOp} {r : Option RwRes}

theorem sharedBy_update (p : Part) :
    sharedBy (Function.update v t p) + (v t).shared = sharedBy v + p.shared := by
  have hsum := sum_update_tag v (fun p => (p.shared : Int)) t p
  have h1 : ((sharedBy (Function.update v t p) : Nat) : Int) =
      ∑ u, ((Function.update v t p u).shared : Int) := by
    rw [sharedBy, Nat.cast_sum]
  have h2 : ((sharedBy v : Nat) : Int) = ∑ u, ((v u).shared : Int) := by
    rw [sharedBy, Nat.cast_sum]
  omega

omit [DecidableEq T] in
theorem shared_le_sharedBy (v : T → Part) (t : T) : (v t).shared ≤ sharedBy v :=
  Finset.single_le_sum (f := fun t => (v t).shared) (fun _ _ => Nat.zero_le _) (Finset.mem_univ t)

theorem sharedBy_same {p : Part} (hp : p.shared = (v t).shared) :
    sharedBy (Function.update v t p) = sharedBy v := by
  have hsum := sharedBy_update (v := v) (t := t) p
  omega

omit [Fintype T] in
/-- What holds of a part after a change holds of the new part, or held before. -/
theorem of_update {P : Part → Prop} {p : Part} {u : T} (h : P (Function.update v t p u)) :
    (u = t ∧ P p) ∨ P (v u) := by
  by_cases hu : u = t
  · rw [hu, Function.update_self] at h
    exact Or.inl ⟨hu, h⟩
  · rw [Function.update_of_ne hu] at h
    exact Or.inr h

namespace Excludes

/-- Nobody becomes a writer. -/
theorem fewer {p : Part} (hv : Excludes limit v) (hp : p.writes = true → (v t).writes = true)
    (ho : p.owns = true → (v t).owns = true) (hs : p.shared = (v t).shared) :
    Excludes limit (Function.update v t p) := by
  have hw : ∀ u, (Function.update v t p u).writes = true → (v u).writes = true := fun u hu => by
    rcases of_update (P := fun p => p.writes = true) hu with ⟨rfl, hpw⟩ | huw
    · exact hp hpw
    · exact huw
  refine ⟨fun u w hu hx => hv.unique u w (hw u hu) (hw w hx), fun u hu => ?_, ?_⟩
  · rw [sharedBy_same hs]
    rcases of_update (P := fun p => p.owns = true) hu with ⟨rfl, hpo⟩ | huo
    · exact hv.alone _ (ho hpo)
    · exact hv.alone u huo
  · rw [sharedBy_same hs]
    exact hv.bound

/-- One caller is the only writer. -/
theorem only {p : Part} (hv : Excludes limit v) (hn : ∀ u, u ≠ t → (v u).writes = false)
    (ho : p.owns = true → sharedBy v = 0) (hs : p.shared = (v t).shared) :
    Excludes limit (Function.update v t p) := by
  have hmine : ∀ u, (Function.update v t p u).writes = true → u = t := fun u hu => by
    by_contra hne
    rw [Function.update_of_ne hne, hn u hne] at hu
    cases hu
  refine ⟨fun u w hu hw => by rw [hmine u hu, hmine w hw], fun u hu => ?_, ?_⟩
  · have hut : u = t := hmine u (by rw [Part.writes, hu, Bool.true_or])
    rw [hut, Function.update_self] at hu
    rw [sharedBy_same hs]
    exact ho hu
  · rw [sharedBy_same hs]
    exact hv.bound

/-- There is no writer, and the shared locks are not too many. -/
theorem readers {p : Part} (hn : ∀ u, (Function.update v t p u).owns = false)
    (hu : ∀ u w, (Function.update v t p u).writes = true →
      (Function.update v t p w).writes = true → u = w)
    (hb : sharedBy (Function.update v t p) ≤ limit) : Excludes limit (Function.update v t p) := by
  refine ⟨hu, fun u ho => ?_, hb⟩
  rw [hn u] at ho
  cases ho

end Excludes

theorem owns_of_not_writes {p : Part} (h : p.writes = false) : p.owns = false := by
  rw [Part.writes, Bool.or_eq_false_iff] at h
  exact h.1

namespace RwEff

/-- Nothing becomes of the parts of the others. -/
theorem others (h : RwEff limit t o v r v') {u : T} (hu : u ≠ t) : v' u = v u := by
  cases h with
  | busy | read | full => rfl
  | _ => exact Function.update_of_ne hu ..

/-- **A writer excludes everybody else.** -/
theorem excludes (h : RwEff limit t o v r v') (hv : Excludes limit v) : Excludes limit v' := by
  cases h with
  | enters ho hw =>
      refine hv.only (fun u _ => hw u) (fun hx => ?_) rfl
      rw [owns_of_not_writes (hw t)] at hx
      cases hx
  | owns ho hw hx hr =>
      have hmine : (v t).writes = true := by rw [Part.writes, hw, Bool.or_true]
      refine hv.only (fun u hu => ?_) (fun _ => hr) rfl
      by_contra hne
      exact hu (hv.unique u t ((Bool.not_eq_false _).mp hne) hmine)
  | takes hw hr => exact hv.only (fun u _ => hw u) (fun _ => hr) rfl
  | busy | read | full => exact hv
  | givesUp hw hr =>
      refine hv.fewer (fun _ => ?_) id rfl
      rw [Part.writes, hw, Bool.or_true]
  | unlocks hx =>
      refine hv.fewer (fun _ => ?_) nofun rfl
      rw [Part.writes, hx, Bool.true_or]
  | shares ho hw hl =>
      have hnone : ∀ u, (Function.update v t { v t with shared := (v t).shared + 1 } u).writes =
          false := fun u => by
        by_cases hu : u = t
        · rw [hu, Function.update_self]
          exact hw t
        · rw [Function.update_of_ne hu]
          exact hw u
      have hsum : sharedBy (Function.update v t { v t with shared := (v t).shared + 1 }) +
          (v t).shared = sharedBy v + ((v t).shared + 1) := sharedBy_update _
      refine .readers (fun u => owns_of_not_writes (hnone u)) (fun u w hu => ?_) ?_
      · rw [hnone u] at hu
        cases hu
      · omega
  | unshares hs =>
      have hsum : sharedBy (Function.update v t { v t with shared := (v t).shared - 1 }) +
          (v t).shared = sharedBy v + ((v t).shared - 1) := sharedBy_update _
      have hle := shared_le_sharedBy v t
      have hbound := hv.bound
      -- nobody owns the lock beside a reader
      have hnone : ∀ u, (v u).owns = false := fun u => by
        by_contra hne
        have hzero := hv.alone u ((Bool.not_eq_false _).mp hne)
        omega
      have hw : ∀ u, (Function.update v t { v t with shared := (v t).shared - 1 } u).writes =
          (v u).writes := fun u => by
        by_cases hu : u = t
        · rw [hu, Function.update_self]
          rfl
        · rw [Function.update_of_ne hu]
      refine .readers (fun u => ?_) (fun u w hu hx => ?_) ?_
      · by_cases hu : u = t
        · rw [hu, Function.update_self]
          exact hnone t
        · rw [Function.update_of_ne hu]
          exact hnone u
      · rw [hw] at hu hx
        exact hv.unique u w hu hx
      · omega

end RwEff

/-! ## What the callers are told -/

theorem owned_counts : (rwLock T limit).Counts .owned .unlock
    fun v t => if (v t).owns then 1 else 0 where
  mine t o v r v' he := by
    have he' : RwEff limit t o v r v' := he
    cases he' with
    | enters ho hw => simp
    | owns ho hw hx =>
        have hop : o ≠ .unlock := by rcases ho with rfl | rfl <;> decide
        simp [hx, hop]
    | takes hw => simp [owns_of_not_writes (hw t)]
    | busy ho => simp [ho.2.2.1]
    | unlocks hx => simp [hx]
    | shares ho => rcases ho with rfl | rfl | rfl <;> simp
    | full ho => rcases ho with rfl | rfl <;> simp
    | read | givesUp | unshares => simp
  others t o v r v' u he hu := by
    have hsame := RwEff.others he hu
    rw [hsame]

theorem shared_counts : (rwLock T limit).Counts .shared .unlockShared
    fun v t => (v t).shared where
  mine t o v r v' he := by
    have he' : RwEff limit t o v r v' := he
    cases he' with
    | enters ho hw => simp
    | owns ho => rcases ho with rfl | rfl <;> simp
    | busy ho => simp [ho.2.2.2]
    | shares ho => rcases ho with rfl | rfl | rfl <;> simp
    | full ho => rcases ho with rfl | rfl <;> simp
    | unshares hs =>
        simp
        omega
    | takes | read | givesUp | unlocks => simp
  others t o v r v' u he hu := by
    have hsame := RwEff.others he hu
    rw [hsame]

theorem excludes_reachable {c : Object.Conf T RwOp RwRes (T → Part)}
    (h : (rwLock T limit).machine.Reachable c) : Excludes limit c.val := by
  refine Machine.Reach.invariant (I := fun c : Object.Conf T RwOp RwRes (T → Part) =>
    Excludes limit c.val) ?_ ?_ h
  · rintro c ⟨h0, -⟩
    have hp : ∀ t, c.val t = {} := h0
    have hzero : sharedBy c.val = 0 := Finset.sum_eq_zero fun t _ => by rw [hp t]
    refine ⟨fun t u ht => ?_, fun t ht => hzero, by rw [hzero]; exact Nat.zero_le _⟩
    rw [hp t] at ht
    cases ht
  · intro c e c' _ _ hs hx
    cases Object.steps_of_next hs with
    | call | ret => exact hx
    | effect _ he => exact RwEff.excludes he hx

/-- **What the callers of a linearizable reader-writer lock are told is enough.** At any time one
of them at most has been told that it owns the lock and not called `unlock` since; nobody has been
told then that it shares the lock more often than it has called `unlock_shared`; and all that have
been told so are as few as the lock can count. -/
theorem Object.Linearizable.writers_exclude {τ ε : Type} {M : Machine τ ε}
    {f : τ → ε → List (Saying T RwOp RwRes)} (hl : Object.Linearizable M f (rwLock T limit))
    {s s' : τ} {es : List ε} (hi : M.init s) (hr : M.run s es = some s') :
    (∀ t u, 0 < Object.balance .owned .unlock t (M.log f s es) →
      0 < Object.balance .owned .unlock u (M.log f s es) → t = u) ∧
    (∀ t u, 0 < Object.balance .owned .unlock t (M.log f s es) →
      Object.balance .shared .unlockShared u (M.log f s es) ≤ 0) ∧
    ∑ t, Object.balance .shared .unlockShared t (M.log f s es) ≤ limit := by
  obtain ⟨c, bs, c', hc, hrun, hlog⟩ := hl s es s' hi hr
  have hx := excludes_reachable (Machine.reachable_of_run (.init hc) bs hrun)
  have h0 : ∀ t, c.val t = {} := hc.1
  have howns : ∀ t, 0 < Object.balance .owned .unlock t (M.log f s es) → (c'.val t).owns = true :=
    fun t ht => by
      have hle := owned_counts.le hc (fun t => by rw [h0 t]; rfl) hrun t
      rw [hlog] at hle
      by_contra hne
      rw [if_neg hne] at hle
      omega
  have hshared : ∀ t, Object.balance .shared .unlockShared t (M.log f s es) ≤ (c'.val t).shared :=
    fun t => by
      have hle := shared_counts.le hc (fun t => by rw [h0 t]; rfl) hrun t
      rwa [hlog] at hle
  have hwrites : ∀ t, (c'.val t).owns = true → (c'.val t).writes = true := fun t ht => by
    rw [Part.writes, ht, Bool.true_or]
  refine ⟨fun t u ht hu => ?_, fun t u ht => ?_, ?_⟩
  · exact hx.unique t u (hwrites t (howns t ht)) (hwrites u (howns u hu))
  · have hzero := hx.alone t (howns t ht)
    have hle := shared_le_sharedBy c'.val u
    have hu := hshared u
    omega
  · calc ∑ t, Object.balance .shared .unlockShared t (M.log f s es)
        ≤ ∑ t, ((c'.val t).shared : Int) := Finset.sum_le_sum fun t _ => hshared t
      _ = (sharedBy c'.val : Int) := by rw [sharedBy, Nat.cast_sum]
      _ ≤ limit := Int.ofNat_le.mpr hx.bound

end Ums.Lib
