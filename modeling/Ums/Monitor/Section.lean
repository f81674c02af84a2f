import Ums.Monitor.Client
import Ums.Monitor.Relay

/-!
# A predicate wait and what follows it

A lock waits for its predicate and then writes down what it has taken, before it lets
go of the mutex. `Await.codeWith` is the predicate wait whose last test and the
statements after it are one step: nobody else can come between them, because the
worker has the mutex.
-/

namespace Ums.Monitor

variable {μ γ δ κ σ : Type} {v w : γ} {m l : μ} {pred : δ → Bool} {deadline : Option Time}
  {note : δ → σ} {inside : Await σ → κ} {fin : Bool → δ → δ × κ} {code : κ → Cmd μ γ δ κ}
  {now d : Time} {c k : κ} {x y : δ} {a : Await σ}

/-- The predicate wait of `Await.code`, which ends in `fin` of its result and of the data. -/
def Await.codeWith (v : γ) (m : μ) (pred : δ → Bool) (deadline : Option Time) (note : δ → σ)
    (inside : Await σ → κ) (fin : Bool → δ → δ × κ) : Await σ → Cmd μ γ δ κ
  | .test =>
    .act fun _ x =>
      if pred x then fin true x
      else (x, inside (if deadline.isSome then .clock (note x) else .body (note x)))
  | .clock seen =>
    .act fun now x =>
      (x, inside (if now ≥ deadline.getD Time.max then .last else .body seen))
  | .body _ =>
    .wait v m (deadline.getD Time.max) (inside (if deadline.isSome then .after else .test))
  | .after => .act fun now x => (x, inside (if now ≥ deadline.getD Time.max then .last else .test))
  | .last => .act fun _ x => fin (pred x) x

/-- Where a wait without a deadline is. -/
def Await.untimed : Await σ → Bool
  | .test | .body _ => true
  | _ => false

/-- The wait ends with the mutexes it began with. -/
theorem Await.keepsWith [DecidableEq μ] (holds : κ → μ → Bool) (h : μ → Bool) (hm : h m = true)
    (hi : ∀ b, holds (inside b) = h) (hf : ∀ r x, holds (fin r x).2 = h) (a : Await σ) :
    (a.codeWith v m pred deadline note inside fin).Keeps holds h := by
  cases a with
  | test =>
      intro _ x
      simp only
      split
      · exact hf true x
      · exact hi _
  | clock seen | after => exact fun _ _ => hi _
  | body seen => exact ⟨hm, hi _⟩
  | last => exact fun _ x => hf (pred x) x

/-- What a step of the wait does. -/
inductive Await.Goes (code : κ → Cmd μ γ δ κ) (pred : δ → Bool) (deadline : Option Time)
    (inside : Await σ → κ) (fin : Bool → δ → δ × κ) (c : κ) (x : δ) (a : Await σ) (k : κ) (y : δ) :
    Prop
  /-- The predicate is evaluated for the last time. -/
  | ends (hk : (y, k) = fin (pred x) x) (ht : a = .test → pred x = true)
      (ha : a = .test ∨ a = .last) (hc : ∃ f, code c = .act f)
  /-- The worker goes on, to wait only if it has found the predicate false. -/
  | on (b) (hk : k = inside b) (hy : y = x)
      (hb : b.refused = true → pred x = false ∨ (a.refused = true ∧ ∃ f, code c = .act f))
      (hu : deadline = none → a.untimed = true → b.untimed = true)

/-- **A step of a predicate wait ends it or stays inside.** -/
theorem Await.goes (hc : code c = a.codeWith v m pred deadline note inside fin)
    (hj : Jump code now c x k y) : Await.Goes code pred deadline inside fin c x a k y := by
  cases a with
  | test =>
      cases hj with
      | act hc' =>
          have hact : ∃ f, code c = .act f := ⟨_, hc'⟩
          rw [hc] at hc'
          cases hc'
          by_cases hp : pred x = true
          · refine .ends ?_ (fun _ => hp) (Or.inl rfl) hact
            simp only [hp, if_true]
          · refine .on _ (congrArg Prod.snd (if_neg hp)) (congrArg Prod.fst (if_neg hp)) ?_ ?_
            · exact fun _ => Or.inl (by simpa using hp)
            · rintro rfl _
              rfl
      | _ hc' => rw [hc] at hc'; cases hc'
  | clock seen =>
      have hact : ∃ f, code c = .act f := ⟨_, hc⟩
      cases hj with
      | act hc' =>
          rw [hc] at hc'
          cases hc'
          exact .on _ rfl rfl (fun _ => Or.inr ⟨rfl, hact⟩) (fun _ => nofun)
      | _ hc' => rw [hc] at hc'; cases hc'
  | body seen =>
      cases hj with
      | wait hc' =>
          rw [hc] at hc'
          cases hc'
          refine .on _ rfl rfl (fun hb => ?_) ?_
          · split at hb <;> cases hb
          · rintro rfl _
            rfl
      | _ hc' => rw [hc] at hc'; cases hc'
  | after =>
      cases hj with
      | act hc' =>
          rw [hc] at hc'
          cases hc'
          refine .on _ rfl rfl (fun hb => ?_) (fun _ => nofun)
          split at hb <;> cases hb
      | _ hc' => rw [hc] at hc'; cases hc'
  | last =>
      cases hj with
      | act hc' =>
          have hact : ∃ f, code c = .act f := ⟨_, hc'⟩
          rw [hc] at hc'
          cases hc'
          exact .ends rfl nofun (Or.inr rfl) hact
      | _ hc' => rw [hc] at hc'; cases hc'

/-- Where a predicate wait waits, and where it goes on. -/
theorem Await.wait_eqWith (hc : a.codeWith v m pred deadline note inside fin = .wait w l d k) :
    w = v ∧ l = m ∧ a.refused = true ∧ ∃ b, k = inside b ∧ b.refused = false := by
  cases a with
  | body seen =>
      cases hc
      refine ⟨rfl, rfl, rfl, _, rfl, ?_⟩
      split <;> rfl
  | _ => cases hc

/-! ## Waiting for a lock -/

section

variable {T : Type} [DecidableEq T] [DecidableEq μ] [DecidableEq γ]
  {holds : κ → μ → Bool} {known : κ → δ → Prop} {free : δ → Prop} {owes : κ → Prop}
  {waits : κ → Option (Bool × Await Unit)}

/--
The workers of a program wait on `v` until something is free. `waits` says where a worker
is in its wait, and whether it has found nothing free before.
-/
structure Awaits (code : κ → Cmd μ γ δ κ) (holds : κ → μ → Bool) (v : γ) (m : μ)
    (free : δ → Prop) (waits : κ → Option (Bool × Await Unit)) : Prop where
  /-- A wait is a predicate wait. -/
  await : ∀ c g a, waits c = some (g, a) →
    ∃ (pred : δ → Bool) (deadline : Option Time) (inside : Await Unit → κ)
      (fin : Bool → δ → δ × κ),
      code c = a.codeWith v m pred deadline (fun _ => ()) inside fin ∧
      (∀ b, waits (inside b) = some (true, b)) ∧ (∀ r x, waits (fin r x).2 = none) ∧
      ∀ x, free x → pred x = true
  /-- It begins with a test. -/
  fresh : ∀ {now c x k y g a}, Jump code now c x k y → waits c = none → waits k = some (g, a) →
    a = .test
  /-- Nobody waits otherwise. -/
  only : ∀ c m' d k, code c = .wait v m' d k → waits c ≠ none
  /-- The worker has the mutex. -/
  guarded : ∀ c, waits c ≠ none → holds c m = true

/-- The workers wait for a lock, and whoever has waited for it leaves it taken. -/
structure Contends (code : κ → Cmd μ γ δ κ) (holds : κ → μ → Bool) (v : γ) (m : μ)
    (known : κ → δ → Prop) (free : δ → Prop) (waits : κ → Option (Bool × Await Unit)) : Prop
    extends Awaits code holds v m free waits where
  /-- The last step of a wait leaves nothing free. -/
  takes : ∀ {now c x k y}, Jump code now c x k y → known c x → waits c ≠ none → waits k = none →
    ¬free y

/-- The worker has waited, and is about to test again. -/
def retests (waits : κ → Option (Bool × Await Unit)) (c : κ) : Bool :=
  match waits c with
  | some (true, a) => !a.refused
  | _ => false

/-- The worker has found the lock taken, and is about to wait. -/
def refused (waits : κ → Option (Bool × Await Unit)) (c : κ) : Bool :=
  match waits c with
  | some (_, a) => a.refused
  | none => false

/-- The roles of the control points of such a program. -/
def contendRoles (free : δ → Prop) (owes : κ → Prop) (waits : κ → Option (Bool × Await Unit)) :
    Roles δ κ where
  free := free
  tight _ := True
  owes := owes
  owesAll _ := False
  enters c := retests waits c = true
  refused c := refused waits c = true

theorem retests_iff :
    retests waits c = true ↔ ∃ a, waits c = some (true, a) ∧ a.refused = false := by
  unfold retests
  split
  · rename_i a hw
    rw [hw]
    simp
  · rename_i hw
    constructor
    · nofun
    · rintro ⟨a, ha, _⟩
      exact absurd ha (hw a)

theorem refused_iff : refused waits c = true ↔ ∃ g a, waits c = some (g, a) ∧ a.refused = true := by
  unfold refused
  split
  · rename_i g a hw
    rw [hw]
    simp
  · rename_i hw
    rw [hw]
    simp

section

omit [DecidableEq μ] [DecidableEq γ]

/-- Somebody waits only while nothing is free. -/
theorem Awaits.refused_of_jump (h : Awaits code holds v m free waits)
    (hj : Jump code now c x k y) (hk : refused waits k = true) :
    (refused waits c = true ∧ (∃ f, code c = .act f) ∧ y = x) ∨ ¬free y := by
  obtain ⟨g, b, hb, hr⟩ := refused_iff.mp hk
  cases hc : waits c with
  | none =>
      rw [h.fresh hj hc hb] at hr
      cases hr
  | some ga =>
      obtain ⟨g', a⟩ := ga
      obtain ⟨pred, deadline, inside, fin, hcode, hin, hfin, hpred⟩ := h.await c g' a hc
      cases Await.goes hcode hj with
      | ends he =>
          have hn := hfin (pred x) x
          rw [← he, hb] at hn
          cases hn
      | on b' he hy hb' =>
          rw [he, hin] at hb
          cases hb
          rcases hb' hr with hp | ⟨ha, hact⟩
          · -- the predicate has just been false, so nothing is free
            refine Or.inr fun hf => ?_
            rw [hy] at hf
            rw [hpred x hf] at hp
            cases hp
          · exact Or.inl ⟨refused_iff.mpr ⟨g', a, hc, ha⟩, hact, hy⟩

/-- Whoever tests again takes the lock if it is free. -/
theorem Contends.retests_of_jump (h : Contends code holds v m known free waits)
    (hj : Jump code now c x k y) (hk : known c x) (hc : retests waits c = true) (hf : free y) :
    retests waits k = true := by
  obtain ⟨a, ha, hr⟩ := retests_iff.mp hc
  obtain ⟨pred, deadline, inside, fin, hcode, hin, hfin, hpred⟩ := h.await c true a ha
  cases Await.goes hcode hj with
  | ends he =>
      have hn := hfin (pred x) x
      rw [← he] at hn
      exact absurd hf (h.takes hj hk (by rw [ha]; simp) hn)
  | on b he hy hb =>
      rw [he]
      refine retests_iff.mpr ⟨b, hin b, ?_⟩
      -- it would be refused, and the lock is free
      by_contra hx
      rcases hb (by simpa using hx) with hp | ⟨hx, _⟩
      · rw [hy] at hf
        rw [hpred x hf] at hp
        cases hp
      · rw [hr] at hx
        cases hx

/-- A worker that tests again is not waiting. -/
theorem Awaits.not_waiting (h : Awaits code holds v m free waits)
    (hr : retests waits c = true) : (code c).waitsOn ≠ some w := by
  intro hw
  obtain ⟨m', d, k, hc⟩ := Cmd.waitsOn_eq_some hw
  obtain ⟨a, ha, hn⟩ := retests_iff.mp hr
  obtain ⟨pred, deadline, inside, fin, hcode, _⟩ := h.await c true a ha
  rw [hcode] at hc
  obtain ⟨_, _, hx, _⟩ := Await.wait_eqWith hc
  rw [hn] at hx
  cases hx

/-- A worker waits after it has found nothing free, and tests again afterwards. -/
theorem Awaits.wait_cases {m' : μ} (h : Awaits code holds v m free waits)
    (hc : code c = .wait v m' d k) : m' = m ∧ refused waits c = true ∧ retests waits k = true := by
  cases hw : waits c with
  | none => exact absurd hw (h.only c m' d k hc)
  | some ga =>
      obtain ⟨g, a⟩ := ga
      obtain ⟨pred, deadline, inside, fin, hcode, hin, _⟩ := h.await c g a hw
      rw [hcode] at hc
      obtain ⟨_, hm, ha, b, rfl, hb⟩ := Await.wait_eqWith hc
      exact ⟨hm, refused_iff.mpr ⟨g, a, hw, ha⟩, retests_iff.mpr ⟨b, hin b, hb⟩⟩

/-- A worker that has found nothing free has the mutex. -/
theorem Awaits.holds_of_refused (h : Awaits code holds v m free waits)
    (hr : refused waits c = true) : holds c m = true := by
  obtain ⟨g, a, hw, _⟩ := refused_iff.mp hr
  exact h.guarded c (by rw [hw]; simp)

/-- Testing excludes what makes the test true, if that is done with the mutex. -/
theorem Awaits.tests (h : Awaits code holds v m free waits)
    (hguarded : ∀ {now c x k y}, Jump code now c x k y → known c x → free y → ¬free x →
      holds c m = true) :
    Tests code holds m known free (fun c => refused waits c = true) where
  refusedHolds _ hr := h.holds_of_refused hr
  refuses hj _ hk := h.refused_of_jump hj hk
  guarded hj hk hf hn := hguarded hj hk hf hn

/-- **Waiting for a lock is a relay**, if whoever frees the lock owes a notification. -/
theorem Contends.relay (h : Contends code holds v m known free waits)
    (hguarded : ∀ {now c x k y}, Jump code now c x k y → y ≠ x → holds c m = true)
    (hfrees : ∀ {now c x k y}, Jump code now c x k y → known c x → free y → ¬free x → owes k)
    (howed : ∀ {now c x k y}, Jump code now c x k y → owes c → owes k ∨ code c = .notifyOne v k) :
    Relay code holds v m known (contendRoles free owes waits) where
  toTests := h.tests fun hj _ hf hn => hguarded hj fun he => hn (he ▸ hf)
  waits _ _ _ _ hc := h.wait_cases hc
  frees hj hk hf hn := Or.inl ⟨trivial, Or.inl (hfrees hj hk hf hn)⟩
  owed hj ho := howed hj ho
  owedAll _ ho := ho.elim
  takes hj hk _ hc hf := h.retests_of_jump hj hk hc hf

end

/--
**Nobody sleeps beside a free lock** without a notification that is owed, or another
worker that was notified or timed out and will test again.
-/
theorem Contends.not_stranded {ctl : T → κ} {data : δ} {s : State T μ γ δ κ} {t : T}
    (h : Contends code holds v m known free waits)
    (hR : Relay code holds v m known (contendRoles free owes waits))
    (hd : Disciplined code holds) (h0 : ∀ t m, holds (ctl t) m = false)
    (hk : ∀ s, (machine code ctl data).Reachable s → ∀ t, known (s.ctl t) s.data)
    (hr : (machine code ctl data).Reachable s) (ha : Asleep code s v t) (hf : free s.data) :
    (∃ u, owes (s.ctl u)) ∨
      ∃ u, u ≠ t ∧ (Roused code s v u ∨ retests waits (s.ctl u) = true) := by
  have hrelay := relayed_reachable hR hd h0 hk (fun _ _ _ _ _ _ _ _ _ => Or.inl trivial) hr
  rcases hrelay t ha hf with ⟨_, hno, _⟩ | ⟨_, ho | ⟨u, hu⟩ | ⟨u, hne, hu⟩⟩
  · exact hno.elim
  · exact Or.inl ho
  · -- whoever tests again does not sleep
    refine Or.inr ⟨u, fun he => ?_, Or.inr hu⟩
    rw [he] at hu
    exact h.not_waiting hu ha.1
  · exact Or.inr ⟨u, hne, Or.inl hu⟩

end

end Ums.Monitor
