import Ums.Monitor.Relay

/-!
# A `notify_all` reaches whoever has not seen the change

A waiter notes how many changes it has seen when it begins to wait, with the mutex of
the condition variable, which it gives up when it is in the list and has cleared its
flag. A `notify_all` comes after a number of changes. Before it goes through the list it
passes that mutex, so a waiter that has not seen one of these changes has given it up
by then: it is in the list, and its flag is not cleared any more.

`Announces` lists what a program has to do for this to be so, and `announced_reachable`
says that whoever sleeps un-notified is still owed a notification for every change it
has not seen.
-/

namespace Ums.Monitor

open Lib

variable {T μ γ δ κ : Type} [DecidableEq T] [DecidableEq μ] [DecidableEq γ]

/-- What the data and the control points say about changes. -/
structure Stamps (δ κ : Type) where
  /-- How many changes there were. -/
  version : δ → Nat
  /-- How many of them a `notify_all` that has returned came after. -/
  announced : δ → Nat
  /-- How many of them the worker's `notify_all` comes after. -/
  stamp : κ → Nat
  /-- That `notify_all` has passed the mutex of the waiters. -/
  passed : κ → Bool
  /-- It has returned. -/
  returned : κ → Bool
  /-- The changes the worker had seen when it began to wait. -/
  seen : κ → Option Nat

/-- What the statements of a program do to changes and their announcements. -/
structure Announces (code : κ → Cmd μ γ δ κ) (holds : κ → μ → Bool) (v : γ) (m : μ)
    (r : Stamps δ κ) : Prop where
  /-- No change is taken back. -/
  version : ∀ {now c x k y}, Jump code now c x k y → r.version x ≤ r.version y
  /-- A `notify_all` comes after changes that were made. -/
  stamps : ∀ {now c x k y}, Jump code now c x k y → r.stamp k ≤ r.stamp c ∨ r.stamp k ≤ r.version y
  /-- They are announced when it has returned. -/
  announces : ∀ {now c x k y}, Jump code now c x k y → r.announced y ≤ r.announced x ∨
    (r.returned c = true ∧ r.announced y ≤ max (r.announced x) (r.stamp c))
  /-- It returns from going through the list. -/
  returns : ∀ {now c x k y}, Jump code now c x k y → r.returned k = true →
    code c = .notifyAll v k ∧ r.stamp k = r.stamp c
  /-- It passes the mutex by holding it. -/
  passes : ∀ {now c x k y}, Jump code now c x k y → r.passed k = true →
    (r.passed c = true ∧ r.stamp k = r.stamp c) ∨ (holds c m = true ∧ (code c).waitsOn = none)
  /-- It has passed it before it goes through the list. -/
  scans : ∀ c k, code c = .notifyAll v k → r.passed c = true
  /-- It has passed it when it returns. -/
  returned : ∀ c, r.returned c = true → r.passed c = true
  /-- Whoever begins to wait has seen every change. -/
  sees : ∀ {now c x k y n}, Jump code now c x k y → r.seen k = some n →
    n = r.version y ∨ (r.seen c = some n ∧ (∃ f, code c = .act f) ∧ r.passed k = r.passed c ∧
      r.stamp k = r.stamp c)
  /-- It has the mutex then. -/
  seen : ∀ c n, r.seen c = some n → holds c m = true

variable {code : κ → Cmd μ γ δ κ} {holds : κ → μ → Bool} {v : γ} {m : μ} {r : Stamps δ κ}
  {s s' : State T μ γ δ κ} {e : Event T κ} {t u : T} {n : Nat}

/-- The `notify_all` of every change past the first `n` has yet to come to the worker. -/
def Owed (code : κ → Cmd μ γ δ κ) (r : Stamps δ κ) (v : γ) (s : State T μ γ δ κ) (t : T) (n : Nat) :
    Prop :=
  r.announced s.data ≤ n ∧ ∀ u, n < r.stamp (s.ctl u) → r.returned (s.ctl u) = false ∧
    ∀ rest, (code (s.ctl u)).scans (s.phase u) = some (v, rest) → t ∈ rest

/-- No `notify_all` past the mutex comes after more than `n` changes. -/
def Unpassed (r : Stamps δ κ) (s : State T μ γ δ κ) (n : Nat) : Prop :=
  r.announced s.data ≤ n ∧ ∀ u, r.passed (s.ctl u) = true → r.stamp (s.ctl u) ≤ n

/-- Nothing escapes a waiter that has not been notified. -/
structure Announced (code : κ → Cmd μ γ δ κ) (r : Stamps δ κ) (v : γ) (s : State T μ γ δ κ) :
    Prop where
  /-- A `notify_all` comes after changes that were made. -/
  stamp : ∀ u, r.stamp (s.ctl u) ≤ r.version s.data
  /-- Only changes are announced. -/
  announced : r.announced s.data ≤ r.version s.data
  /-- Until a waiter gives the mutex up, what it has not seen cannot pass. -/
  unpassed : ∀ t n, r.seen (s.ctl t) = some n → (s.phase t).enters = true → Unpassed r s n
  /-- From then on it is still on its way. -/
  owed : ∀ t n, r.seen (s.ctl t) = some n → Asleep code s v t → Owed code r v s t n

/-- Where the announced changes come from in a step. -/
theorem Announces.announced_step (hA : Announces code holds v m r) (hs : Step code s e s')
    (h : r.announced s.data ≤ n)
    (hr : ∀ u, r.returned (s.ctl u) = true → r.stamp (s.ctl u) ≤ n) :
    r.announced s'.data ≤ n := by
  by_cases hd : s'.data = s.data
  · rwa [hd]
  · obtain ⟨u, _, _, _, hj, _⟩ := hs.jump_of_data hd
    rcases hA.announces hj with hle | ⟨hret, hle⟩
    · omega
    · have := hr u hret
      omega

omit [DecidableEq T] [DecidableEq μ] [DecidableEq γ] in
/-- Whoever goes through the list has passed the mutex. -/
theorem Announces.passed_of_scans (hA : Announces code holds v m r) {rest : List T}
    (h : (code (s.ctl u)).scans (s.phase u) = some (v, rest)) : r.passed (s.ctl u) = true := by
  cases hc : code (s.ctl u) with
  | notifyAll v' k =>
      rw [hc] at h
      cases hp : s.phase u with
      | scanning l =>
          rw [hp] at h
          cases h
          exact hA.scans _ _ hc
      | _ =>
          rw [hp] at h
          cases h
  | _ =>
      rw [hc] at h
      cases hp : s.phase u <;> rw [hp] at h <;> cases h

/-- **What a sleeper is owed** comes to it, or is still owed. -/
theorem Owed.step (hA : Announces code holds v m r) (hs : Step code s e s') (hl : Listed code s)
    (ha : Asleep code s v t) (ha' : Asleep code s' v t) (h : Owed code r v s t n) :
    Owed code r v s' t n := by
  obtain ⟨hann, howed⟩ := h
  refine ⟨hA.announced_step hs hann fun u hret => ?_, fun u hu => ?_⟩
  · by_contra hlt
    rw [(howed u (by omega)).1] at hret
    cases hret
  · cases hs.moves u with
    | stays hc | inside hc =>
        rw [hc] at hu
        obtain ⟨hret, hrest⟩ := howed u hu
        refine ⟨by rwa [hc], fun rest hr => scans_step hs hl ha ha'.2.2 hr hrest⟩
    | jumps hj hp =>
        refine ⟨?_, fun rest hr => ?_⟩
        · -- it would return without having come to `t`
          by_contra hret
          obtain ⟨hc, hst⟩ := hA.returns hj (by simpa using hret)
          obtain ⟨hret', hrest⟩ := howed u (by omega)
          rcases hs.notifyAll_cases hc with hsame | hend
          · rw [hsame] at hret
            exact hret hret'
          · cases hrest [] hend
        · rw [hp, Cmd.scans_start] at hr
          cases hr

omit [DecidableEq T] [DecidableEq γ] in
/-- A worker that is about to wait, or gets into the list, has the mutex. -/
theorem Announces.holding (hA : Announces code holds v m r) (hl : Listed code s)
    (ht : r.seen (s.ctl t) = some n) (hp : (s.phase t).enters = true) :
    Holding code holds s t m = true := by
  rw [holding_of_away, hA.seen _ _ ht]
  have hf := hl.fits t
  cases hc : code (s.ctl t) <;> cases hph : s.phase t <;> rw [hph] at hp <;>
    first | rfl | cases hp

/-- **Nobody passes the mutex** while a waiter has it. -/
theorem Unpassed.step (hA : Announces code holds v m r) (hs : Step code s e s')
    (hl : Listed code s) (hg : Guarded code holds s) (ht : r.seen (s.ctl t) = some n)
    (hp : (s.phase t).enters = true) (hpassed' : r.passed (s'.ctl t) = r.passed (s.ctl t))
    (hstamp : r.stamp (s'.ctl t) = r.stamp (s.ctl t)) (h : Unpassed r s n) : Unpassed r s' n := by
  obtain ⟨hann, hpassed⟩ := h
  refine ⟨hA.announced_step hs hann fun u hret => hpassed u (hA.returned _ hret), fun u hu => ?_⟩
  by_cases hut : u = t
  · rw [hut, hpassed'] at hu
    rw [hut, hstamp]
    exact hpassed t hu
  · cases hs.moves u with
    | stays hc' | inside hc' =>
        rw [hc'] at hu ⊢
        exact hpassed u hu
    | jumps hj =>
        rcases hA.passes hj hu with ⟨hpu, hst⟩ | ⟨hh, hw⟩
        · rw [hst]
          exact hpassed u hpu
        · -- both would have the mutex
          have hhold : Holding code holds s u m = true := by
            rw [holding_of_away, hh]
            refine Cmd.away_eq_false (fun v' m' d k he => ?_) _ m
            rw [he] at hw
            cases hw
          exact absurd (hg.unique hhold (hA.holding hl ht hp)) hut

theorem Announced.step (hA : Announces code holds v m r) (hs : Step code s e s')
    (hl : Listed code s) (hg : Guarded code holds s) (h : Announced code r v s) :
    Announced code r v s' := by
  have hversion : r.version s.data ≤ r.version s'.data := by
    by_cases hd : s'.data = s.data
    · rw [hd]
    · obtain ⟨u, _, _, _, hj, _⟩ := hs.jump_of_data hd
      exact hA.version hj
  have hstamp : ∀ u, r.stamp (s'.ctl u) ≤ r.version s'.data := fun u => by
    have hu := h.stamp u
    cases hs.moves u with
    | stays hc | inside hc =>
        rw [hc]
        omega
    | jumps hj =>
        rcases hA.stamps hj with hle | hle
        · omega
        · exact hle
  have hannounced : r.announced s'.data ≤ r.version s'.data :=
    hA.announced_step hs (h.announced.trans hversion) fun u _ => (h.stamp u).trans hversion
  refine ⟨hstamp, hannounced, fun t n ht hp => ?_, fun t n ht ha => ?_⟩
  · cases hs.moves t with
    | stays hc hp' =>
        rw [hc] at ht
        rw [hp'] at hp
        exact (h.unpassed t n ht hp).step hA hs hl hg ht hp (by rw [hc]) (by rw [hc])
    | inside hc _ hp' =>
        rw [hc] at ht
        exact (h.unpassed t n ht (hp' hp)).step hA hs hl hg ht (hp' hp) (by rw [hc]) (by rw [hc])
    | jumps hj =>
        rcases hA.sees hj ht with hn | ⟨hsn, ⟨f, hf⟩, hpk, hsk⟩
        · -- it has just seen every change there is
          rw [hn]
          exact ⟨hannounced, fun u _ => hstamp u⟩
        · have hst := hl.at_start hf fun p hp => by cases p <;> first | rfl | cases hp
          have hen : (s.phase t).enters = true := by
            rw [hst]
            rfl
          exact (h.unpassed t n hsn hen).step hA hs hl hg hsn hen hpk hsk
  · cases ha.of_step hs with
    | before hold hc =>
        rw [hc] at ht
        exact (h.owed t n ht hold).step hA hs hl hold ha
    | release hw hp hd =>
        -- it gives the mutex up, and what has not passed by now comes to the list later
        have hc : s'.ctl t = s.ctl t := by
          cases hs.moves t with
          | stays hc | inside hc => exact hc
          | jumps _ hp' =>
              have hb := ha.2.1
              rw [hp'] at hb
              cases hb
        have hen : (s.phase t).enters = true := by
          rw [hp]
          rfl
        rw [hc] at ht
        obtain ⟨hann, hno⟩ :=
          (h.unpassed t n ht hen).step hA hs hl hg ht hen (by rw [hc]) (by rw [hc])
        refine ⟨hann, fun u hu => ⟨?_, fun rest hr => ?_⟩⟩
        · by_contra hret
          have := hno u (hA.returned _ (by simpa using hret))
          omega
        · have := hno u (hA.passed_of_scans hr)
          omega

/-- **Whoever sleeps un-notified is owed every notification** for what it has not seen. -/
theorem announced_reachable {ctl : T → κ} {data : δ} (hA : Announces code holds v m r)
    (hd : Disciplined code holds) (h0 : ∀ t m, holds (ctl t) m = false)
    (hstamp : ∀ t, r.stamp (ctl t) ≤ r.version data) (hann : r.announced data ≤ r.version data)
    (h : (machine code ctl data).Reachable s) : Announced code r v s := by
  refine Machine.Reach.invariant ?_ ?_ h
  · rintro s ⟨now, rfl⟩
    have hseen : ∀ t n, r.seen (ctl t) ≠ some n := fun t n ht => by
      have hh := hA.seen _ _ ht
      rw [h0] at hh
      cases hh
    exact ⟨hstamp, hann, fun t n ht => absurd ht (hseen t n), fun t n ht => absurd ht (hseen t n)⟩
  · intro s e s' hr _ hs hi
    exact hi.step hA (step_of_next hs) (listed_reachable hr) (guarded_reachable hd h0 hr)

end Ums.Monitor
