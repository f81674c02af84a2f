import Mathlib.Logic.Function.Basic

/-!
# Labelled machines and their runs

A `Machine` is a predicate on initial states together with an executable labelled
step: the label resolves every choice, so a run is a list of labels. `Reach ok`
collects the states that runs can get to when each of their steps meets `ok`;
`Reachable` is the unrestricted case.

An invariant is proved once for the initial states and once for a step
(`Reach.invariant`), and a concrete run is turned into a reachability proof by
evaluating it (`reachable_of_run`).
-/

namespace Ums.Lib

/-- A labelled machine: its initial states and its executable step. -/
structure Machine (σ ε : Type) where
  /-- The states a run may start in. -/
  init : σ → Prop
  /-- The step taken on a label, or nothing when the label is not enabled. -/
  next : σ → ε → Option σ

namespace Machine

variable {σ ε : Type} {M : Machine σ ε} {ok : σ → ε → Prop}

/-- The states reached by runs all of whose steps meet `ok`. -/
inductive Reach (M : Machine σ ε) (ok : σ → ε → Prop) : σ → Prop
  | init {s : σ} (h : M.init s) : Reach M ok s
  | tail {s s' : σ} {e : ε} (h : Reach M ok s) (hok : ok s e) (hs : M.next s e = some s') :
      Reach M ok s'

/-- The states reached by any run. -/
abbrev Reachable (M : Machine σ ε) : σ → Prop := Reach M fun _ _ => True

/-- A weaker demand on the steps reaches at least as much. -/
theorem Reach.mono {ok' : σ → ε → Prop} (himp : ∀ s e, ok s e → ok' s e) {s : σ}
    (h : M.Reach ok s) : M.Reach ok' s := by
  induction h with
  | init h0 => exact Reach.init h0
  | tail _ hok hs ih => exact Reach.tail ih (himp _ _ hok) hs

theorem Reach.reachable {s : σ} (h : M.Reach ok s) : M.Reachable s :=
  h.mono fun _ _ _ => trivial

theorem Reachable.tail {s s' : σ} {e : ε} (h : M.Reachable s) (hs : M.next s e = some s') :
    M.Reachable s' :=
  Reach.tail h trivial hs

/--
**The invariant rule.** What holds initially and survives every step that meets
`ok` holds of every state reached; the step may assume the state before it is
reached too, so that an invariant can lean on the ones already proved.
-/
theorem Reach.invariant {I : σ → Prop} (hinit : ∀ s, M.init s → I s)
    (hstep : ∀ s e s', M.Reach ok s → ok s e → M.next s e = some s' → I s → I s')
    {s : σ} (h : M.Reach ok s) : I s := by
  induction h with
  | init h0 => exact hinit _ h0
  | tail hr hok hs ih => exact hstep _ _ _ hr hok hs ih

/-! ## Runs as lists of labels -/

/-- Take the listed steps one after the other. -/
def run (M : Machine σ ε) : σ → List ε → Option σ
  | s, [] => some s
  | s, e :: es => (M.next s e).bind fun s' => M.run s' es

@[simp] theorem run_nil (s : σ) : M.run s [] = some s := rfl

theorem run_cons (s : σ) (e : ε) (es : List ε) :
    M.run s (e :: es) = (M.next s e).bind fun s' => M.run s' es := rfl

theorem run_cons_some {s s' : σ} {e : ε} {es : List ε} (h : M.run s (e :: es) = some s') :
    ∃ m, M.next s e = some m ∧ M.run m es = some s' := by
  rw [run_cons] at h
  exact Option.bind_eq_some_iff.mp h

theorem run_cons_of_next {s s' : σ} {e : ε} (es : List ε) (h : M.next s e = some s') :
    M.run s (e :: es) = M.run s' es := by
  rw [run_cons, h]
  rfl

theorem run_singleton (s : σ) (e : ε) : M.run s [e] = M.next s e := by
  cases h : M.next s e with
  | none =>
      rw [run_cons, h]
      rfl
  | some s' => rw [run_cons_of_next [] h, run_nil]

theorem run_append {s s' : σ} {es : List ε} (h : M.run s es = some s') (fs : List ε) :
    M.run s (es ++ fs) = M.run s' fs := by
  induction es generalizing s with
  | nil =>
      rw [run_nil] at h
      rw [List.nil_append, Option.some.inj h]
  | cons e es ih =>
      obtain ⟨m, hm, hr⟩ := run_cons_some h
      rw [List.cons_append, run_cons_of_next _ hm, ih hr]

/-- A run that evaluates ends in a reachable state. -/
theorem reachable_of_run {s s' : σ} (h : M.Reachable s) (es : List ε)
    (hr : M.run s es = some s') : M.Reachable s' := by
  induction es generalizing s with
  | nil => rw [run_nil] at hr; exact Option.some.inj hr ▸ h
  | cons e es ih =>
      obtain ⟨m, hm, hr⟩ := run_cons_some hr
      exact ih (Reachable.tail h hm) hr

/-- Every step of the run meets a decidable demand. -/
def runOk (M : Machine σ ε) (ok : σ → ε → Bool) : σ → List ε → Bool
  | _, [] => true
  | s, e :: es => ok s e && ((M.next s e).elim false fun s' => M.runOk ok s' es)

/-- A run whose steps all meet the demand ends in a state that such runs reach. -/
theorem reach_of_run {okb : σ → ε → Bool} (hok : ∀ s e, okb s e = true → ok s e) {s s' : σ}
    (h : M.Reach ok s) (es : List ε) (hall : M.runOk okb s es = true)
    (hr : M.run s es = some s') : M.Reach ok s' := by
  induction es generalizing s with
  | nil => rw [run_nil] at hr; exact Option.some.inj hr ▸ h
  | cons e es ih =>
      obtain ⟨m, hm, hr⟩ := run_cons_some hr
      rw [runOk, hm, Bool.and_eq_true] at hall
      exact ih (Reach.tail h (hok s e hall.1) hm) hall.2 hr

/-- A run that evaluates to a state with a given property ends there. -/
theorem exists_run (p : σ → Bool) (s : σ) (es : List ε) (hr : (M.run s es).elim false p = true) :
    ∃ s', M.run s es = some s' ∧ p s' = true := by
  cases hs : M.run s es with
  | none => rw [hs] at hr; cases hr
  | some s' =>
      rw [hs] at hr
      exact ⟨s', rfl, hr⟩

/-- A run that evaluates to a state with a given property reaches such a state. -/
theorem exists_of_run {p : σ → Bool} {s : σ} (h : M.Reachable s) (es : List ε)
    (hr : (M.run s es).elim false p = true) : ∃ s', M.Reachable s' ∧ p s' = true := by
  obtain ⟨s', hs, hp⟩ := exists_run p s es hr
  exact ⟨s', reachable_of_run h es hs, hp⟩

/-- The same, with a demand on the steps. -/
theorem exists_reach_of_run (okb : σ → ε → Bool) (p : σ → Bool)
    (hok : ∀ s e, okb s e = true → ok s e) {s : σ} (h : M.Reach ok s) (es : List ε)
    (hall : M.runOk okb s es = true) (hr : (M.run s es).elim false p = true) :
    ∃ s', M.Reach ok s' ∧ p s' = true := by
  obtain ⟨s', hs, hp⟩ := exists_run p s es hr
  exact ⟨s', reach_of_run hok h es hall hs, hp⟩

/-! ## Along a run -/

/-- Every step of the run meets `ok`. -/
def Meets (M : Machine σ ε) (ok : σ → ε → Prop) : σ → List ε → Prop
  | _, [] => True
  | s, e :: es => ok s e ∧ ∀ s', M.next s e = some s' → M.Meets ok s' es

/-- Some state of the run has the property. -/
def Visits (M : Machine σ ε) (P : σ → Prop) : σ → List ε → Prop
  | s, [] => P s
  | s, e :: es => P s ∨ ∃ s', M.next s e = some s' ∧ M.Visits P s' es

/-- The number of steps of the run that `f` picks out. -/
def count (M : Machine σ ε) (f : σ → ε → Bool) : σ → List ε → Nat
  | _, [] => 0
  | s, e :: es => (if f s e then 1 else 0) + (M.next s e).elim 0 fun s' => M.count f s' es

/-- What the steps of the run note down, one after the other. -/
def log {α : Type} (M : Machine σ ε) (f : σ → ε → List α) : σ → List ε → List α
  | _, [] => []
  | s, e :: es => f s e ++ (M.next s e).elim [] fun s' => M.log f s' es

/-- A decidable demand is checked by running. -/
theorem meets_of_runOk {okb : σ → ε → Bool} (hok : ∀ s e, okb s e = true → ok s e) {s : σ}
    (es : List ε) (h : M.runOk okb s es = true) : M.Meets ok s es := by
  induction es generalizing s with
  | nil => trivial
  | cons e es ih =>
      rw [runOk, Bool.and_eq_true] at h
      refine ⟨hok s e h.1, fun s' hs => ih ?_⟩
      rw [hs] at h
      exact h.2

/-- What no step brings back has held all along, if it holds at the end. -/
theorem meets_of_back {A : σ → Prop} {f : ε → Prop}
    (hback : ∀ s e s', M.Reachable s → f e → M.next s e = some s' → A s' → A s)
    {s s' : σ} (es : List ε)
    (h : M.Reachable s) (hr : M.run s es = some s') (hf : ∀ e ∈ es, f e) (hA : A s') :
    A s ∧ M.Meets (fun q e => M.Reachable q ∧ A q ∧ ∀ q', M.next q e = some q' → A q') s es := by
  induction es generalizing s with
  | nil =>
      rw [run_nil] at hr
      exact ⟨Option.some.inj hr ▸ hA, trivial⟩
  | cons e es ih =>
      obtain ⟨m, hm, hr⟩ := run_cons_some hr
      obtain ⟨hAm, hmeets⟩ := ih (h.tail hm) hr fun e' he => hf e' (List.mem_cons_of_mem _ he)
      have hAs := hback s e m h (hf e (List.mem_cons_self ..)) hm hAm
      refine ⟨hAs, ⟨h, hAs, fun q' hq => ?_⟩, fun q' hq => ?_⟩
      · rw [hm] at hq
        cases hq
        exact hAm
      · rw [hm] at hq
        cases hq
        exact hmeets

/-- **What some steps bring about and no step takes back** holds at the end of a run if it did at
the beginning, or if such a step was taken, and only then. -/
theorem run_iff {P : σ → Prop} {f : ε → Prop}
    (hstep : ∀ s e s', M.Reachable s → M.next s e = some s' → (P s' ↔ P s ∨ f e))
    {s s' : σ} (es : List ε) (h : M.Reachable s) (hr : M.run s es = some s') :
    P s' ↔ P s ∨ ∃ e ∈ es, f e := by
  induction es generalizing s with
  | nil =>
      rw [run_nil] at hr
      rw [Option.some.inj hr]
      simp
  | cons e es ih =>
      obtain ⟨m, hm, hr⟩ := run_cons_some hr
      rw [ih (h.tail hm) hr, hstep s e m h hm, or_assoc]
      simp

/-- **A run is no longer than what its steps use up.** As long as `A` holds, every step brings
the measure down, but for those that `f` picks out, which bring it up by at most `k`. -/
theorem length_le (A : σ → Prop) (μ : σ → Nat) (f : ε → Bool) (k : Nat)
    (hstep : ∀ s e s', M.Reachable s → M.next s e = some s' → A s' →
      A s ∧ μ s' + 1 ≤ μ s + if f e then k + 1 else 0)
    {s s' : σ} (es : List ε) (h : M.Reachable s) (hr : M.run s es = some s') (hA : A s') :
    A s ∧ es.length + μ s' ≤ μ s + (k + 1) * es.countP f := by
  induction es generalizing s with
  | nil =>
      rw [run_nil] at hr
      rw [Option.some.inj hr]
      simpa using hA
  | cons e es ih =>
      obtain ⟨m, hm, hr⟩ := run_cons_some hr
      obtain ⟨hAm, hrest⟩ := ih (h.tail hm) hr
      obtain ⟨hAs, hfirst⟩ := hstep s e m h hm hAm
      refine ⟨hAs, ?_⟩
      rw [List.countP_cons, Nat.mul_add, List.length_cons]
      split at hfirst
      · rename_i hf
        rw [if_pos hf]
        omega
      · rename_i hf
        rw [if_neg hf]
        omega

theorem Meets.mono {ok' : σ → ε → Prop} (himp : ∀ s e, ok s e → ok' s e) {s : σ} {es : List ε}
    (h : M.Meets ok s es) : M.Meets ok' s es := by
  induction es generalizing s with
  | nil => trivial
  | cons e es ih => exact ⟨himp s e h.1, fun s' hs => ih (h.2 s' hs)⟩

/-- What every step of a run relates, the run relates. -/
theorem Meets.rel {R : σ → σ → Prop} (hrefl : ∀ s, R s s)
    (htrans : ∀ {a b c}, R a b → R b c → R a c) {s s' : σ} {es : List ε}
    (h : M.Meets (fun q e => ∀ q', M.next q e = some q' → R q q') s es)
    (hr : M.run s es = some s') : R s s' := by
  induction es generalizing s with
  | nil =>
      rw [run_nil] at hr
      exact Option.some.inj hr ▸ hrefl s
  | cons e es ih =>
      obtain ⟨m, hm, hr⟩ := run_cons_some hr
      exact htrans (h.1 m hm) (ih (h.2 m hm) hr)

theorem Visits.first {P : σ → Prop} {s : σ} {es : List ε} (h : P s) : M.Visits P s es := by
  cases es with
  | nil => exact h
  | cons e es => exact Or.inl h

/-! ## History -/

section

variable {η : Type} {h₀ : η} {f : σ → ε → σ → η → η}

/-- The machine that also keeps a history: `f` says how a step changes it. The history decides
nothing. -/
def track (M : Machine σ ε) (h₀ : η) (f : σ → ε → σ → η → η) : Machine (σ × η) ε where
  init p := M.init p.1 ∧ p.2 = h₀
  next p e := (M.next p.1 e).map fun s => (s, f p.1 e s p.2)

theorem track_next {p p' : σ × η} {e : ε} :
    (M.track h₀ f).next p e = some p' ↔
      M.next p.1 e = some p'.1 ∧ p'.2 = f p.1 e p'.1 p.2 := by
  constructor
  · intro h
    obtain ⟨s, hs, rfl⟩ := Option.map_eq_some_iff.mp h
    exact ⟨hs, rfl⟩
  · rintro ⟨hs, hh⟩
    refine Option.map_eq_some_iff.mpr ⟨p'.1, hs, ?_⟩
    rw [← hh]

/-- Without its history it is a run of the machine. -/
theorem Reach.untrack {okh : σ × η → ε → Prop} {p : σ × η} (h : (M.track h₀ f).Reach okh p) :
    M.Reachable p.1 := by
  induction h with
  | init h0 => exact Reach.init h0.1
  | tail _ _ hs ih => exact ih.tail (track_next.mp hs).1

end

end Machine

end Ums.Lib
