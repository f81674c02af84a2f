import Ums.Lib.Machine

/-!
# Simulations

One machine is simulated by another one along a relation between their states if every
step of the first is matched by a run of the second, which may be empty, and both note
down the same. So whatever a run of the first notes down, a run of the second does, and
an invariant of the second holds of the first along the relation.
-/

namespace Ums.Lib

variable {σ ε τ φ α : Type} {M : Machine σ ε} {N : Machine τ φ}

namespace Machine

theorem log_cons {f : σ → ε → List α} {s s' : σ} {e : ε} (es : List ε)
    (h : M.next s e = some s') : M.log f s (e :: es) = f s e ++ M.log f s' es := by
  rw [log, h]
  rfl

theorem log_singleton {f : σ → ε → List α} {s s' : σ} {e : ε} (h : M.next s e = some s') :
    M.log f s [e] = f s e := by
  rw [log_cons [] h, log, List.append_nil]

theorem log_append {f : σ → ε → List α} {s s' : σ} {es : List ε} (h : M.run s es = some s')
    (fs : List ε) : M.log f s (es ++ fs) = M.log f s es ++ M.log f s' fs := by
  induction es generalizing s with
  | nil =>
      rw [run_nil] at h
      rw [List.nil_append, log, List.nil_append, Option.some.inj h]
  | cons e es ih =>
      obtain ⟨m, hm, hr⟩ := run_cons_some h
      rw [List.cons_append, log_cons _ hm, log_cons _ hm, ih hr, List.append_assoc]

theorem meets_true (s : σ) (es : List ε) : M.Meets (fun _ _ => True) s es := by
  induction es generalizing s with
  | nil => trivial
  | cons e es ih => exact ⟨trivial, fun s' _ => ih s'⟩

end Machine

/-- The steps of `M` that meet `ok` are matched by runs of `N`: related states stay related, and the
run notes down with `g` what the step does with `f`. -/
structure Simulates (M : Machine σ ε) (ok : σ → ε → Prop) (N : Machine τ φ) (R : σ → τ → Prop)
    (f : σ → ε → List α) (g : τ → φ → List α) : Prop where
  /-- A run may start where a run of `N` may. -/
  init : ∀ s, M.init s → ∃ a, N.init a ∧ R s a
  /-- Every step is matched. -/
  step : ∀ s a e s', M.Reach ok s → N.Reachable a → R s a → ok s e → M.next s e = some s' →
    ∃ es a', N.run a es = some a' ∧ N.log g a es = f s e ∧ R s' a'

namespace Simulates

variable {ok : σ → ε → Prop} {R : σ → τ → Prop} {f : σ → ε → List α} {g : τ → φ → List α}

/-- **Whatever the first machine reaches, the second one does.** -/
theorem reach (h : Simulates M ok N R f g) {s : σ} (hs : M.Reach ok s) :
    ∃ a, N.Reachable a ∧ R s a := by
  induction hs with
  | init h0 =>
      obtain ⟨a, ha, hR⟩ := h.init _ h0
      exact ⟨a, .init ha, hR⟩
  | tail hr hok hs ih =>
      obtain ⟨a, ha, hR⟩ := ih
      obtain ⟨es, a', hrun, _, hR'⟩ := h.step _ a _ _ hr ha hR hok hs
      exact ⟨a', Machine.reachable_of_run ha es hrun, hR'⟩

/-- **A run of the first machine is matched by a run of the second**, which notes down the same. -/
theorem run (h : Simulates M ok N R f g) {s s' : σ} {a : τ} (es : List ε) (hs : M.Reach ok s)
    (ha : N.Reachable a) (hR : R s a) (hok : M.Meets ok s es) (hr : M.run s es = some s') :
    ∃ fs a', N.run a fs = some a' ∧ N.log g a fs = M.log f s es ∧ R s' a' := by
  induction es generalizing s a with
  | nil =>
      rw [Machine.run_nil] at hr
      exact ⟨[], a, rfl, rfl, Option.some.inj hr ▸ hR⟩
  | cons e es ih =>
      obtain ⟨m, hm, hr⟩ := Machine.run_cons_some hr
      obtain ⟨fs, b, hfs, hlog, hRm⟩ := h.step s a e m hs ha hR hok.1 hm
      obtain ⟨gs, c, hgs, hlog', hRc⟩ :=
        ih (hs.tail hok.1 hm) (Machine.reachable_of_run ha fs hfs) hRm (hok.2 m hm) hr
      refine ⟨fs ++ gs, c, ?_, ?_, hRc⟩
      · rw [Machine.run_append hfs, hgs]
      · rw [Machine.log_append hfs, hlog, hlog', Machine.log_cons _ hm]

end Simulates

end Ums.Lib
