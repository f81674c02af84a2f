import Mathlib.Data.Option.Basic

/-!
# Who holds a mutex

A mutex is a variable that names its owner. `Owner` says that the owner is whoever is between
a lock and an unlock; a step of one thread keeps this true if it takes the mutex only when it
is free, and gives back only what it holds.
-/

namespace Ums.Lib

variable {θ : Type} {o o' : Option θ} {f f' : θ → Bool} {t u : θ}

/-- The owner is whoever holds the mutex by its control point. -/
def Owner (o : Option θ) (f : θ → Bool) : Prop := ∀ t, f t = true ↔ o = some t

/-- What a step of a thread does to a mutex; `a` and `b` say whether it holds it before and
after. -/
inductive Passes (t : θ) (o o' : Option θ) (a b : Bool) : Prop
  | keeps (ho : o' = o) (hb : b = a)
  | takes (ho : o = none) (ho' : o' = some t) (hb : b = true)
  | gives (ha : a = true) (ho' : o' = none) (hb : b = false)

namespace Owner

theorem unique (h : Owner o f) (ht : f t = true) (hu : f u = true) : t = u :=
  Option.some.inj (((h t).mp ht).symm.trans ((h u).mp hu))

theorem free (h : Owner o f) (ho : o = none) (t : θ) : f t = false := by
  by_contra hne
  rw [(h t).mp ((Bool.not_eq_false _).mp hne)] at ho
  cases ho

/-- Somebody has the mutex, or it is free. -/
theorem cases (h : Owner o f) : o = none ∨ ∃ t, f t = true := by
  cases o with
  | none => exact Or.inl rfl
  | some t => exact Or.inr ⟨t, (h t).mpr rfl⟩

theorem step (h : Owner o f) (hp : Passes t o o' (f t) (f' t)) (hu : ∀ u, u ≠ t → f' u = f u) :
    Owner o' f' := by
  intro u
  by_cases hut : u = t
  · subst hut
    cases hp with
    | keeps ho hb =>
        rw [hb, ho]
        exact h u
    | takes ho ho' hb => simp [hb, ho']
    | gives ha ho' hb => simp [hb, ho']
  · rw [hu u hut]
    cases hp with
    | keeps ho =>
        rw [ho]
        exact h u
    | takes ho ho' =>
        rw [h.free ho u, ho']
        simp [Ne.symm hut]
    | gives ha ho' =>
        have hno : f u = false := by
          by_contra hne
          exact hut (h.unique ((Bool.not_eq_false _).mp hne) ha)
        rw [hno, ho']
        simp

end Owner

end Ums.Lib
