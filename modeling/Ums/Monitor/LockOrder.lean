import Ums.Lib.LockOrder
import Ums.Monitor.Discipline

/-!
# Programs that lock in order

A program whose control points say which mutexes are held there, and which locks at each
of them only what ranks above these, never deadlocks on its mutexes.
-/

namespace Ums.Monitor

open Lib

variable {T μ γ δ κ α : Type} [DecidableEq T] [DecidableEq μ] [DecidableEq γ] [Preorder α]
  {code : κ → Cmd μ γ δ κ} {holds : κ → μ → Bool} {rank : μ → α} {s : State T μ γ δ κ}

/-- The mutex that a worker in this phase of the command cannot go on without. -/
def Cmd.locking : Cmd μ γ δ κ → Phase T → Option μ
  | .lock m _, _ => some m
  | .wait _ m _ _, .resumed => some m
  | _, _ => none

/-- The mutexes of a state. -/
def locks (code : κ → Cmd μ γ δ κ) (s : State T μ γ δ κ) : Locks T μ where
  holds t m := s.owner m = some t
  wants t m := (code (s.ctl t)).locking (s.phase t) = some m

/-- A command begun with the mutexes `h` locks only what ranks above them. -/
def Cmd.Ascends (rank : μ → α) (h : μ → Bool) : Cmd μ γ δ κ → Prop
  | .lock m _ => ∀ m', h m' = true → rank m' < rank m
  | .wait _ m _ _ => ∀ m', h m' = true → m' ≠ m → rank m' < rank m
  | _ => True

omit [DecidableEq T] [DecidableEq γ] in
/-- **At a lock**, a worker holds only what ranks below it. -/
theorem Guarded.ordered (h : Guarded code holds s)
    (ha : ∀ c, (code c).Ascends rank (holds c)) : (locks code s).Ordered rank := by
  intro t l m hw hh
  have hasc := ha (s.ctl t)
  have hhold : Holding code holds s t m = true := (h m t).mp hh
  simp only [Holding, Bool.and_eq_true, Bool.not_eq_true'] at hhold
  obtain ⟨hctl, haway⟩ := hhold
  simp only [locks] at hw
  cases hc : code (s.ctl t) with
  | lock n k =>
      rw [hc] at hw hasc
      cases hw
      exact hasc m hctl
  | wait v n d k =>
      rw [hc] at hw hasc haway
      cases hp : s.phase t with
      | resumed =>
          rw [hp] at hw haway
          cases hw
          -- the mutex of the wait has been let go
          exact hasc m hctl (of_decide_eq_false haway)
      | _ =>
          rw [hp] at hw
          cases hw
  | _ =>
      rw [hc] at hw
      cases hw

/-- **A program that locks in order** does not deadlock. -/
theorem not_deadlocked [WellFoundedGT α] {ctl : T → κ} {data : δ} (hd : Disciplined code holds)
    (ha : ∀ c, (code c).Ascends rank (holds c)) (h0 : ∀ t m, holds (ctl t) m = false)
    (h : (machine code ctl data).Reachable s) (S : Set T) : ¬(locks code s).Deadlocked S :=
  ((guarded_reachable hd h0 h).ordered ha).not_deadlocked S

end Ums.Monitor
