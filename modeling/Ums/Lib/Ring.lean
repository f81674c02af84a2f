import Mathlib.Tactic.Common

/-!
# Rings of operations and their completions

A `Ring` takes operations from its user and gives completions back, like the rings through which
an operating system does input and output. The user prepares entries, as long as there is room,
and submits them; the system reports every operation that was submitted to it once, at any time
and in any order, and reports nothing else; the user looks at the oldest completion and then
removes it. `Holds` says that exactly one operation is on its way, or none.

What a `Ring` does is an assumption about the other side, not a model of somebody's code: results
over it hold for every ring that prepares, submits and reports like this one.
-/

namespace Ums.Lib

/-- A ring for operations `α` with completions `β`. -/
structure Ring (α β : Type) where
  /-- The entries that are prepared. -/
  prepared : List α := []
  /-- The operations that are submitted and not reported. -/
  inFlight : List α := []
  /-- The completions that have not been removed. -/
  completions : List β := []

namespace Ring

variable {α β ρ : Type}

/-- Prepare an entry, if one of the `entries` there are is left. -/
def prepare (r : Ring α β) (entries : Nat) (a : α) : Option (Ring α β) :=
  if r.prepared.length < entries then some { r with prepared := r.prepared ++ [a] } else none

/-- Submit what is prepared, and how much that is. -/
def submit (r : Ring α β) : Nat × Ring α β :=
  (r.prepared.length, { r with prepared := [], inFlight := r.inFlight ++ r.prepared })

/-- The system reports the operation at position `n` with the given result. -/
def report (r : Ring α β) (completion : α → ρ → β) (n : Nat) (res : ρ) : Option (Ring α β) :=
  match r.inFlight[n]? with
  | none => none
  | some a =>
    some { r with
      inFlight := r.inFlight.eraseIdx n, completions := r.completions ++ [completion a res] }

/-- The oldest completion, if there is one. -/
def peek (r : Ring α β) : Option β := r.completions.head?

/-- Remove the oldest completion. -/
def seen (r : Ring α β) : Ring α β := { r with completions := r.completions.tail }

/-- What is on its way through a ring: an operation that is not reported yet, or its completion. -/
inductive Holds (completion : α → ρ → β) (r : Ring α β) : Option α → Prop
  /-- Nothing. -/
  | nothing (h : r = {}) : Holds completion r none
  /-- An operation. -/
  | inFlight {a : α} (h : r = { inFlight := [a] }) : Holds completion r (some a)
  /-- Its completion. -/
  | completed {a : α} (res : ρ) (h : r = { completions := [completion a res] }) :
      Holds completion r (some a)

variable {completion : α → ρ → β} {r r' : Ring α β} {a : α} {o : Option α} {n entries : Nat}

/-- There is never more than one. -/
theorem Holds.length_le (h : Holds completion r o) :
    r.prepared.length + r.inFlight.length + r.completions.length ≤ 1 := by
  cases h with
  | nothing h | inFlight h | completed _ h => rw [h]; simp

theorem Holds.eq_empty (h : Holds completion r none) : r = {} := by
  cases h with
  | nothing h => exact h

/-- **An empty ring takes an operation**, which is then on its way. -/
theorem Holds.submit (a : α) (h : Holds completion r none) (he : 0 < entries) :
    ∃ r', r.prepare entries a = some r' ∧ r'.submit.1 = 1 ∧
      Holds completion r'.submit.2 (some a) := by
  refine ⟨{ prepared := [a] }, ?_, rfl, .inFlight rfl⟩
  rw [h.eq_empty, prepare, if_pos (by simpa using he)]
  rfl

/-- **A report changes nothing about what is on its way.** -/
theorem Holds.report {res : ρ} (h : Holds completion r o)
    (hr : r.report completion n res = some r') : Holds completion r' o := by
  cases h with
  | nothing h =>
      rw [h] at hr
      cases hr
  | inFlight h =>
      rw [h] at hr
      cases n with
      | zero =>
          cases hr
          exact .completed res rfl
      | succ n => cases hr
  | completed _ h =>
      rw [h] at hr
      cases hr

/-- **A completion that is found** is that of the operation, and after it there is none. -/
theorem Holds.peek {b : β} (h : Holds completion r o) (hb : r.peek = some b) :
    ∃ a res, o = some a ∧ b = completion a res ∧ Holds completion r.seen none := by
  cases h with
  | nothing h | inFlight h =>
      rw [h] at hb
      cases hb
  | @completed a res h =>
      rw [h] at hb
      cases hb
      refine ⟨a, res, rfl, rfl, .nothing ?_⟩
      rw [h]
      rfl

end Ring

end Ums.Lib
