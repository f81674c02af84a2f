import Mathlib.Data.List.Basic

/-!
# First in, first out

A queue seen from outside: what was put in so far, what was taken out so far, and what is still
inside. `Fifo` says that the queue has kept the order. It is kept by any step that puts in at the
back what it takes from the front, and two such queues in a row are one.
-/

namespace Ums.Lib

variable {α : Type}

/-- What was put in is what was taken out, followed by what is inside. -/
def Fifo (entered left inside : List α) : Prop := entered = left ++ inside

namespace Fifo

variable {entered left inside ins outs inside' : List α}

theorem nil : Fifo ([] : List α) [] [] := rfl

/-- Things are put in at the back and taken out at the front. -/
theorem step (h : Fifo entered left inside) (hs : inside ++ ins = outs ++ inside') :
    Fifo (entered ++ ins) (left ++ outs) inside' := by
  rw [Fifo, h, List.append_assoc, hs, List.append_assoc]

/-- What leaves the one queue enters the other. -/
theorem trans {left' : List α} (h : Fifo entered left inside) (h' : Fifo left left' inside') :
    Fifo entered left' (inside' ++ inside) := by
  rw [Fifo, h, h', List.append_assoc]

end Fifo

end Ums.Lib
