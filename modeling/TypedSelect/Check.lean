/-
Checks: they find nothing, or the first fault.

A check of a structure runs the checks of its parts one after the other
and stops at the first fault, so the order of the parts decides which of
two faults is the answer.
-/

namespace TypedSelect

namespace Check

variable {ε α : Type}

/-- The fault unless a condition holds. -/
def require (condition : Bool) (fault : ε) : Except ε Unit :=
  if condition then .ok () else .error fault

/-- The check of something that may be missing. -/
def optional (check : α → Except ε Unit) : Option α → Except ε Unit
  | none => .ok ()
  | some a => check a

/-- The check of every element, from the first on. -/
def each (check : α → Except ε Unit) : List α → Except ε Unit
  | [] => .ok ()
  | a :: rest => do
    check a
    each check rest

end Check

end TypedSelect
