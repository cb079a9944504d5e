namespace Resolvent

/-- Why an operation stopped: a promise made to it did not hold. -/
inductive Fault where
  | unordered
  | outOfRange (size index : Nat)
  | startOutOfRange (size start : Nat)
  | unfinishedChildren
  | childless
  | idleDeduction
  | notDeduction
  | notCompound
  | buriedFrame
  deriving DecidableEq, Repr

def Fault.internal (what : String) : String := "internal error: entered unreachable code: " ++ what

def Fault.message : Fault → String
  | .unordered => "ordering comparison on an invalid rational"
  | .outOfRange size index =>
    "index out of bounds: the len is " ++ toString size ++ " but the index is " ++ toString index
  | .startOutOfRange size start =>
    "range start index " ++ toString start ++ " out of range for slice of length " ++ toString size
  | .unfinishedChildren => internal "redo reached a frame with live children"
  | .childless => internal "frame cannot receive child events"
  | .idleDeduction => internal "deduction notified before trying a clause"
  | .notDeduction => internal "next_clause on a frame that is not a deduction"
  | .notCompound => internal "deduction on a term that is not a compound"
  | .buriedFrame => internal "popping a frame with live children"

inductive Outcome (α : Type) where
  | done (value : α)
  | fault (reason : Fault)
  | unfinished
  deriving DecidableEq, Repr

def Outcome.map {α β : Type} (change : α → β) : Outcome α → Outcome β
  | .done value => .done (change value)
  | .fault reason => .fault reason
  | .unfinished => .unfinished

end Resolvent
