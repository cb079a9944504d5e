import Resolvent.Trail.Stack
import Resolvent.Term.Value
import Resolvent.Term.Variables

namespace Resolvent

inductive Comparison where
  | equal
  | unequal
  | greater
  | smaller
  deriving DecidableEq, Repr

namespace Comparison

def symbol : Comparison → String
  | equal => "="
  | unequal => "!="
  | greater => ">"
  | smaller => "<"

def holds : Comparison → Rational → Rational → Except Fault Bool
  | equal, left, right => .ok (left = right)
  | unequal, left, right => .ok (left ≠ right)
  | greater, left, right => (left.order right).map (· == .gt)
  | smaller, left, right => (left.order right).map (· == .lt)

end Comparison

inductive Relation where
  | disunification
  | arithmetic (comparison : Comparison)
  deriving DecidableEq, Repr

def Relation.symbol : Relation → String
  | .disunification => "!="
  | .arithmetic comparison => comparison.symbol

structure Constraint where
  relation : Relation
  left : TermId
  right : TermId
  occurrences : Occurrences
  discarded : Bool := false
  deriving DecidableEq, Repr

structure ConstraintStore where
  constraints : Array Constraint := #[]
  discarded : Array ConstraintId := #[]
  deriving DecidableEq, Repr, Inhabited

namespace Arena

def attach (id : ConstraintId) (arena : Arena) (occurrence : TermId × Nat) : Arena :=
  arena.modifyVariable occurrence.1 fun cell => { cell with constraints := id :: cell.constraints }

def detach (id : ConstraintId) (arena : Arena) (occurrence : TermId × Nat) : Arena :=
  arena.modifyVariable occurrence.1 fun cell =>
    { cell with constraints := cell.constraints.erase id }

end Arena

namespace ConstraintStore

def size (store : ConstraintStore) : Nat := store.constraints.size

def get (store : ConstraintStore) (id : ConstraintId) : Except Fault Constraint :=
  match store.constraints[id.index]? with
  | some constraint => .ok constraint
  | none => .error (.outOfRange store.size id.index)

def isDiscarded (store : ConstraintStore) (id : ConstraintId) : Bool :=
  match store.constraints[id.index]? with
  | some constraint => constraint.discarded
  | none => false

def mark (store : ConstraintStore) (id : ConstraintId) (discarded : Bool) : ConstraintStore :=
  { store with
    constraints := store.constraints.modify id.index fun constraint =>
      { constraint with discarded } }

def post (store : ConstraintStore) (arena : Arena) (constraint : Constraint) :
    ConstraintId × ConstraintStore × Arena :=
  let id : ConstraintId := ⟨store.size⟩
  (id, { store with constraints := store.constraints.push constraint },
    constraint.occurrences.foldl (Arena.attach id) arena)

def discard (store : ConstraintStore) (id : ConstraintId) : Except Fault ConstraintStore := do
  let constraint ← store.get id
  if constraint.discarded then return store
  return { store.mark id true with discarded := store.discarded.push id }

def undiscard (store : ConstraintStore) (height : Nat) : ConstraintStore :=
  let unmarked := (since store.discarded height).foldl (fun store id => store.mark id false) store
  { unmarked with discarded := store.discarded.shrink height }

def pop (store : ConstraintStore) (arena : Arena) : ConstraintStore × Arena :=
  match store.constraints.back? with
  | some constraint =>
    ({ store with constraints := store.constraints.pop },
      constraint.occurrences.foldl (Arena.detach ⟨store.size - 1⟩) arena)
  | none => (store, arena)

def popMany (store : ConstraintStore) (arena : Arena) : Nat → ConstraintStore × Arena
  | 0 => (store, arena)
  | count + 1 =>
    let (store, arena) := store.pop arena
    store.popMany arena count

def truncate (store : ConstraintStore) (arena : Arena) (height : Nat) :
    ConstraintStore × Arena :=
  store.popMany arena (store.size - height)

def active (store : ConstraintStore) : List Constraint :=
  (store.constraints.toList.filter fun constraint => !constraint.discarded).reverse

end ConstraintStore

structure ActiveConstraint where
  relation : Relation
  left : Value
  right : Value
  deriving Repr

def Constraint.reify (arena : Arena) (constraint : Constraint) : ActiveConstraint :=
  ⟨constraint.relation, arena.value constraint.left, arena.value constraint.right⟩

def ActiveConstraint.text (symbols : SymbolTable) (constraint : ActiveConstraint) : String :=
  constraint.left.text symbols ++ " " ++ constraint.relation.symbol ++ " " ++
    constraint.right.text symbols

end Resolvent
