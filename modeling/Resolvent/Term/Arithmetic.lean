import Resolvent.Term.Variables

namespace Resolvent

namespace ArithmeticOperator

def perform : ArithmeticOperator → Rational → Rational → Rational
  | add, left, right => left + right
  | subtract, left, right => left - right
  | multiply, left, right => left * right
  | divide, left, right => left / right

def solveLeft : ArithmeticOperator → Rational → Rational → Rational
  | add, right, target => target - right
  | subtract, right, target => target + right
  | multiply, right, target => target / right
  | divide, right, target => target * right

def solveRight : ArithmeticOperator → Rational → Rational → Rational
  | add, left, target => target - left
  | subtract, left, target => left - target
  | multiply, left, target => target / left
  | divide, left, target => left / target

end ArithmeticOperator

structure Evaluation where
  value : Option Rational
  operations : Nat
  deriving DecidableEq, Repr

namespace Evaluation

def isInvalid (evaluation : Evaluation) : Bool :=
  match evaluation.value with
  | some value => !value.isValid
  | none => false

def combine (operator : ArithmeticOperator) (left right : Evaluation) : Evaluation where
  value :=
    match left.value, right.value with
    | some left, some right => some (operator.perform left right)
    | _, _ => none
  operations := left.operations + right.operations + 1

end Evaluation

namespace Arena

def operation? (arena : Arena) (id : TermId) : Option (ArithmeticOperator × TermId × TermId) :=
  match arena.node id with
  | .compound { symbol := .reserved (.arithmetic operator), args := [left, right], .. } =>
    some (operator, left, right)
  | _ => none

def evaluateWithin (arena : Arena) : Nat → TermId → Option Evaluation
  | 0, _ => none
  | fuel + 1, id =>
    let id := arena.deref id
    match arena.node id with
    | .number value => some ⟨some value, 0⟩
    | .var _ => some ⟨none, 0⟩
    | .compound _ =>
      match arena.operation? id with
      | some (operator, left, right) => do
        let left ← arena.evaluateWithin fuel left
        let right ← arena.evaluateWithin fuel right
        return Evaluation.combine operator left right
      | none => none

def evaluate (arena : Arena) (id : TermId) : Option Evaluation :=
  arena.evaluateWithin arena.size id

def simplifyWithin : Nat → Arena → TermId → TermId × Arena
  | 0, arena, id => (id, arena)
  | fuel + 1, arena, id =>
    let id := arena.deref id
    match arena.operation? id with
    | none => (id, arena)
    | some (operator, left, right) =>
      let (first, arena) := simplifyWithin fuel arena left
      let (second, arena) := simplifyWithin fuel arena right
      match arena.number? first, arena.number? second with
      | some firstValue, some secondValue =>
        arena.number (operator.perform firstValue secondValue)
      | _, _ =>
        if first = left ∧ second = right then (id, arena)
        else arena.operator (.arithmetic operator) [first, second]

/-- Folds every operation on two numbers into a number. The term itself is the answer if nothing
    changes; in any other answer bound variables give way to what they are bound to. -/
def simplify (arena : Arena) (id : TermId) : TermId × Arena :=
  simplifyWithin arena.size arena id

def groundValue (arena : Arena) (id : TermId) : Rational :=
  match arena.evaluate id with
  | some { value := some value, .. } => value
  | _ => .invalid

def isolateWithin (arena : Arena) (var : TermId) : Nat → TermId → Rational → Rational
  | 0, _, target => target
  | fuel + 1, id, target =>
    match arena.operation? id with
    | none => target
    | some (operator, left, right) =>
      let left := arena.deref left
      let right := arena.deref right
      if left = var ∨ arena.occurs var left then
        arena.isolateWithin var fuel left (operator.solveLeft (arena.groundValue right) target)
      else
        arena.isolateWithin var fuel right (operator.solveRight (arena.groundValue left) target)

/-- What a variable must be for an expression to have a value, where the variable occurs once and
    all else is ground. Each operator on the way from the root to the variable is inverted. -/
def isolate (arena : Arena) (var id : TermId) (target : Rational) : Rational :=
  arena.isolateWithin var arena.size (arena.deref id) target

end Arena

end Resolvent
