import Resolvent.Fault

namespace Resolvent

/-- An exact fraction in lowest terms, or the invalid value that division by zero leaves behind.
    Equality is structural, so the invalid value equals itself. -/
inductive Rational where
  | valid (value : Rat)
  | invalid
  deriving DecidableEq, Repr

namespace Rational

def ofFraction (numerator denominator : Int) : Rational :=
  if denominator = 0 then invalid else valid (Rat.divInt numerator denominator)

def ofInt (value : Int) : Rational := valid value

def zero : Rational := ofInt 0

def one : Rational := ofInt 1

instance : Inhabited Rational := ⟨zero⟩

def lift (operation : Rat → Rat → Rational) : Rational → Rational → Rational
  | valid left, valid right => operation left right
  | _, _ => invalid

def neg : Rational → Rational
  | valid value => valid (-value)
  | invalid => invalid

instance : Neg Rational := ⟨neg⟩

instance : Add Rational := ⟨lift fun left right => valid (left + right)⟩

instance : Sub Rational := ⟨lift fun left right => valid (left - right)⟩

instance : Mul Rational := ⟨lift fun left right => valid (left * right)⟩

instance : Div Rational :=
  ⟨lift fun left right => if right = 0 then invalid else valid (left / right)⟩

/-- The invalid value has no place in the order. -/
def order : Rational → Rational → Except Fault Ordering
  | valid left, valid right =>
    .ok (if left < right then .lt else if left = right then .eq else .gt)
  | _, _ => .error .unordered

def isValid : Rational → Bool
  | valid _ => true
  | invalid => false

def ratio? : Rational → Option Rat
  | valid value => some value
  | invalid => none

def isInteger : Rational → Bool
  | valid value => value.den == 1
  | invalid => false

def toInt64? : Rational → Option Int64
  | valid value =>
    if value.den = 1 ∧ Int64.minValue.toInt ≤ value.num ∧ value.num ≤ Int64.maxValue.toInt then
      some (Int64.ofInt value.num)
    else none
  | invalid => none

def text : Rational → String
  | valid value =>
    if value.den = 1 then toString value.num
    else toString value.num ++ "/" ++ toString value.den
  | invalid => "invalid"

end Rational

end Resolvent
