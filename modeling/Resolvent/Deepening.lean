namespace Resolvent

/-- The depth limits of successive passes. The depth of a goal is the number of goals on the call
    stack when it starts. -/
structure DepthPolicy where
  initial : UInt64 := 50
  maximum : UInt64 := 2000
  multiplier : UInt64 := 2
  deriving DecidableEq, Repr, Inhabited

def saturate (value : Nat) : UInt64 := UInt64.ofNat (min value (UInt64.size - 1))

namespace DepthPolicy

def first (policy : DepthPolicy) : UInt64 := min (max policy.initial 1) policy.maximum

/-- The limit after a given one: a multiple of it, and at least one more, up to the maximum. -/
def widen (policy : DepthPolicy) (limit : UInt64) : UInt64 :=
  min
    (max (saturate (limit.toNat * (max policy.multiplier 2).toNat)) (saturate (limit.toNat + 1)))
    policy.maximum

/-- The limits of the first passes, at most so many, as long as every pass has to be widened. -/
def limitsFrom (policy : DepthPolicy) : Nat → UInt64 → List UInt64
  | 0, _ => []
  | count + 1, limit =>
    limit :: if limit < policy.maximum then policy.limitsFrom count (policy.widen limit) else []

def limits (policy : DepthPolicy) (count : Nat) : List UInt64 :=
  policy.limitsFrom count policy.first

end DepthPolicy

end Resolvent
