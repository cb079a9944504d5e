namespace Resolvent

/-- The whole number nearest to a quotient. A half goes to the even neighbour. -/
def roundQuotient (numerator denominator : Nat) : Nat :=
  let quotient := numerator / denominator
  let remainder := numerator % denominator
  if 2 * remainder < denominator then quotient
  else if denominator < 2 * remainder then quotient + 1
  else if quotient % 2 = 0 then quotient
  else quotient + 1

structure Dyadic64 where
  significand : Nat
  scale : Nat
  deriving DecidableEq, Repr

def Dyadic64.ofBits (bits : UInt64) : Dyadic64 :=
  let unit := Nat.pow 2 52
  let exponent := bits.toNat / unit % 2048
  let fraction := bits.toNat % unit
  if exponent = 0 then ⟨fraction, 0⟩ else ⟨unit + fraction, exponent - 1⟩

def Dyadic64.tenths (number : Dyadic64) : Nat :=
  roundQuotient (10 * number.significand * Nat.pow 2 number.scale) (Nat.pow 2 1074)

def textOfTenths (tenths : Nat) : String :=
  toString (tenths / 10) ++ "." ++ toString (tenths % 10)

end Resolvent
