import Mathlib.Algebra.Order.Ring.Rat
import Mathlib.Order.Compare
import Resolvent.Proofs.Semantics.Inversion

namespace Resolvent

def ArithmeticOperator.onFractions : ArithmeticOperator → Int × Int → Int × Int → Int × Int
  | add, first, second => (first.1 * second.2 + second.1 * first.2, first.2 * second.2)
  | subtract, first, second => (first.1 * second.2 - second.1 * first.2, first.2 * second.2)
  | multiply, first, second => (first.1 * second.1, first.2 * second.2)
  | divide, first, second => (first.1 * second.2, first.2 * second.1)

namespace Rational

def Reduces (number : Rational) (numerator denominator : Int) : Prop :=
  ∃ value, number = valid value ∧ 0 < value.den ∧ value.num.natAbs.Coprime value.den ∧
    value.num * denominator = numerator * value.den

def AtMost (left right : Rational) : Prop :=
  ∃ ordering, left.order right = .ok ordering ∧ ordering.isLE = true

variable {numerator denominator : Int}

theorem ofFraction_nonzero (nonzero : denominator ≠ 0) :
    ofFraction numerator denominator = valid (Rat.divInt numerator denominator) := if_neg nonzero

theorem ofFraction_eq_invalid : ofFraction numerator denominator = invalid ↔ denominator = 0 := by
  by_cases zero : denominator = 0
  · simp [ofFraction, zero]
  · simp [ofFraction_nonzero zero, zero]

theorem ofFraction_num_den (value : Rat) : ofFraction value.num value.den = valid value := by
  rw [ofFraction_nonzero (Int.natCast_ne_zero.mpr value.den_nz), Rat.num_divInt_den]

theorem eq_ofFraction_iff (nonzero : denominator ≠ 0) {number : Rational} :
    number = ofFraction numerator denominator ↔ number.Reduces numerator denominator := by
  have cross (value : Rat) : value = Rat.divInt numerator denominator ↔
      value.num * denominator = numerator * value.den := by
    rw [← Rat.divInt_eq_divInt_iff (Int.natCast_ne_zero.mpr value.den_nz) nonzero,
      Rat.num_divInt_den]
  rw [ofFraction_nonzero nonzero]
  constructor
  · rintro rfl
    exact ⟨_, rfl, Rat.den_pos _, Rat.reduced _, (cross _).mp rfl⟩
  · rintro ⟨value, rfl, -, -, same⟩
    rw [(cross value).mpr same]

theorem neg_ofFraction :
    -ofFraction numerator denominator = ofFraction (-numerator) denominator := by
  by_cases zero : denominator = 0
  · rw [ofFraction_eq_invalid.mpr zero, ofFraction_eq_invalid.mpr zero]
    rfl
  · rw [ofFraction_nonzero zero, ofFraction_nonzero zero, ← Rat.neg_divInt]
    rfl

theorem neg_eq_invalid {number : Rational} : -number = invalid ↔ number = invalid := by
  cases number with
  | valid value => exact iff_of_false nofun nofun
  | invalid => exact iff_of_true rfl rfl

/-- Operations on numbers reduce what comes of the operations on fractions. A fraction over zero is
    what comes of a division by zero. -/
theorem perform_ofFraction (operator : ArithmeticOperator) {first second : Int × Int}
    (proper : first.2 ≠ 0) (properToo : second.2 ≠ 0) :
    operator.perform (ofFraction first.1 first.2) (ofFraction second.1 second.2) =
      ofFraction (operator.onFractions first second).1 (operator.onFractions first second).2 := by
  have product := mul_ne_zero proper properToo
  rw [ofFraction_nonzero proper, ofFraction_nonzero properToo]
  cases operator with
  | add =>
    rw [ArithmeticOperator.onFractions, ofFraction_nonzero product,
      ← Rat.divInt_add_divInt _ _ proper properToo]
    rfl
  | subtract =>
    rw [ArithmeticOperator.onFractions, ofFraction_nonzero product,
      ← Rat.divInt_sub_divInt _ _ proper properToo]
    rfl
  | multiply =>
    rw [ArithmeticOperator.onFractions, ofFraction_nonzero product, ← Rat.divInt_mul_divInt]
    rfl
  | divide =>
    rw [ArithmeticOperator.perform, ArithmeticOperator.divide_valid, ArithmeticOperator.onFractions]
    simp only [Rat.divInt_eq_zero properToo]
    by_cases zero : second.1 = 0
    · rw [if_pos zero, ofFraction_eq_invalid.mpr (by simp [zero])]
    · rw [if_neg zero, ofFraction_nonzero (mul_ne_zero proper zero), Rat.divInt_div_divInt]

theorem perform_eq_invalid {operator : ArithmeticOperator} {left right : Rational} :
    operator.perform left right = invalid ↔
      left = invalid ∨ right = invalid ∨ operator = .divide ∧ right = zero := by
  cases left with
  | invalid => simp
  | valid first =>
    cases right with
    | invalid => simp
    | valid second =>
      cases operator with
      | add | subtract | multiply => exact iff_of_false nofun (by simp)
      | divide => simp [ArithmeticOperator.perform, ArithmeticOperator.divide_valid, zero, ofInt]

theorem valid_eq_iff (left right : Rat) :
    valid left = valid right ↔ left.num * right.den = right.num * left.den := by
  rw [valid.injEq, Rat.eq_iff_mul_eq_mul]

theorem order_valid (left right : Rat) :
    (valid left).order (valid right) = .ok (compare left right) := rfl

theorem atMost_valid {left right : Rat} : (valid left).AtMost (valid right) ↔ left ≤ right := by
  simp only [AtMost, order_valid, Except.ok.injEq, exists_eq_left', Ordering.isLE_iff_ne_gt]
  exact compare_le_iff_le

theorem compare_cross (left right : Rat) :
    compare left right = compare (left.num * right.den) (right.num * left.den) := by
  rcases lt_trichotomy left right with less | rfl | more
  · rw [compare_lt_iff_lt.mpr less, compare_lt_iff_lt.mpr ((Rat.lt_iff left right).mp less)]
  · rw [compare_eq_iff_eq.mpr rfl, compare_eq_iff_eq.mpr rfl]
  · rw [compare_gt_iff_gt.mpr more, compare_gt_iff_gt.mpr ((Rat.lt_iff right left).mp more)]

structure OrderExact : Prop where
  cross : ∀ left right : Rat, (valid left).order (valid right) =
    .ok (compare (left.num * right.den) (right.num * left.den))
  reflexive : ∀ value : Rat, (valid value).AtMost (valid value)
  antisymmetric : ∀ left right : Rat, (valid left).AtMost (valid right) →
    (valid right).AtMost (valid left) → valid left = valid right
  transitive : ∀ left middle right : Rat, (valid left).AtMost (valid middle) →
    (valid middle).AtMost (valid right) → (valid left).AtMost (valid right)
  total : ∀ left right : Rat,
    (valid left).AtMost (valid right) ∨ (valid right).AtMost (valid left)
  sum : ∀ left right other : Rat,
    (valid left + valid other).order (valid right + valid other) = (valid left).order (valid right)
  product : ∀ left right factor : Rat, zero.order (valid factor) = .ok .lt →
    (valid left * valid factor).order (valid right * valid factor) =
      (valid left).order (valid right)

theorem order_exact : OrderExact where
  cross left right := by rw [order_valid, compare_cross]
  reflexive value := atMost_valid.mpr (le_refl value)
  antisymmetric left right atMost atLeast :=
    congrArg valid (le_antisymm (atMost_valid.mp atMost) (atMost_valid.mp atLeast))
  transitive left middle right lower upper :=
    atMost_valid.mpr ((atMost_valid.mp lower).trans (atMost_valid.mp upper))
  total left right := (le_total left right).imp atMost_valid.mpr atMost_valid.mpr
  sum left right other := by
    have kept := cmp_add_right left right other
    rw [cmp_eq_compare, cmp_eq_compare] at kept
    exact congrArg Except.ok kept
  product left right factor positive := by
    have above : 0 < factor := compare_lt_iff_lt.mp (Except.ok.inj positive)
    have kept := cmp_mul_pos_right above left right
    rw [cmp_eq_compare, cmp_eq_compare] at kept
    exact congrArg Except.ok kept

def ComesOf (number : Rational) : Option (Int × Int) → Prop
  | some pair => pair.2 ≠ 0 ∧ number = ofFraction pair.1 pair.2
  | none => number = invalid

end Rational

inductive Calculation where
  | fraction (numerator denominator : Int)
  | neg (operand : Calculation)
  | perform (operator : ArithmeticOperator) (left right : Calculation)

namespace Calculation

def result : Calculation → Rational
  | fraction numerator denominator => .ofFraction numerator denominator
  | neg operand => -operand.result
  | perform operator left right => operator.perform left.result right.result

def proper (pair : Int × Int) : Option (Int × Int) := if pair.2 = 0 then none else some pair

/-- The numerator and the denominator that come of the same operations when nothing is ever reduced,
    unless a denominator is zero on the way. -/
def unreduced : Calculation → Option (Int × Int)
  | fraction numerator denominator => proper (numerator, denominator)
  | neg operand => operand.unreduced.map fun pair => (-pair.1, pair.2)
  | perform operator left right =>
    match left.unreduced, right.unreduced with
    | some first, some second => proper (operator.onFractions first second)
    | _, _ => none

theorem comesOf_proper (pair : Int × Int) :
    (Rational.ofFraction pair.1 pair.2).ComesOf (proper pair) := by
  rw [proper]
  split
  · next zero => exact Rational.ofFraction_eq_invalid.mpr zero
  · next nonzero => exact ⟨nonzero, rfl⟩

theorem result_comesOf (calculation : Calculation) :
    calculation.result.ComesOf calculation.unreduced := by
  induction calculation with
  | fraction numerator denominator => exact comesOf_proper (numerator, denominator)
  | neg operand ih =>
    rw [unreduced, result]
    cases held : operand.unreduced with
    | none =>
      rw [held] at ih
      exact Rational.neg_eq_invalid.mpr ih
    | some pair =>
      rw [held] at ih
      exact ⟨ih.1, by rw [ih.2, Rational.neg_ofFraction]⟩
  | perform operator left right leftIh rightIh =>
    rw [unreduced, result]
    cases leftHeld : left.unreduced with
    | none =>
      rw [leftHeld] at leftIh
      exact Rational.perform_eq_invalid.mpr (.inl leftIh)
    | some first =>
      cases rightHeld : right.unreduced with
      | none =>
        rw [rightHeld] at rightIh
        exact Rational.perform_eq_invalid.mpr (.inr (.inl rightIh))
      | some second =>
        rw [leftHeld] at leftIh
        rw [rightHeld] at rightIh
        rw [leftIh.2, rightIh.2, Rational.perform_ofFraction operator leftIh.1 rightIh.1]
        exact comesOf_proper _

end Calculation

/-- Numbers are exact. A fraction is reduced to the one form in lowest terms; whatever is calculated
    comes to what is calculated without reducing, and is invalid just if a denominator is zero on
    the way; valid numbers are equal just if their cross products are, and are ordered so; and an
    operation is invalid just if an operand is or it divides by zero. -/
theorem numbers_exact :
    (∀ number numerator denominator, denominator ≠ 0 →
      (number = Rational.ofFraction numerator denominator ↔
        number.Reduces numerator denominator)) ∧
    (∀ calculation : Calculation,
      (calculation.result = .invalid ↔ calculation.unreduced = none) ∧
      ∀ pair ∈ calculation.unreduced, calculation.result.Reduces pair.1 pair.2) ∧
    (∀ (operator : ArithmeticOperator) left right,
      operator.perform (.valid left) (.valid right) = .ofFraction
        (operator.onFractions (left.num, left.den) (right.num, right.den)).1
        (operator.onFractions (left.num, left.den) (right.num, right.den)).2) ∧
    (∀ value : Rat, -Rational.valid value = .ofFraction (-value.num) value.den) ∧
    (∀ left right : Rat, Rational.valid left = .valid right ↔
      left.num * right.den = right.num * left.den) ∧
    Rational.OrderExact ∧
    (∀ numerator denominator,
      Rational.ofFraction numerator denominator = .invalid ↔ denominator = 0) ∧
    (∀ number, -number = Rational.invalid ↔ number = .invalid) ∧
    ∀ (operator : ArithmeticOperator) left right, operator.perform left right = .invalid ↔
      left = .invalid ∨ right = .invalid ∨ operator = .divide ∧ right = .zero := by
  refine ⟨fun number numerator denominator nonzero => Rational.eq_ofFraction_iff nonzero,
    fun calculation => ?_, fun operator left right => ?_, fun value => ?_, Rational.valid_eq_iff,
    Rational.order_exact, fun _ _ => Rational.ofFraction_eq_invalid,
    fun _ => Rational.neg_eq_invalid, fun _ _ _ => Rational.perform_eq_invalid⟩
  · have comes := calculation.result_comesOf
    cases held : calculation.unreduced with
    | none =>
      rw [held] at comes
      exact ⟨iff_of_true comes rfl, nofun⟩
    | some pair =>
      rw [held] at comes
      have valid : calculation.result ≠ .invalid := by
        rw [comes.2, ne_eq, Rational.ofFraction_eq_invalid]
        exact comes.1
      refine ⟨iff_of_false valid nofun, fun other member => ?_⟩
      obtain rfl := Option.mem_some.mp member
      exact (Rational.eq_ofFraction_iff comes.1).mp comes.2
  · rw [← Rational.perform_ofFraction operator (Int.natCast_ne_zero.mpr left.den_nz)
      (Int.natCast_ne_zero.mpr right.den_nz), Rational.ofFraction_num_den,
      Rational.ofFraction_num_den]
  · rw [← Rational.neg_ofFraction, Rational.ofFraction_num_den]

namespace Reckoned

def calculation (numerator : Int) : Calculation :=
  .perform .subtract (.fraction 6 (-8))
    (.perform .divide (.fraction 1 2)
      (.perform .subtract (.fraction 1 3) (.fraction numerator 6)))

/-- With `2` it divides by zero. With `1` it comes to `-15 / 4`, by a fraction that is far from lowest
    terms; that is less than `-3 / 4`, and so are the halves of both. -/
theorem divided_once : (-8 : Int) ≠ 0 ∧ (Rational.ofFraction 6 (-8)).Reduces 6 (-8) ∧
    (calculation 2).unreduced = none ∧ (calculation 2).result = .invalid ∧
    (calculation 1).unreduced = some (180, -48) ∧ (calculation 1).result.Reduces 180 (-48) ∧
    Rational.zero.order (.valid (1 / 2)) = .ok .lt ∧
    (Rational.valid (-15 / 4) * .valid (1 / 2)).order (.valid (-3 / 4) * .valid (1 / 2)) =
      .ok .lt := by
  obtain ⟨lowest, calculated, -, -, -, ordered, -⟩ := numbers_exact
  have divides : (calculation 2).unreduced = none := by decide +kernel
  have other : (calculation 1).unreduced = some (180, -48) := by decide +kernel
  have positive : Rational.zero.order (.valid (1 / 2)) = .ok .lt := by decide +kernel
  refine ⟨by decide, (lowest _ 6 (-8) (by decide)).mp rfl, divides, (calculated _).1.mpr divides,
    other, (calculated _).2 _ other, positive, ?_⟩
  rw [ordered.product (-15 / 4) (-3 / 4) (1 / 2) positive]
  decide +kernel

end Reckoned

end Resolvent
