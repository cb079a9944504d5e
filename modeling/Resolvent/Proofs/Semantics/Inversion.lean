import Mathlib.Tactic.FieldSimp
import Mathlib.Tactic.Ring
import Mathlib.Data.Rat.Defs
import Resolvent.Proofs.Semantics.Verdicts

namespace Resolvent

@[simp] theorem Rational.isValid_valid (value : Rat) : (Rational.valid value).isValid = true := rfl

@[simp] theorem Rational.isValid_invalid : Rational.invalid.isValid = false := rfl

namespace ArithmeticOperator

variable {operator : ArithmeticOperator} {left right target : Rational}

@[simp] theorem perform_invalid_left (operator : ArithmeticOperator) (right : Rational) :
    operator.perform .invalid right = .invalid := by
  cases operator <;> rfl

@[simp] theorem perform_invalid_right (operator : ArithmeticOperator) (left : Rational) :
    operator.perform left .invalid = .invalid := by
  cases operator <;> cases left <;> rfl

theorem solveLeft_valid (valid : (operator.solveLeft right target).isValid = true) :
    target.isValid = true := by
  cases target with
  | valid value => rfl
  | invalid => cases operator <;> cases right <;> cases valid

theorem solveRight_valid (valid : (operator.solveRight left target).isValid = true) :
    target.isValid = true := by
  cases target with
  | valid value => rfl
  | invalid => cases operator <;> cases left <;> cases valid

theorem solveLeft_valid_right (valid : (operator.solveLeft right target).isValid = true) :
    right.isValid = true := by
  cases right with
  | valid value => rfl
  | invalid => cases operator <;> cases target <;> cases valid

theorem divide_valid (left right : Rat) :
    Rational.valid left / Rational.valid right =
      if right = 0 then .invalid else .valid (left / right) := rfl

/-- The left operand found for a result gives that result, unless it is divided by zero. -/
theorem perform_solveLeft (valid : (operator.solveLeft right target).isValid = true) :
    operator.perform (operator.solveLeft right target) right =
      if operator = .divide ∧ right = .zero then .invalid else target := by
  obtain ⟨result, rfl⟩ : ∃ result, target = .valid result := by
    cases target with
    | valid result => exact ⟨result, rfl⟩
    | invalid => cases solveLeft_valid valid
  cases right with
  | invalid => cases operator <;> cases valid
  | valid other =>
    cases operator with
    | add => exact congrArg Rational.valid (by ring)
    | subtract => exact congrArg Rational.valid (by ring)
    | multiply =>
      simp only [solveLeft, divide_valid] at valid ⊢
      split at valid
      · cases valid
      · next nonzero =>
        rw [if_neg nonzero]
        exact congrArg Rational.valid (by field_simp)
    | divide =>
      change Rational.valid (result * other) / Rational.valid other = _
      simp only [divide_valid, Rational.zero, Rational.ofInt, Rational.valid.injEq, true_and]
      by_cases zero : other = 0
      · simp [zero]
      · simp [zero]

/-- The right operand found for a result gives that result, unless zero is divided by it. -/
theorem perform_solveRight (valid : (operator.solveRight left target).isValid = true) :
    operator.perform left (operator.solveRight left target) =
      if operator = .divide ∧ left = .zero then .invalid else target := by
  obtain ⟨result, rfl⟩ : ∃ result, target = .valid result := by
    cases target with
    | valid result => exact ⟨result, rfl⟩
    | invalid => cases solveRight_valid valid
  cases left with
  | invalid => cases operator <;> cases valid
  | valid other =>
    cases operator with
    | add => exact congrArg Rational.valid (by ring)
    | subtract => exact congrArg Rational.valid (by ring)
    | multiply =>
      simp only [solveRight, divide_valid] at valid ⊢
      split at valid
      · cases valid
      · next nonzero =>
        rw [if_neg nonzero]
        exact congrArg Rational.valid (by field_simp)
    | divide =>
      simp only [solveRight, divide_valid] at valid ⊢
      split at valid
      · cases valid
      · next nonzero =>
        change Rational.valid other / (if result = 0 then _ else _) = _
        rw [if_neg nonzero, divide_valid]
        simp only [Rational.zero, Rational.ofInt, Rational.valid.injEq, true_and]
        by_cases zero : other = 0
        · simp [zero]
        · have apart : other / result ≠ 0 := div_ne_zero zero nonzero
          simp [zero, apart]

end ArithmeticOperator

namespace Value

variable {values : TermId → Option Rational} {value left right : Value} {var : TermId}
  {target : Rational}

/-- On the way to a variable nothing is divided by zero, and zero is divided by nothing. -/
def regular (var : TermId) : Value → Bool
  | .compound (.reserved (.arithmetic operator)) [left, right] =>
    if var ∈ left.vars then !(operator = .divide && right.total = .zero) && left.regular var
    else !(operator = .divide && left.total = .zero) && right.regular var
  | _ => true

theorem regular_operation {operator : ArithmeticOperator} :
    (Value.compound (.reserved (.arithmetic operator)) [left, right]).regular var =
      if var ∈ left.vars then !(operator = .divide && right.total = .zero) && left.regular var
      else !(operator = .divide && left.total = .zero) && right.regular var := by
  rw [regular]

theorem calculate_ground (known : value.evaluation.isSome = true) (ground : value.vars = []) :
    value.calculate values = some value.total := by
  obtain ⟨evaluation, same⟩ := Option.isSome_iff_exists.mp known
  have facts := evaluated same
  cases total : evaluation.value with
  | none => exact absurd ground (facts.unknown total)
  | some result =>
    rw [total_of_evaluation same total]
    exact (facts.ground _ total).2 values

theorem operands_known {operator : ArithmeticOperator}
    (known : (Value.compound (.reserved (.arithmetic operator)) [left, right]).evaluation.isSome = true) :
    left.evaluation.isSome = true ∧ right.evaluation.isSome = true := by
  rw [evaluation_operation] at known
  cases leftKnown : left.evaluation with
  | none => simp [leftKnown] at known
  | some first =>
    cases rightKnown : right.evaluation with
    | none => simp [leftKnown, rightKnown] at known
    | some second => exact ⟨rfl, rfl⟩

theorem operands_single {operator : ArithmeticOperator}
    (single : (Value.compound (.reserved (.arithmetic operator)) [left, right]).vars = [var]) :
    left.vars = [var] ∧ right.vars = [] ∨ left.vars = [] ∧ right.vars = [var] := by
  rw [vars_operation, List.append_eq_singleton_iff] at single
  exact single.symm

theorem isolate_valid (valid : (value.isolate var target).isValid = true) :
    target.isValid = true := by
  induction value using expression_cases generalizing target with
  | number | var =>
    rw [isolate.eq_2 _ _ _ (by simp)] at valid
    exact valid
  | other symbol args other => rwa [isolate_other other] at valid
  | operation operator left right leftIh rightIh =>
    rw [isolate_operation] at valid
    split at valid
    · exact ArithmeticOperator.solveLeft_valid (leftIh valid)
    · exact ArithmeticOperator.solveRight_valid (rightIh valid)

theorem isolate_invalid (value : Value) (var : TermId) : value.isolate var .invalid = .invalid := by
  cases found : value.isolate var .invalid with
  | invalid => rfl
  | valid number =>
    have valid : (value.isolate var .invalid).isValid = true := by simp [found]
    cases isolate_valid valid

theorem ground_of_total (valid : value.total.isValid = true) : value.vars = [] := by
  rcases known : value.evaluation with _ | ⟨_ | number, _⟩
  · simp [total, known] at valid
  · simp [total, known] at valid
  · exact ((evaluated known).ground number rfl).1

/-- Nothing valid is found for an unknown that occurs more than once: the operand that is taken for
    ground has no total. -/
theorem single_of_isolate (known : value.evaluation.isSome = true) (isOpen : value.vars ≠ [])
    (only : ∀ other ∈ value.vars, other = var) (valid : (value.isolate var target).isValid = true) :
    value.vars = [var] := by
  induction value using expression_cases generalizing target with
  | number => simp at isOpen
  | var id => simpa using only
  | other symbol args other => simp [evaluation_other other] at known
  | operation operator left right leftIh rightIh =>
    obtain ⟨leftKnown, rightKnown⟩ := operands_known known
    rw [vars_operation] at isOpen only ⊢
    have onlyLeft := fun other member => only other (List.mem_append_left _ member)
    have onlyRight := fun other member => only other (List.mem_append_right _ member)
    rw [isolate_operation] at valid
    split at valid
    · next here =>
      have ground : right.vars = [] :=
        ground_of_total (ArithmeticOperator.solveLeft_valid_right (isolate_valid valid))
      rw [ground, List.append_nil]
      exact leftIh leftKnown (List.ne_nil_of_mem here) onlyLeft valid
    · next apart =>
      have ground : left.vars = [] :=
        List.eq_nil_iff_forall_not_mem.mpr fun other member => apart (onlyLeft other member ▸ member)
      rw [ground, List.nil_append] at isOpen ⊢
      exact rightIh rightKnown isOpen onlyRight valid

/-- With its unknown set to what was found an expression has the value that was asked for, unless it
    divides by zero on the way. -/
theorem calculate_isolate (known : value.evaluation.isSome = true) (single : value.vars = [var])
    (valid : (value.isolate var target).isValid = true)
    (unknown : values var = some (value.isolate var target)) :
    value.calculate values = some (if value.regular var then target else .invalid) := by
  induction value using expression_cases generalizing target with
  | number => cases single
  | var id =>
    obtain rfl : id = var := by simpa using single
    rw [isolate.eq_2 _ _ _ (by simp)] at unknown
    simp [regular, unknown]
  | other symbol args other => simp [evaluation_other other] at known
  | operation operator left right leftIh rightIh =>
    obtain ⟨leftKnown, rightKnown⟩ := operands_known known
    rw [isolate_operation] at valid unknown
    rw [regular_operation, calculate_operation]
    rcases operands_single single with ⟨inside, ground⟩ | ⟨ground, inside⟩
    · have here : var ∈ left.vars := by simp [inside]
      rw [if_pos here] at valid unknown ⊢
      rw [leftIh leftKnown inside valid unknown, calculate_ground rightKnown ground]
      have solved := ArithmeticOperator.perform_solveLeft (isolate_valid valid)
      cases regular : left.regular var with
      | false => simp
      | true =>
        simp only [if_true, Option.bind_some, solved, Bool.and_true]
        by_cases zero : operator = .divide ∧ right.total = .zero
        · simp [zero]
        · simp [zero]
    · have apart : var ∉ left.vars := by simp [ground]
      rw [if_neg apart] at valid unknown ⊢
      rw [rightIh rightKnown inside valid unknown, calculate_ground leftKnown ground]
      have solved := ArithmeticOperator.perform_solveRight (isolate_valid valid)
      cases regular : right.regular var with
      | false => simp
      | true =>
        simp only [if_true, Option.bind_some, solved, Bool.and_true]
        by_cases zero : operator = .divide ∧ left.total = .zero
        · simp [zero]
        · simp [zero]

theorem calculate_invalid (known : value.evaluation.isSome = true) (single : value.vars = [var])
    (unknown : values var = some .invalid) : value.calculate values = some .invalid := by
  induction value using expression_cases with
  | number => cases single
  | var id =>
    obtain rfl : id = var := by simpa using single
    simpa using unknown
  | other symbol args other => simp [evaluation_other other] at known
  | operation operator left right leftIh rightIh =>
    obtain ⟨leftKnown, rightKnown⟩ := operands_known known
    rw [calculate_operation]
    rcases operands_single single with ⟨inside, ground⟩ | ⟨ground, inside⟩
    · rw [leftIh leftKnown inside, calculate_ground rightKnown ground]
      simp
    · rw [rightIh rightKnown inside, calculate_ground leftKnown ground]
      simp

variable {first second third fourth : Value}

/-- Two expressions have values, and the same value unless one of them is invalid. -/
def Agrees (values : TermId → Option Rational) (left right : Value) : Prop :=
  ∃ first second, left.calculate values = some first ∧ right.calculate values = some second ∧
    (first = second ∨ first.isValid = false ∨ second.isValid = false)

structure Settles (left right : Value) : Prop where
  leftGround : left.vars = []
  rightGround : right.vars = []
  agrees : ∀ values, Agrees values left right

/-- An equation comes down to another: they have the same unknowns, and whatever makes the sides of
    the other agree makes its sides agree. -/
structure Rests (left right first second : Value) : Prop where
  unknowns : ∀ var, var ∈ left.vars ∨ var ∈ right.vars ↔ var ∈ first.vars ∨ var ∈ second.vars
  agrees : ∀ values, Agrees values first second → Agrees values left right

theorem Rests.refl (left right : Value) : Rests left right left right :=
  ⟨fun _ => Iff.rfl, fun _ agrees => agrees⟩

theorem Rests.trans (rests : Rests left right first second) (onward : Rests first second third fourth) :
    Rests left right third fourth :=
  ⟨fun var => (rests.unknowns var).trans (onward.unknowns var),
    fun values agrees => rests.agrees values (onward.agrees values agrees)⟩

theorem agrees_subst {change : TermId → Value} :
    Agrees values (left.subst change) (right.subst change) ↔
      Agrees (fun id => (change id).calculate values) left right := by
  simp only [Agrees, calculate_subst]

theorem Rests.subst (rests : Rests left right first second) (change : TermId → Value) :
    Rests (left.subst change) (right.subst change) (first.subst change) (second.subst change) where
  unknowns var := by
    simp only [vars_subst, List.mem_flatMap, ← exists_or, ← or_and_right, rests.unknowns]
  agrees values agrees := by
    rw [agrees_subst] at agrees ⊢
    exact rests.agrees _ agrees

theorem Rests.settles (rests : Rests left right first second) (settles : Settles first second) :
    Settles left right := by
  have none (var : TermId) : ¬ (var ∈ left.vars ∨ var ∈ right.vars) := by
    rw [rests.unknowns, settles.leftGround, settles.rightGround]
    simp
  exact ⟨List.eq_nil_iff_forall_not_mem.mpr fun var member => none var (.inl member),
    List.eq_nil_iff_forall_not_mem.mpr fun var member => none var (.inr member),
    fun values => rests.agrees values (settles.agrees values)⟩

theorem settles_number (number : Rational) : Settles (.number number) (.number number) :=
  ⟨rfl, rfl, fun values => ⟨number, number, by simp, by simp, .inl rfl⟩⟩

theorem rests_simplify (left right : Value) : Rests left right left.simplify right.simplify := by
  have leftSame := left.simplify_same
  have rightSame := right.simplify_same
  refine ⟨fun var => by rw [leftSame.2.1, rightSame.2.1], fun values agrees => ?_⟩
  rwa [Agrees, leftSame.1, rightSame.1] at agrees

theorem settles_equal {leftEvaluation rightEvaluation : Evaluation} {total : Rational}
    (leftKnown : left.evaluation = some leftEvaluation)
    (rightKnown : right.evaluation = some rightEvaluation)
    (leftValue : leftEvaluation.value = some total) (rightValue : rightEvaluation.value = some total) :
    Settles left right := by
  obtain ⟨leftGround, leftTotal⟩ := (evaluated leftKnown).ground _ leftValue
  obtain ⟨rightGround, rightTotal⟩ := (evaluated rightKnown).ground _ rightValue
  exact ⟨leftGround, rightGround,
    fun values => ⟨total, total, leftTotal values, rightTotal values, .inl rfl⟩⟩

theorem rests_isolate {side : Value} {leftEvaluation rightEvaluation : Evaluation}
    (leftKnown : left.evaluation = some leftEvaluation)
    (rightKnown : right.evaluation = some rightEvaluation)
    (oneSided : Ledger.OneSided left right leftEvaluation rightEvaluation side target)
    (single : side.vars = [var]) (valid : (side.isolate var target).isValid = true) :
    Rests left right (.var var) (.number (side.isolate var target)) := by
  have solved {values : TermId → Option Rational} (known : side.evaluation.isSome = true)
      (agrees : Agrees values (.var var) (.number (side.isolate var target))) :
      ∃ total, side.calculate values = some total ∧ (total = target ∨ total.isValid = false) := by
    obtain ⟨unknown, number, varKnown, same, agree⟩ := agrees
    rw [calculate_var] at varKnown
    obtain rfl : side.isolate var target = number := by simpa using same
    rcases agree with rfl | invalid | invalid
    · rw [calculate_isolate known single valid varKnown]
      cases side.regular var <;> simp
    · obtain rfl : unknown = .invalid := by
        cases unknown with
        | valid value => cases invalid
        | invalid => rfl
      exact ⟨_, calculate_invalid known single varKnown, .inr rfl⟩
    · exact absurd valid (by simp [invalid])
  cases oneSided with
  | left _ known =>
    obtain ⟨ground, total⟩ := (evaluated rightKnown).ground _ known
    refine ⟨fun other => by simp [single, ground], fun values agrees => ?_⟩
    obtain ⟨result, reached, same⟩ := solved (by simp [leftKnown]) agrees
    exact ⟨result, target, reached, total values, same.imp_right .inl⟩
  | right known _ =>
    obtain ⟨ground, total⟩ := (evaluated leftKnown).ground _ known
    refine ⟨fun other => by simp [single, ground], fun values agrees => ?_⟩
    obtain ⟨result, reached, same⟩ := solved (by simp [rightKnown]) agrees
    exact ⟨target, result, total values, reached, same.imp Eq.symm .inr⟩

end Value

/-- So a count of one that has wrapped round is not taken for a single unknown. -/
theorem Ledger.Acyclic.single_of_isolate {ledger : Ledger} (acyclic : ledger.Acyclic)
    (wellFormed : ledger.WellFormed) {id var : TermId} (live : ledger.Live id)
    (known : (ledger.value id).evaluation.isSome = true)
    (counted : ledger.arena.occurrences [] id = [(var, 1)]) {target : Rational}
    (valid : (ledger.arena.isolate var id target).isValid = true) : (ledger.value id).vars = [var] := by
  rw [acyclic.occurrences wellFormed live] at counted
  obtain ⟨isOpen, only⟩ := vars_of_found counted
  obtain ⟨first, member⟩ := List.exists_mem_of_ne_nil _ isOpen
  obtain ⟨isVar, -⟩ := acyclic.vars_open wellFormed live var (only first member ▸ member)
  rw [acyclic.isolate wellFormed live isVar] at valid
  exact Value.single_of_isolate known isOpen only valid

end Resolvent
