import Resolvent.Proofs.Semantics.MostGeneral
import Resolvent.Proofs.Semantics.Solving

namespace Resolvent

namespace ArithmeticOperator

variable {operator : ArithmeticOperator} {left right : Rational} {target : Rat}

theorem operands_valid (result : operator.perform left right = .valid target) :
    ∃ first second, left = .valid first ∧ right = .valid second := by
  cases left with
  | invalid => cases operator.perform_invalid_left right ▸ result
  | valid first =>
    cases right with
    | invalid => cases operator.perform_invalid_right (.valid first) ▸ result
    | valid second => exact ⟨first, second, rfl, rfl⟩

theorem divide_result {first second : Rat}
    (result : divide.perform (.valid first) (.valid second) = .valid target) :
    second ≠ 0 ∧ first / second = target := by
  change Rational.valid first / Rational.valid second = .valid target at result
  rw [divide_valid] at result
  split at result
  · cases result
  · next nonzero => exact ⟨nonzero, Rational.valid.inj result⟩

/-- Solving for the left operand takes an operation back, unless it multiplied by zero. -/
theorem solveLeft_perform (result : operator.perform left right = .valid target) :
    operator.solveLeft right (.valid target) =
      if operator = .multiply ∧ right = .zero then .invalid else left := by
  obtain ⟨first, second, rfl, rfl⟩ := operands_valid result
  cases operator with
  | add =>
    obtain rfl : first + second = target := Rational.valid.inj result
    exact congrArg Rational.valid (add_sub_cancel_right first second)
  | subtract =>
    obtain rfl : first - second = target := Rational.valid.inj result
    exact congrArg Rational.valid (sub_add_cancel first second)
  | multiply =>
    obtain rfl : first * second = target := Rational.valid.inj result
    simp only [solveLeft, divide_valid, Rational.zero, Rational.ofInt, Rational.valid.injEq,
      true_and, Int.cast_zero]
    split
    · rfl
    · next nonzero => exact congrArg Rational.valid (mul_div_cancel_right₀ first nonzero)
  | divide =>
    obtain ⟨nonzero, rfl⟩ := divide_result result
    exact congrArg Rational.valid (div_mul_cancel₀ first nonzero)

/-- Solving for the right operand takes an operation back, unless it multiplied zero or divided
    it. -/
theorem solveRight_perform (result : operator.perform left right = .valid target) :
    operator.solveRight left (.valid target) =
      if (operator = .multiply ∨ operator = .divide) ∧ left = .zero then .invalid else right := by
  obtain ⟨first, second, rfl, rfl⟩ := operands_valid result
  cases operator with
  | add =>
    obtain rfl : first + second = target := Rational.valid.inj result
    exact congrArg Rational.valid (add_sub_cancel_left first second)
  | subtract =>
    obtain rfl : first - second = target := Rational.valid.inj result
    exact congrArg Rational.valid (sub_sub_cancel first second)
  | multiply =>
    obtain rfl : first * second = target := Rational.valid.inj result
    simp only [solveRight, divide_valid, Rational.zero, Rational.ofInt, Rational.valid.injEq,
      true_or, true_and, Int.cast_zero]
    split
    · rfl
    · next nonzero => exact congrArg Rational.valid (mul_div_cancel_left₀ second nonzero)
  | divide =>
    obtain ⟨nonzero, rfl⟩ := divide_result result
    simp only [solveRight, divide_valid, Rational.zero, Rational.ofInt, Rational.valid.injEq,
      or_true, true_and, Int.cast_zero, div_eq_zero_iff, nonzero, or_false]
    split
    · rfl
    · next apart => exact congrArg Rational.valid (div_div_cancel₀ apart)

end ArithmeticOperator

namespace Value

variable {values : TermId → Option Rational} {value left right : Value} {var : TermId}
  {operator : ArithmeticOperator} {number : Rational} {target : Rat}

/-- On the way from the root of an expression to a variable stands a product whose other factor is
    zero, or a quotient with the variable below and zero above. -/
inductive Blocks (var : TermId) : Value → Prop where
  | leftFactor {left right : Value} (inside : var ∈ left.vars) (zero : right.total = .zero) :
      Blocks var (.compound (.reserved (.arithmetic .multiply)) [left, right])
  | rightFactor {left right : Value} (inside : var ∈ right.vars) (zero : left.total = .zero) :
      Blocks var (.compound (.reserved (.arithmetic .multiply)) [left, right])
  | divisor {left right : Value} (inside : var ∈ right.vars) (zero : left.total = .zero) :
      Blocks var (.compound (.reserved (.arithmetic .divide)) [left, right])
  | left {operator : ArithmeticOperator} {left right : Value} (below : Blocks var left) :
      Blocks var (.compound (.reserved (.arithmetic operator)) [left, right])
  | right {operator : ArithmeticOperator} {left right : Value} (below : Blocks var right) :
      Blocks var (.compound (.reserved (.arithmetic operator)) [left, right])

theorem not_blocks_var {id : TermId} : ¬ (Value.var id).Blocks var := by
  intro blocks
  cases blocks

theorem Blocks.mem_vars (blocks : value.Blocks var) : var ∈ value.vars := by
  induction blocks with
  | leftFactor inside => simp [inside]
  | rightFactor inside => simp [inside]
  | divisor inside => simp [inside]
  | left _ ih => simp [ih]
  | right _ ih => simp [ih]

theorem blocks_left (inside : var ∈ left.vars) (apart : var ∉ right.vars) :
    (Value.compound (.reserved (.arithmetic operator)) [left, right]).Blocks var ↔
      operator = .multiply ∧ right.total = .zero ∨ left.Blocks var := by
  constructor
  · rintro (⟨-, zero⟩ | ⟨here, -⟩ | ⟨here, -⟩ | ⟨below⟩ | ⟨below⟩)
    · exact .inl ⟨rfl, zero⟩
    · exact absurd here apart
    · exact absurd here apart
    · exact .inr below
    · exact absurd below.mem_vars apart
  · rintro (⟨rfl, zero⟩ | below)
    · exact .leftFactor inside zero
    · exact .left below

theorem blocks_right (inside : var ∈ right.vars) (apart : var ∉ left.vars) :
    (Value.compound (.reserved (.arithmetic operator)) [left, right]).Blocks var ↔
      (operator = .multiply ∨ operator = .divide) ∧ left.total = .zero ∨ right.Blocks var := by
  constructor
  · rintro (⟨here, -⟩ | ⟨-, zero⟩ | ⟨-, zero⟩ | ⟨below⟩ | ⟨below⟩)
    · exact absurd here apart
    · exact .inl ⟨.inl rfl, zero⟩
    · exact .inl ⟨.inr rfl, zero⟩
    · exact absurd below.mem_vars apart
    · exact .inr below
  · rintro (⟨rfl | rfl, zero⟩ | below)
    · exact .rightFactor inside zero
    · exact .divisor inside zero
    · exact .right below

structure Finds (value : Value) (var : TermId) (number found : Rational) : Prop where
  blocked : value.Blocks var → found = .invalid
  free : ¬ value.Blocks var → found = number

theorem Finds.of_operand {part : Value} {found : Rational} (finds : part.Finds var number found)
    (same : value.Blocks var ↔ part.Blocks var) : value.Finds var number found :=
  ⟨fun blocks => finds.blocked (same.mp blocks), fun free => finds.free (mt same.mpr free)⟩

theorem finds_invalid (blocks : value.Blocks var) : value.Finds var number .invalid :=
  ⟨fun _ => rfl, fun free => absurd blocks free⟩

/-- Of an expression that comes to a target once its unknown is set to a number, that number is
    found, unless the way to the unknown is blocked. -/
theorem finds_solution (single : value.vars = [var])
    (result : value.calculate values = some (.valid target)) (unknown : values var = some number) :
    value.Finds var number (value.isolate var (.valid target)) := by
  induction value using expression_cases generalizing target with
  | number => cases single
  | var id =>
    obtain rfl : id = var := by simpa using single
    obtain rfl : number = .valid target :=
      Option.some.inj (unknown.symm.trans ((calculate_var id).symm.trans result))
    rw [isolate.eq_2 _ _ _ (by simp)]
    exact ⟨fun blocks => absurd blocks not_blocks_var, fun _ => rfl⟩
  | other symbol args other => simp [calculate_other other] at result
  | operation operator left right leftIh rightIh =>
    obtain ⟨leftKnown, rightKnown⟩ := operands_known (known_of_calculate result)
    rw [calculate_operation] at result
    obtain ⟨first, leftResult, result⟩ := Option.bind_eq_some_iff.mp result
    obtain ⟨second, rightResult, result⟩ := Option.bind_eq_some_iff.mp result
    have performs := Option.some.inj result
    obtain ⟨leftTotal, rightTotal, rfl, rfl⟩ := ArithmeticOperator.operands_valid performs
    rw [isolate_operation]
    -- The unknown is below one operand alone, so the other has a total, which may block the way.
    rcases operands_single single with ⟨inside, ground⟩ | ⟨ground, inside⟩
    · have here : var ∈ left.vars := by simp [inside]
      have total : right.total = .valid rightTotal :=
        Option.some.inj ((calculate_ground rightKnown ground).symm.trans rightResult)
      have blocks := @blocks_left left right var operator here (by simp [ground])
      rw [total] at blocks
      rw [if_pos here, total, ArithmeticOperator.solveLeft_perform performs]
      split
      · next zero =>
        rw [isolate_invalid]
        exact finds_invalid (blocks.mpr (.inl zero))
      · next nonzero =>
        exact (leftIh inside leftResult).of_operand (blocks.trans (or_iff_right nonzero))
    · have apart : var ∉ left.vars := by simp [ground]
      have total : left.total = .valid leftTotal :=
        Option.some.inj ((calculate_ground leftKnown ground).symm.trans leftResult)
      have blocks := @blocks_right left right var operator (by simp [inside]) apart
      rw [total] at blocks
      rw [if_neg apart, total, ArithmeticOperator.solveRight_perform performs]
      split
      · next zero =>
        rw [isolate_invalid]
        exact finds_invalid (blocks.mpr (.inl zero))
      · next nonzero =>
        exact (rightIh inside rightResult).of_operand (blocks.trans (or_iff_right nonzero))

end Value

namespace Ledger

variable {ledger : Ledger} {id var : TermId} {number : Rational} {target : Rat}

/-- A term in which a variable is set to a number comes to what its value comes to there. -/
theorem Readable.calculate_setNumber (readable : ledger.Readable) (live : ledger.Live id)
    (single : (ledger.value id).vars = [var])
    (result : ((ledger.arena.setNumber var number).evaluate id).bind Evaluation.value =
      some (.valid target)) :
    (ledger.value id).calculate (fun _ => some number) = some (.valid target) := by
  have ⟨wellFormed, acyclic⟩ := readable
  obtain ⟨isVar, unbound⟩ := acyclic.vars_open wellFormed live var (by simp [single])
  obtain ⟨bound, same, onward, grown, set, -⟩ := readable.setNumber isVar unbound number
  have value := acyclic.value_later onward.acyclic grown wellFormed onward.wellFormed live
  rw [← same, onward.acyclic.evaluate onward.wellFormed (grown.live live), value] at result
  have numbers : (ledger.value id).subst bound.value =
      (ledger.value id).subst fun _ => .number number := by
    refine Value.subst_congr fun other member => ?_
    obtain rfl : other = var := by simpa [single] using member
    exact set
  rw [numbers] at result
  have comes := (Value.calculate_of_evaluation result).2 fun _ => none
  simpa [Value.calculate_subst] using comes

end Ledger

/-- An equation between an expression with a single unknown and a number is solved by what makes it
    true, if anything does. Only where a product with zero or a quotient of zero stands on the way to
    the unknown is nothing found. -/
theorem isolate_solution {state : State} (sound : state.Sound) {id var : TermId}
    (inside : state.arena.contains id = true)
    (single : (state.arena.value id).vars = [var]) {number : Rational} {target : Rat}
    (solves : ((state.arena.setNumber var number).evaluate id).bind Evaluation.value =
      some (.valid target)) :
    (state.arena.isolate var id (.valid target) = number ∨
      state.arena.isolate var id (.valid target) = .invalid) ∧
    (state.arena.isolate var id (.valid target) = .invalid ↔
      (state.arena.value id).Blocks var) := by
  obtain ⟨ledger, wellFormed, acyclic, counters, rfl⟩ := sound
  have live := (Ledger.contains_arena ledger id).mp inside
  have vars : (ledger.value id).vars = [var] := single
  have isVar := (acyclic.vars_open wellFormed live var (by simp [vars])).1
  have result := Ledger.Readable.calculate_setNumber ⟨wellFormed, acyclic⟩ live vars solves
  have finds := Value.finds_solution vars result rfl
  rw [Ledger.arena_state, acyclic.isolate wellFormed live isVar]
  change _ ∧ (_ ↔ (ledger.value id).Blocks var)
  refine ⟨?_, fun none => ?_, finds.blocked⟩
  · exact (em ((ledger.value id).Blocks var)).symm.imp finds.free finds.blocked
  · by_contra free
    -- An expression does not come to a number once its unknown is set to the invalid value.
    obtain rfl : number = .invalid := (finds.free free).symm.trans none
    have known := Value.known_of_calculate result
    cases result.symm.trans (Value.calculate_invalid known vars rfl)

namespace Sought

def terms : List Shape :=
  [.var, .number (.valid 1), .compound (.reserved (.arithmetic .subtract)) [⟨0⟩, ⟨1⟩],
    .number (.valid 2), .compound (.reserved (.arithmetic .multiply)) [⟨3⟩, ⟨2⟩],
    .number (.valid 12), .compound (.reserved (.arithmetic .divide)) [⟨5⟩, ⟨4⟩],
    .number (.valid 0), .compound (.reserved (.arithmetic .multiply)) [⟨7⟩, ⟨2⟩],
    .compound (.reserved (.arithmetic .add)) [⟨8⟩, ⟨5⟩]]

def state : State := { arena := (Arena.build? {} terms).getD {} }

/-- Where the quotient is two, the unknown is found. Where twelve is added to nothing, whatever the
    unknown is, nothing is. -/
theorem found_unless_blocked : state.Sound ∧
    (state.arena.value ⟨6⟩).vars = [⟨0⟩] ∧ (state.arena.value ⟨9⟩).vars = [⟨0⟩] ∧
    ((state.arena.setNumber ⟨0⟩ (.valid 4)).evaluate ⟨6⟩).bind Evaluation.value = some (.valid 2) ∧
    ((state.arena.setNumber ⟨0⟩ (.valid 7)).evaluate ⟨9⟩).bind Evaluation.value = some (.valid 12) ∧
    state.arena.isolate ⟨0⟩ ⟨6⟩ (.valid 2) = .valid 4 ∧ ¬ (state.arena.value ⟨6⟩).Blocks ⟨0⟩ ∧
    state.arena.isolate ⟨0⟩ ⟨9⟩ (.valid 12) = .invalid ∧ (state.arena.value ⟨9⟩).Blocks ⟨0⟩ := by
  have sound : state.Sound := @sound_of_build terms _ {} (by decide +kernel)
  have once : (state.arena.value ⟨6⟩).vars = [⟨0⟩] := by decide +kernel
  have solves : ((state.arena.setNumber ⟨0⟩ (.valid 4)).evaluate ⟨6⟩).bind Evaluation.value =
      some (.valid 2) := by decide +kernel
  have onceToo : (state.arena.value ⟨9⟩).vars = [⟨0⟩] := by decide +kernel
  have solvesToo : ((state.arena.setNumber ⟨0⟩ (.valid 7)).evaluate ⟨9⟩).bind Evaluation.value =
      some (.valid 12) := by decide +kernel
  have found : state.arena.isolate ⟨0⟩ ⟨6⟩ (.valid 2) = .valid 4 := by decide +kernel
  have lost : state.arena.isolate ⟨0⟩ ⟨9⟩ (.valid 12) = .invalid := by decide +kernel
  obtain ⟨-, free⟩ := isolate_solution sound (by decide +kernel) once solves
  obtain ⟨-, blocked⟩ := isolate_solution sound (by decide +kernel) onceToo solvesToo
  exact ⟨sound, once, onceToo, solves, solvesToo, found, mt free.mpr (by simp [found]), lost,
    blocked.mp lost⟩

end Sought

end Resolvent
