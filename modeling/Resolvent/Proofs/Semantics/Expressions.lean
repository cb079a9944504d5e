import Resolvent.Term.Arithmetic
import Resolvent.Proofs.Semantics.Unifiers

namespace Resolvent

namespace Value

def evaluation : Value → Option Evaluation
  | .number value => some ⟨some value, 0⟩
  | .var _ => some ⟨none, 0⟩
  | .compound (.reserved (.arithmetic operator)) [left, right] => do
    let first ← left.evaluation
    let second ← right.evaluation
    return Evaluation.combine operator first second
  | .compound _ _ => none

def calculate (values : TermId → Option Rational) : Value → Option Rational
  | .number value => some value
  | .var id => values id
  | .compound (.reserved (.arithmetic operator)) [left, right] => do
    let first ← left.calculate values
    let second ← right.calculate values
    return operator.perform first second
  | .compound _ _ => none

def simplify : Value → Value
  | .compound (.reserved (.arithmetic operator)) [left, right] =>
    match left.simplify, right.simplify with
    | .number first, .number second => .number (operator.perform first second)
    | first, second => .compound (.reserved (.arithmetic operator)) [first, second]
  | value => value

def total (value : Value) : Rational :=
  match value.evaluation with
  | some { value := some total, .. } => total
  | _ => .invalid

/-- What a variable must be for an expression to have a value, by inverting the operators on the
    way to it. -/
def isolate (var : TermId) : Value → Rational → Rational
  | .compound (.reserved (.arithmetic operator)) [left, right], target =>
    if var ∈ left.vars then left.isolate var (operator.solveLeft right.total target)
    else right.isolate var (operator.solveRight left.total target)
  | _, target => target

def Opaque (symbol : Symbol) (args : List Value) : Prop :=
  ∀ operator left right, symbol = .reserved (.arithmetic operator) → args = [left, right] → False

theorem opaque_map {α : Type} {symbol : Symbol} {args : List α} (change : α → Value)
    (other : ∀ operator left right,
      symbol = .reserved (.arithmetic operator) → args = [left, right] → False) :
    Opaque symbol (args.map change) := by
  intro operator left right same pair
  obtain ⟨first, rest, rfl, -, tail⟩ := List.map_eq_cons_iff.mp pair
  obtain ⟨second, none, rfl, -, ended⟩ := List.map_eq_cons_iff.mp tail
  rw [List.map_eq_nil_iff] at ended
  exact other operator first second same (by rw [ended])

@[elab_as_elim]
theorem expression_cases {motive : Value → Prop} (number : ∀ value, motive (.number value))
    (var : ∀ id, motive (.var id))
    (operation : ∀ operator left right, motive left → motive right →
      motive (.compound (.reserved (.arithmetic operator)) [left, right]))
    (other : ∀ symbol args, Opaque symbol args → motive (.compound symbol args)) (value : Value) :
    motive value := by
  induction value with
  | number value => exact number value
  | var id => exact var id
  | compound symbol args ih =>
    by_cases operates : Opaque symbol args
    · exact other symbol args operates
    · simp only [Opaque, not_forall] at operates
      obtain ⟨operator, left, right, rfl, rfl, -⟩ := operates
      exact operation operator left right (ih left (by simp)) (ih right (by simp))

section

variable {values : TermId → Option Rational} {change : TermId → Value} {operator : ArithmeticOperator}
  {left right value : Value}

@[simp] theorem evaluation_number (number : Rational) :
    (Value.number number).evaluation = some ⟨some number, 0⟩ := by rw [evaluation]

@[simp] theorem evaluation_var (id : TermId) : (Value.var id).evaluation = some ⟨none, 0⟩ := by
  rw [evaluation]

theorem evaluation_operation :
    (Value.compound (.reserved (.arithmetic operator)) [left, right]).evaluation =
      left.evaluation.bind fun first => right.evaluation.bind fun second =>
        some (Evaluation.combine operator first second) := by
  rw [evaluation]
  rfl

theorem evaluation_other {symbol : Symbol} {args : List Value} (other : Opaque symbol args) :
    (Value.compound symbol args).evaluation = none := evaluation.eq_4 symbol args other

@[simp] theorem calculate_number (number : Rational) :
    (Value.number number).calculate values = some number := by rw [calculate]

@[simp] theorem calculate_var (id : TermId) : (Value.var id).calculate values = values id := by
  rw [calculate]

theorem calculate_operation :
    (Value.compound (.reserved (.arithmetic operator)) [left, right]).calculate values =
      (left.calculate values).bind fun first => (right.calculate values).bind fun second =>
        some (operator.perform first second) := by
  rw [calculate]
  rfl

theorem calculate_other {symbol : Symbol} {args : List Value} (other : Opaque symbol args) :
    (Value.compound symbol args).calculate values = none := calculate.eq_4 values symbol args other

theorem simplify_operation :
    (Value.compound (.reserved (.arithmetic operator)) [left, right]).simplify =
      match left.simplify, right.simplify with
      | .number first, .number second => .number (operator.perform first second)
      | first, second => .compound (.reserved (.arithmetic operator)) [first, second] := by
  rw [simplify]

theorem simplify_apart
    (apart : ∀ first second, left.simplify = .number first → right.simplify = .number second → False) :
    (Value.compound (.reserved (.arithmetic operator)) [left, right]).simplify =
      .compound (.reserved (.arithmetic operator)) [left.simplify, right.simplify] := by
  rw [simplify_operation]
  split
  · next first second leftNumber rightNumber => exact absurd rightNumber (apart _ _ leftNumber)
  · rfl

theorem simplify_other {symbol : Symbol} {args : List Value} (other : Opaque symbol args) :
    (Value.compound symbol args).simplify = .compound symbol args := by
  apply simplify.eq_2
  intro operator left right same
  cases same
  exact other operator left right rfl rfl

theorem isolate_operation {var : TermId} {target : Rational} :
    (Value.compound (.reserved (.arithmetic operator)) [left, right]).isolate var target =
      if var ∈ left.vars then left.isolate var (operator.solveLeft right.total target)
      else right.isolate var (operator.solveRight left.total target) := by
  rw [isolate]

theorem isolate_other {symbol : Symbol} {args : List Value} (other : Opaque symbol args)
    {var : TermId} {target : Rational} : (Value.compound symbol args).isolate var target = target := by
  apply isolate.eq_2
  intro operator left right same
  cases same
  exact other operator left right rfl rfl

@[simp] theorem vars_operation :
    (Value.compound (.reserved (.arithmetic operator)) [left, right]).vars = left.vars ++ right.vars := by
  simp

structure Evaluated (value : Value) (evaluation : Evaluation) : Prop where
  ground : ∀ total, evaluation.value = some total →
    value.vars = [] ∧ ∀ values, value.calculate values = some total
  unknown : evaluation.value = none → value.vars ≠ []
  defined : ∀ values, (∀ var ∈ value.vars, (values var).isSome) → (value.calculate values).isSome

theorem evaluated {evaluation : Evaluation} (known : value.evaluation = some evaluation) :
    value.Evaluated evaluation := by
  induction value using expression_cases generalizing evaluation with
  | number value =>
    obtain rfl := Option.some.inj ((evaluation_number value).symm.trans known)
    exact ⟨by simp, by simp, by simp⟩
  | var id =>
    obtain rfl := Option.some.inj ((evaluation_var id).symm.trans known)
    exact ⟨by simp, by simp, by simp⟩
  | operation operator left right leftIh rightIh =>
    rw [evaluation_operation] at known
    obtain ⟨first, leftKnown, known⟩ := Option.bind_eq_some_iff.mp known
    obtain ⟨second, rightKnown, known⟩ := Option.bind_eq_some_iff.mp known
    obtain rfl := Option.some.inj known
    have leftSide := leftIh leftKnown
    have rightSide := rightIh rightKnown
    refine ⟨fun total found => ?_, fun absent => ?_, fun values each => ?_⟩
    · cases leftValue : first.value with
      | none => simp [Evaluation.combine, leftValue] at found
      | some leftTotal =>
        cases rightValue : second.value with
        | none => simp [Evaluation.combine, leftValue, rightValue] at found
        | some rightTotal =>
          simp only [Evaluation.combine, leftValue, rightValue, Option.some.injEq] at found
          obtain ⟨leftVars, leftResult⟩ := leftSide.ground _ leftValue
          obtain ⟨rightVars, rightResult⟩ := rightSide.ground _ rightValue
          refine ⟨by rw [vars_operation, leftVars, rightVars]; rfl, fun values => ?_⟩
          rw [calculate_operation, leftResult, rightResult, ← found]
          rfl
    · rw [vars_operation, ne_eq, List.append_eq_nil_iff, not_and_or]
      cases leftValue : first.value with
      | none => exact .inl (leftSide.unknown leftValue)
      | some leftTotal =>
        cases rightValue : second.value with
        | none => exact .inr (rightSide.unknown rightValue)
        | some rightTotal => simp [Evaluation.combine, leftValue, rightValue] at absent
    · rw [vars_operation] at each
      obtain ⟨leftTotal, leftResult⟩ := Option.isSome_iff_exists.mp
        (leftSide.defined values fun var member => each var (List.mem_append_left _ member))
      obtain ⟨rightTotal, rightResult⟩ := Option.isSome_iff_exists.mp
        (rightSide.defined values fun var member => each var (List.mem_append_right _ member))
      rw [calculate_operation, leftResult, rightResult]
      rfl
  | other symbol args other => cases (evaluation_other other).symm.trans known

theorem calculate_subst (value : Value) :
    (value.subst change).calculate values =
      value.calculate fun id => (change id).calculate values := by
  induction value using expression_cases with
  | number value => simp
  | var id => simp
  | operation operator left right leftIh rightIh =>
    rw [subst_compound, List.map_cons, List.map_cons, List.map_nil, calculate_operation, leftIh,
      rightIh, calculate_operation]
  | other symbol args other =>
    rw [subst_compound, calculate_other other, calculate_other (opaque_map _ other)]

theorem evaluation_value :
    (Value.compound (.reserved (.arithmetic operator)) [left, right]).evaluation.map
        Evaluation.value =
      (left.evaluation.map Evaluation.value).bind fun first =>
        (right.evaluation.map Evaluation.value).map fun second =>
          first.bind fun leftTotal => second.map (operator.perform leftTotal) := by
  rw [evaluation_operation]
  rcases left.evaluation with _ | ⟨_ | _, _⟩ <;> rcases right.evaluation with _ | ⟨_ | _, _⟩ <;> rfl

/-- Folding changes neither what an expression comes to nor its variables. -/
theorem simplify_same (value : Value) :
    (∀ values, value.simplify.calculate values = value.calculate values) ∧
      value.simplify.vars = value.vars ∧
        value.simplify.evaluation.map Evaluation.value = value.evaluation.map Evaluation.value := by
  induction value using expression_cases with
  | number value => exact ⟨fun values => by simp [simplify], by simp [simplify], by simp [simplify]⟩
  | var id => exact ⟨fun values => by simp [simplify], by simp [simplify], by simp [simplify]⟩
  | other symbol args other => simp [simplify_other other]
  | operation operator left right leftIh rightIh =>
    obtain ⟨leftSame, leftVars, leftKnown⟩ := leftIh
    obtain ⟨rightSame, rightVars, rightKnown⟩ := rightIh
    rw [simplify_operation]
    split
    · next first second leftNumber rightNumber =>
      rw [leftNumber] at leftSame leftVars leftKnown
      rw [rightNumber] at rightSame rightVars rightKnown
      refine ⟨fun values => ?_, ?_, ?_⟩
      · rw [calculate_operation, ← leftSame, ← rightSame]
        simp
      · rw [vars_operation, ← leftVars, ← rightVars]
        simp
      · rw [evaluation_value, ← leftKnown, ← rightKnown]
        simp
    · refine ⟨fun values => ?_, ?_, ?_⟩
      · rw [calculate_operation, calculate_operation, leftSame, rightSame]
      · rw [vars_operation, vars_operation, leftVars, rightVars]
      · rw [evaluation_value, evaluation_value, leftKnown, rightKnown]

end

end Value

theorem vars_found (vars : List TermId) (found : Occurrences) (var : TermId) :
    var ∈ (vars.foldl Occurrences.add found).map Prod.fst ↔ var ∈ found.map Prod.fst ∨ var ∈ vars := by
  induction vars generalizing found with
  | nil => simp
  | cons first rest ih =>
    have here := @Occurrences.mem_vars_addTimes 1 found first var
    rw [List.foldl_cons, ih, Occurrences.add, here, List.mem_cons, or_assoc]

/-- The converse fails where the count has wrapped round. -/
theorem found_single {vars : List TermId} {var : TermId} (single : vars = [var]) :
    vars.foldl Occurrences.add [] = [(var, 1)] := by
  rw [single]
  rfl

theorem vars_of_found {vars : List TermId} {var : TermId} {count : Nat}
    (found : vars.foldl Occurrences.add [] = [(var, count)]) : vars ≠ [] ∧ ∀ other ∈ vars, other = var := by
  have listed (other : TermId) : other ∈ vars ↔ other = var := by
    have counted := vars_found vars [] other
    simpa [found] using counted.symm
  exact ⟨List.ne_nil_of_mem ((listed var).mpr rfl), fun other => (listed other).mp⟩

namespace Ledger

variable {ledger later : Ledger} {id var : TermId}

theorem operation?_shape {operator : ArithmeticOperator} {left right : TermId}
    (shape : ledger.shape? id = some (.compound (.reserved (.arithmetic operator)) [left, right])) :
    ledger.arena.operation? id = some (operator, left, right) := by
  rw [Arena.operation?, node_compound shape]

theorem operation?_none {shape : Shape} (known : ledger.shape? id = some shape)
    (other : ∀ operator left right,
      shape ≠ .compound (.reserved (.arithmetic operator)) [left, right]) :
    ledger.arena.operation? id = none := by
  cases held : ledger.arena.operation? id with
  | none => rfl
  | some operation =>
    obtain ⟨operator, left, right⟩ := operation
    exact absurd (Option.some.inj (known.symm.trans (operation?_args held))) (other _ _ _)

theorem Within.expression {motive : Nat → TermId → Prop} {fuel : Nat}
    (within : ledger.Within fuel id) (acyclic : ledger.Acyclic) (wellFormed : ledger.WellFormed)
    (live : ledger.Live id)
    (number : ∀ fuel id value, ledger.value id = .number value →
      ledger.shape? (ledger.arena.deref id) = some (.number value) → motive (fuel + 1) id)
    (var : ∀ fuel id, ledger.value id = .var (ledger.arena.deref id) →
      ledger.shape? (ledger.arena.deref id) = some .var → motive (fuel + 1) id)
    (operation : ∀ fuel id operator left right,
      ledger.value id =
        .compound (.reserved (.arithmetic operator)) [ledger.value left, ledger.value right] →
      ledger.shape? (ledger.arena.deref id) =
        some (.compound (.reserved (.arithmetic operator)) [left, right]) →
      ledger.Live left → ledger.Live right → motive fuel left → motive fuel right →
      motive (fuel + 1) id)
    (other : ∀ fuel id symbol args, ledger.value id = .compound symbol (args.map ledger.value) →
      ledger.shape? (ledger.arena.deref id) = some (.compound symbol args) →
      ledger.arena.operation? (ledger.arena.deref id) = none →
      Value.Opaque symbol (args.map ledger.value) → motive (fuel + 1) id) : motive fuel id := by
  induction within with
  | number shape => exact number _ _ _ (acyclic.value_number wellFormed live shape) shape
  | var shape => exact var _ _ (acyclic.value_var wellFormed live shape) shape
  | @compound fuel id symbol args shape _ ih =>
    have whole := acyclic.value_compound wellFormed live shape
    have argsLive := wellFormed.live_args shape
    by_cases operates : ∃ operator left right,
        symbol = .reserved (.arithmetic operator) ∧ args = [left, right]
    · obtain ⟨operator, left, right, rfl, rfl⟩ := operates
      exact operation _ _ _ _ _ whole shape (argsLive left (by simp)) (argsLive right (by simp))
        (ih left (by simp) (argsLive left (by simp))) (ih right (by simp) (argsLive right (by simp)))
    · refine other _ _ _ _ whole shape (operation?_none shape ?_) (Value.opaque_map _ ?_)
      · rintro operator left right ⟨⟩
        exact operates ⟨operator, left, right, rfl, rfl⟩
      · exact fun operator left right same pair => operates ⟨operator, left, right, same, pair⟩

section

variable {fuel : Nat} (acyclic : ledger.Acyclic) (wellFormed : ledger.WellFormed)
  (live : ledger.Live id)

include acyclic wellFormed live

theorem Within.evaluate (within : ledger.Within fuel id) :
    ledger.arena.evaluateWithin fuel id = (ledger.value id).evaluation := by
  refine within.expression (motive := fun fuel id =>
    ledger.arena.evaluateWithin fuel id = (ledger.value id).evaluation) acyclic wellFormed live
    ?_ ?_ ?_ ?_
  · intro fuel id value whole shape
    simp [Arena.evaluateWithin, node_number shape, whole]
  · intro fuel id whole shape
    simp [Arena.evaluateWithin, node_var shape, whole]
  · intro fuel id operator left right whole shape _ _ leftIh rightIh
    rw [whole, Value.evaluation_operation, ← leftIh, ← rightIh]
    simp only [Arena.evaluateWithin, node_compound shape, operation?_shape shape]
    rfl
  · intro fuel id symbol args whole shape none other
    rw [whole, Value.evaluation_other other]
    simp only [Arena.evaluateWithin, node_compound shape, none]

theorem Acyclic.evaluate : ledger.arena.evaluate id = (ledger.value id).evaluation := by
  rw [Arena.evaluate, size_arena]
  exact (acyclic.within wellFormed live).evaluate acyclic wellFormed live

theorem Acyclic.groundValue : ledger.arena.groundValue id = (ledger.value id).total := by
  rcases known : (ledger.value id).evaluation with _ | ⟨_ | _, _⟩ <;>
    simp [Arena.groundValue, Value.total, acyclic.evaluate wellFormed live, known]

theorem Within.leaves (within : ledger.Within fuel id) :
    ledger.arena.leavesWithin fuel id = (ledger.value id).vars := by
  induction within with
  | number shape =>
    simp [Arena.leavesWithin, node_number shape, acyclic.value_number wellFormed live shape]
  | var shape =>
    simp [Arena.leavesWithin, node_var shape, acyclic.value_var wellFormed live shape]
  | @compound fuel id symbol args shape _ ih =>
    rw [acyclic.value_compound wellFormed live shape, Value.vars_compound, List.flatMap_map]
    simp only [Arena.leavesWithin, node_compound shape]
    exact List.flatMap_congr fun arg member => ih arg member (wellFormed.live_args shape arg member)

theorem Acyclic.occurrences (found : Occurrences) :
    ledger.arena.occurrences found id = (ledger.value id).vars.foldl Occurrences.add found := by
  rw [Arena.occurrences_eq, Arena.walkWithin_leaves, size_arena,
    (acyclic.within wellFormed live).leaves acyclic wellFormed live]

theorem Acyclic.single (single : (ledger.value id).vars = [var]) :
    ledger.arena.occurrences [] id = [(var, 1)] := by
  rw [acyclic.occurrences wellFormed live]
  exact found_single single

theorem Within.isolate (within : ledger.Within fuel id) (isVar : ledger.shape? var = some .var)
    (target : Rational) :
    ledger.arena.isolateWithin var fuel (ledger.arena.deref id) target =
      (ledger.value id).isolate var target := by
  refine within.expression (motive := fun fuel id => ∀ target,
    ledger.arena.isolateWithin var fuel (ledger.arena.deref id) target =
      (ledger.value id).isolate var target) acyclic wellFormed live ?_ ?_ ?_ ?_ target
  · intro fuel id value whole shape target
    rw [whole, Arena.isolateWithin, operation?_none shape (by simp), Value.isolate.eq_2]
    simp
  · intro fuel id whole shape target
    rw [whole, Arena.isolateWithin, operation?_none shape (by simp), Value.isolate.eq_2]
    simp
  · intro fuel id operator left right whole shape leftLive rightLive leftIh rightIh target
    have leftEnd := wellFormed.live_deref leftLive
    have rightEnd := wellFormed.live_deref rightLive
    rw [whole, Value.isolate_operation, Arena.isolateWithin, operation?_shape shape]
    simp only [acyclic.occurs_iff wellFormed leftLive isVar, acyclic.groundValue wellFormed leftEnd,
      acyclic.groundValue wellFormed rightEnd, acyclic.value_deref wellFormed leftLive,
      acyclic.value_deref wellFormed rightLive, leftIh, rightIh]
  · intro fuel id symbol args whole shape none other target
    rw [whole, Arena.isolateWithin, none, Value.isolate_other other]

theorem Acyclic.isolate (isVar : ledger.shape? var = some .var) (target : Rational) :
    ledger.arena.isolate var id target = (ledger.value id).isolate var target := by
  rw [Arena.isolate, size_arena]
  exact (acyclic.within wellFormed live).isolate acyclic wellFormed live isVar target

theorem Acyclic.number?_iff (ends : ledger.arena.deref id = id) (number : Rational) :
    ledger.arena.number? id = some number ↔ ledger.value id = .number number := by
  obtain ⟨shape, known⟩ := live.shape
  have reached : ledger.shape? (ledger.arena.deref id) = some shape := by rw [ends]; exact known
  cases shape with
  | number value =>
    rw [acyclic.value_number wellFormed live reached, Arena.number?, node_number known]
    simp
  | var =>
    rw [acyclic.value_var wellFormed live reached, Arena.number?, node_var known]
    simp
  | compound symbol args =>
    rw [acyclic.value_compound wellFormed live reached, Arena.number?, node_compound known]
    simp

end

structure Builds (base : Ledger) (value : Value) (result : TermId) (later : Ledger) : Prop where
  grown : later.Allocates base
  live : later.Live result
  ends : later.arena.deref result = result
  value : later.value result = value

namespace Builds

variable {base middle last : Ledger} {first second : TermId} {left right : Value}

theorem deref (acyclic : ledger.Acyclic) (wellFormed : ledger.WellFormed) (live : ledger.Live id)
    (onward : last.Allocates ledger) (grown : last.Allocates base) :
    Builds base (ledger.value id) (ledger.arena.deref id) last where
  grown := grown
  live := onward.live (wellFormed.live_deref live)
  ends := by rw [onward.deref wellFormed, deref_of_unbound (wellFormed.binding?_deref id)]
  value := by
    rw [acyclic.value_allocates wellFormed onward (wellFormed.live_deref live),
      acyclic.value_deref wellFormed live]

theorem since (built : Builds middle left first last) (grown : last.Allocates base) :
    Builds base left first last :=
  { built with grown }

theorem onward (built : Builds base left first middle) (acyclic : middle.Acyclic)
    (next : last.Allocates middle) : Builds base left first last where
  grown := next.trans built.grown
  live := next.live built.live
  ends := by rw [next.deref built.grown.wellFormed, built.ends]
  value := by rw [acyclic.value_allocates built.grown.wellFormed next built.live, built.value]

theorem number?_iff (built : Builds base left first last) (acyclic : last.Acyclic)
    (number : Rational) : last.arena.number? first = some number ↔ left = .number number := by
  rw [acyclic.number?_iff built.grown.wellFormed built.live built.ends, built.value]

theorem number (grown : last.Allocates base) (acyclic : last.Acyclic) (number : Rational) :
    Builds base (.number number) ⟨last.size⟩ (last.allocate (.number number)) := by
  have placed := allocate_allocates grown.wellFormed (admits_number number)
  exact ⟨placed.trans grown, live_allocate _ _, deref_allocate placed.wellFormed (by simp),
    acyclic.value_new_number grown.wellFormed number⟩

theorem operation (leftBuilt : Builds base left first last) (rightBuilt : Builds base right second last)
    (acyclic : last.Acyclic) (operator : ArithmeticOperator) :
    Builds base (.compound (.reserved (.arithmetic operator)) [left, right]) ⟨last.size⟩
      (last.allocate (.compound (.reserved (.arithmetic operator)) [first, second])) := by
  have wellFormed := leftBuilt.grown.wellFormed
  have operands : ∀ arg ∈ [first, second], last.Live arg := by simp [leftBuilt.live, rightBuilt.live]
  have placed := allocate_allocates wellFormed
    (@admits_compound _ (.reserved (.arithmetic operator)) _ operands)
  refine ⟨placed.trans leftBuilt.grown, live_allocate _ _,
    deref_allocate placed.wellFormed (by simp), ?_⟩
  rw [acyclic.value_new_compound wellFormed operands, List.map_cons, List.map_cons, List.map_nil,
    leftBuilt.value, rightBuilt.value]

end Builds

section

variable {fuel : Nat} (acyclic : ledger.Acyclic) (wellFormed : ledger.WellFormed)
  (live : ledger.Live id)

include acyclic wellFormed live

theorem simplifyWithin_unchanged {base : Ledger} (grown : base.Allocates ledger)
    (kept : base.arena.operation? (ledger.arena.deref id) = none)
    (same : (ledger.value id).simplify = ledger.value id) :
    ∃ result, ∃ later : Ledger,
      Arena.simplifyWithin (fuel + 1) base.arena id = (result, later.arena) ∧
        Builds base (ledger.value id).simplify result later := by
  refine ⟨ledger.arena.deref id, base, ?_, ?_⟩
  · rw [Arena.simplifyWithin, grown.deref wellFormed]
    simp only [kept]
  · rw [same]
    exact .deref acyclic wellFormed live grown (.refl grown.wellFormed)

theorem Within.simplify (within : ledger.Within fuel id) {base : Ledger}
    (grown : base.Allocates ledger) :
    ∃ result, ∃ later : Ledger, Arena.simplifyWithin fuel base.arena id = (result, later.arena) ∧
      Builds base (ledger.value id).simplify result later := by
  -- Folding the first operand adds terms before the second is folded, so the base is any later one.
  refine within.expression (motive := fun fuel id => ∀ base : Ledger, base.Allocates ledger →
    ledger.Live id →
    ∃ result, ∃ later : Ledger, Arena.simplifyWithin fuel base.arena id = (result, later.arena) ∧
      Builds base (ledger.value id).simplify result later) acyclic wellFormed live ?_ ?_ ?_ ?_ base
    grown live
  · intro fuel id value whole shape base grown live
    refine simplifyWithin_unchanged acyclic wellFormed live grown
      (operation?_none (grown.extends.shape shape) (by simp)) ?_
    rw [whole, Value.simplify.eq_2]
    simp
  · intro fuel id whole shape base grown live
    refine simplifyWithin_unchanged acyclic wellFormed live grown
      (operation?_none (grown.extends.shape shape) (by simp)) ?_
    rw [whole, Value.simplify.eq_2]
    simp
  · intro fuel id operator left right whole shape leftLive rightLive leftIh rightIh base grown live
    obtain ⟨first, middle, leftRun, leftBuilt⟩ := leftIh base grown leftLive
    have between := leftBuilt.grown.trans grown
    obtain ⟨second, last, rightRun, rightBuilt⟩ := rightIh middle between rightLive
    have onward := rightBuilt.grown.trans between
    have lastAcyclic := acyclic.allocates wellFormed onward
    have leftBuilt := leftBuilt.onward (acyclic.allocates wellFormed between) rightBuilt.grown
    have rightBuilt := rightBuilt.since leftBuilt.grown
    simp only [Arena.simplifyWithin, grown.deref wellFormed,
      operation?_shape (grown.extends.shape shape), leftRun, rightRun]
    split
    · next firstKnown secondKnown =>
      rw [leftBuilt.number?_iff lastAcyclic] at firstKnown
      rw [rightBuilt.number?_iff lastAcyclic] at secondKnown
      rw [whole, Value.simplify_operation, firstKnown, secondKnown]
      exact ⟨_, _, arena_number onward.wellFormed _, .number leftBuilt.grown lastAcyclic _⟩
    · next apart =>
      have unfolded : (ledger.value id).simplify =
          .compound (.reserved (.arithmetic operator))
            [(ledger.value left).simplify, (ledger.value right).simplify] := by
        rw [whole]
        apply Value.simplify_apart
        intro firstNumber secondNumber firstKnown secondKnown
        rw [← leftBuilt.number?_iff lastAcyclic] at firstKnown
        rw [← rightBuilt.number?_iff lastAcyclic] at secondKnown
        exact apart _ _ firstKnown secondKnown
      split
      · next unchanged =>
        obtain ⟨rfl, rfl⟩ := unchanged
        have same : (ledger.value id).simplify = ledger.value id := by
          rw [unfolded, whole, ← leftBuilt.value, ← rightBuilt.value,
            acyclic.value_allocates wellFormed onward leftLive,
            acyclic.value_allocates wellFormed onward rightLive]
        rw [same]
        exact ⟨_, last, rfl, .deref acyclic wellFormed live onward leftBuilt.grown⟩
      · rw [unfolded]
        exact ⟨_, _, arena_operator onward.wellFormed (by simp [leftBuilt.live, rightBuilt.live]) _,
          .operation leftBuilt rightBuilt lastAcyclic operator⟩
  · intro fuel id symbol args whole shape none other base grown live
    have kept : base.arena.operation? (ledger.arena.deref id) = Option.none := by
      cases held : base.arena.operation? (ledger.arena.deref id) with
      | none => rfl
      | some operation =>
        obtain ⟨operator, left, right⟩ := operation
        have known := (grown.extends.shape shape).symm.trans (operation?_args held)
        cases known
        cases none.symm.trans (operation?_shape shape)
    exact simplifyWithin_unchanged acyclic wellFormed live grown kept
      (by rw [whole, Value.simplify_other other])

theorem Acyclic.simplify {result : TermId} (run : ledger.arena.simplify id = (result, later.arena)) :
    later.value result = (ledger.value id).simplify := by
  obtain ⟨other, last, ran, built⟩ :=
    (acyclic.within wellFormed live).simplify acyclic wellFormed live (.refl wellFormed)
  rw [Arena.simplify, size_arena, ran, Prod.mk.injEq] at run
  rw [← run.1, Ledger.value, ← run.2]
  exact built.value

end

end Ledger

end Resolvent
