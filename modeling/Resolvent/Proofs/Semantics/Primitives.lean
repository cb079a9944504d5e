import Resolvent.Machine.Builtin

namespace Resolvent

structure Primitives where
  holds : Relation → Rational → Rational → Except Fault Bool
  perform : Operator → Rational → Rational → Except Fault Rational
  solveLeft : Operator → Rational → Rational → Except Fault Rational
  solveRight : Operator → Rational → Rational → Except Fault Rational

/-- Where it matters the operations are those of arithmetic. Nothing is said of how terms that must
    not unify compare, of how an invalid value compares, and of any other operator than the four of
    arithmetic. -/
structure Primitives.Honest (primitives : Primitives) : Prop where
  holds : ∀ (comparison : Comparison) (left right : Rat),
    primitives.holds (.arithmetic comparison) (.valid left) (.valid right) =
      comparison.holds (.valid left) (.valid right)
  perform : ∀ (operator : ArithmeticOperator) (left right : Rational),
    primitives.perform (.arithmetic operator) left right = .ok (operator.perform left right)
  solveLeft : ∀ (operator : ArithmeticOperator) (right target : Rational),
    primitives.solveLeft (.arithmetic operator) right target = .ok (operator.solveLeft right target)
  solveRight : ∀ (operator : ArithmeticOperator) (left target : Rational),
    primitives.solveRight (.arithmetic operator) left target = .ok (operator.solveRight left target)

def Primitives.strict : Primitives where
  holds
    | .arithmetic comparison, .valid left, .valid right => comparison.holds (.valid left) (.valid right)
    | _, _, _ => .error .unordered
  perform
    | .arithmetic operator, left, right => .ok (operator.perform left right)
    | _, _, _ => .error .notCompound
  solveLeft
    | .arithmetic operator, right, target => .ok (operator.solveLeft right target)
    | _, _, _ => .error .notCompound
  solveRight
    | .arithmetic operator, left, target => .ok (operator.solveRight left target)
    | _, _, _ => .error .notCompound

theorem Primitives.strict_honest : Primitives.strict.Honest :=
  ⟨fun _ _ _ => rfl, fun _ _ _ => rfl, fun _ _ _ => rfl, fun _ _ _ => rfl⟩

theorem Evaluation.values_valid {first second : Evaluation}
    (fine : (first.isInvalid || second.isInvalid) = false) {left right : Rational}
    (leftKnown : first.value = some left) (rightKnown : second.value = some right) :
    ∃ leftNumber rightNumber, left = .valid leftNumber ∧ right = .valid rightNumber := by
  rw [Bool.or_eq_false_iff, isInvalid, isInvalid, leftKnown, rightKnown] at fine
  cases left with
  | invalid => cases fine.1
  | valid leftNumber =>
    cases right with
    | invalid => cases fine.2
    | valid rightNumber => exact ⟨leftNumber, rightNumber, rfl, rfl⟩

namespace Arena

def operands? (arena : Arena) (id : TermId) : Option (Operator × TermId × TermId) :=
  match arena.operator? id with
  | some (operator, 2) =>
    if operator.isArithmetic then
      match arena.compound? id with
      | some { args := [left, right], .. } => some (operator, left, right)
      | _ => none
    else none
  | _ => none

theorem operands?_eq (arena : Arena) (id : TermId) :
    arena.operands? id =
      (arena.operation? id).map fun operation => (.arithmetic operation.1, operation.2) := by
  unfold operands? operation? operator? compound?
  cases arena.node id with
  | number | var => rfl
  | compound cell =>
    obtain ⟨symbol, args, active⟩ := cell
    rcases symbol with operator | index
    · rcases args with _ | ⟨left, _ | ⟨right, _ | ⟨third, rest⟩⟩⟩ <;>
        cases operator <;> rfl
    · rfl

end Arena

namespace Primitives

variable (primitives : Primitives)

def combine (operator : Operator) (left right : Evaluation) : Except Fault Evaluation :=
  match left.value, right.value with
  | some first, some second => do
    let value ← primitives.perform operator first second
    return ⟨some value, left.operations + right.operations + 1⟩
  | _, _ => return ⟨none, left.operations + right.operations + 1⟩

def evaluateWithin (arena : Arena) : Nat → TermId → Except Fault (Option Evaluation)
  | 0, _ => return none
  | fuel + 1, id =>
    let id := arena.deref id
    match arena.node id with
    | .number value => return some ⟨some value, 0⟩
    | .var _ => return some ⟨none, 0⟩
    | .compound _ =>
      match arena.operands? id with
      | none => return none
      | some (operator, left, right) => do
        let some left ← evaluateWithin arena fuel left | return none
        let some right ← evaluateWithin arena fuel right | return none
        return some (← primitives.combine operator left right)

def evaluate (arena : Arena) (id : TermId) : Except Fault (Option Evaluation) :=
  primitives.evaluateWithin arena arena.size id

def simplifyWithin : Nat → Arena → TermId → Except Fault (TermId × Arena)
  | 0, arena, id => return (id, arena)
  | fuel + 1, arena, id => do
    let id := arena.deref id
    match arena.operands? id with
    | none => return (id, arena)
    | some (operator, left, right) =>
      let (first, arena) ← simplifyWithin fuel arena left
      let (second, arena) ← simplifyWithin fuel arena right
      match arena.number? first, arena.number? second with
      | some firstValue, some secondValue =>
        return arena.number (← primitives.perform operator firstValue secondValue)
      | _, _ =>
        if first = left ∧ second = right then return (id, arena)
        return arena.operator operator [first, second]

def simplify (arena : Arena) (id : TermId) : Except Fault (TermId × Arena) :=
  primitives.simplifyWithin arena.size arena id

def groundValue (arena : Arena) (id : TermId) : Except Fault Rational := do
  match ← primitives.evaluate arena id with
  | some { value := some value, .. } => return value
  | _ => return .invalid

def isolateWithin (arena : Arena) (var : TermId) : Nat → TermId → Rational → Except Fault Rational
  | 0, _, target => return target
  | fuel + 1, id, target =>
    match arena.operands? id with
    | none => return target
    | some (operator, left, right) => do
      let left := arena.deref left
      let right := arena.deref right
      if left = var ∨ arena.occurs var left then
        let other ← primitives.groundValue arena right
        isolateWithin arena var fuel left (← primitives.solveLeft operator other target)
      else
        let other ← primitives.groundValue arena left
        isolateWithin arena var fuel right (← primitives.solveRight operator other target)

def isolate (arena : Arena) (var id : TermId) (target : Rational) : Except Fault Rational :=
  primitives.isolateWithin arena var arena.size (arena.deref id) target

namespace Honest

variable {primitives} (honest : primitives.Honest)

include honest

theorem combine (operator : ArithmeticOperator) (left right : Evaluation) :
    primitives.combine (.arithmetic operator) left right =
      .ok (Evaluation.combine operator left right) := by
  rw [Primitives.combine, Evaluation.combine]
  cases left.value with
  | none => rfl
  | some first =>
    cases right.value with
    | none => rfl
    | some second =>
      simp only [honest.perform]
      rfl

theorem evaluateWithin (arena : Arena) (fuel : Nat) (id : TermId) :
    primitives.evaluateWithin arena fuel id = .ok (arena.evaluateWithin fuel id) := by
  induction fuel generalizing id with
  | zero => rfl
  | succ fuel ih =>
    simp only [Primitives.evaluateWithin, Arena.evaluateWithin, Arena.operands?_eq]
    cases arena.node (arena.deref id) with
    | number | var => rfl
    | compound cell =>
      cases arena.operation? (arena.deref id) with
      | none => rfl
      | some operation =>
        obtain ⟨operator, left, right⟩ := operation
        simp only [Option.map_some, ih, Bind.bind, Except.bind]
        cases arena.evaluateWithin fuel left with
        | none => rfl
        | some first =>
          cases arena.evaluateWithin fuel right with
          | none => rfl
          | some second =>
            simp only [honest.combine]
            rfl

theorem evaluate (arena : Arena) (id : TermId) :
    primitives.evaluate arena id = .ok (arena.evaluate id) :=
  honest.evaluateWithin arena arena.size id

theorem groundValue (arena : Arena) (id : TermId) :
    primitives.groundValue arena id = .ok (arena.groundValue id) := by
  rw [Primitives.groundValue, honest.evaluate, Arena.groundValue]
  simp only [Bind.bind, Except.bind]
  rcases arena.evaluate id with _ | ⟨_ | _, _⟩ <;> rfl

theorem simplifyWithin (fuel : Nat) (arena : Arena) (id : TermId) :
    primitives.simplifyWithin fuel arena id = .ok (Arena.simplifyWithin fuel arena id) := by
  induction fuel generalizing arena id with
  | zero => rfl
  | succ fuel ih =>
    simp only [Primitives.simplifyWithin, Arena.simplifyWithin, Arena.operands?_eq]
    cases arena.operation? (arena.deref id) with
    | none => rfl
    | some operation =>
      obtain ⟨operator, left, right⟩ := operation
      simp only [Option.map_some, ih, Bind.bind, Except.bind]
      generalize Arena.simplifyWithin fuel arena left = first
      generalize Arena.simplifyWithin fuel first.2 right = second
      -- Unless both operands are numbers, the operation stays or is built anew in either way.
      have built : (if first.1 = left ∧ second.1 = right then
            (return (arena.deref id, second.2) : Except Fault (TermId × Arena))
          else return second.2.operator (.arithmetic operator) [first.1, second.1]) =
          .ok (if first.1 = left ∧ second.1 = right then (arena.deref id, second.2)
            else second.2.operator (.arithmetic operator) [first.1, second.1]) := by
        split <;> rfl
      cases second.2.number? first.1 with
      | none => exact built
      | some firstNumber =>
        cases second.2.number? second.1 with
        | none => exact built
        | some secondNumber =>
          simp only [honest.perform]
          rfl

theorem isolateWithin (arena : Arena) (var : TermId) (fuel : Nat) (id : TermId) (target : Rational) :
    primitives.isolateWithin arena var fuel id target =
      .ok (arena.isolateWithin var fuel id target) := by
  induction fuel generalizing id target with
  | zero => rfl
  | succ fuel ih =>
    simp only [Primitives.isolateWithin, Arena.isolateWithin, Arena.operands?_eq]
    cases arena.operation? id with
    | none => rfl
    | some operation =>
      obtain ⟨operator, left, right⟩ := operation
      simp only [Option.map_some, honest.groundValue, honest.solveLeft, honest.solveRight, ih, Bind.bind,
        Except.bind]
      split <;> rfl

theorem isolate (arena : Arena) (var id : TermId) (target : Rational) :
    primitives.isolate arena var id target = .ok (arena.isolate var id target) :=
  honest.isolateWithin arena var arena.size _ target

end Honest

def solveSingle (state : State) (side : TermId) (target : Rational) : Except Fault (Verdict × State) :=
  match state.arena.occurrences [] side with
  | [(var, 1)] => do
    let value ← primitives.isolate state.arena var side target
    if value.isValid then
      let (number, arena) := state.arena.number value
      let (goal, arena) := arena.operator .equal [var, number]
      return (.solved goal, { state with arena })
    else return (.violated, state)
  | _ => return (.undecided, state)

def judgeComparison (state : State) (relation : Relation) (left right : TermId) :
    Except Fault (Verdict × State) := do
  match ← primitives.evaluate state.arena left, ← primitives.evaluate state.arena right with
  | some first, some second =>
    if first.isInvalid || second.isInvalid then return (.violated, state)
    else
      match first.value, second.value with
      | some first, some second =>
        let holds ← primitives.holds relation first second
        return (if holds then .satisfied else .violated, state)
      | none, some target =>
        if relation = .arithmetic .equal then primitives.solveSingle state left target
        else return (.undecided, state)
      | some target, none =>
        if relation = .arithmetic .equal then primitives.solveSingle state right target
        else return (.undecided, state)
      | none, none => return (.undecided, state)
  | _, _ => return (.violated, state)

def judge (state : State) (constraint : Constraint) : Except Fault (Verdict × State) :=
  let left := state.arena.deref constraint.left
  let right := state.arena.deref constraint.right
  if constraint.relation = .disunification then return state.judgeDisunification left right
  else primitives.judgeComparison state constraint.relation left right

def recheck : List ConstraintId → Recheck → Except Fault Recheck
  | [], review => return review
  | id :: ids, review => do
    let constraint ← review.state.constraints.get id
    let (verdict, state) ← primitives.judge review.state constraint
    let review := Recheck.take { review with state } id verdict
    if review.violated then return review
    recheck ids review

def unification (state : State) (left right : TermId) : Except Fault (Reply × State) := do
  let (unified, after) := state.unify left right
  if !unified then return (.fails, after)
  let assigned := after.assignedSince state.assigned.size
  let wakeup := after.wakeup assigned
  let goals := assigned.foldl after.arena.surface []
  let review ← primitives.recheck wakeup.found { state := after, goals }
  if review.violated then return (.fails, review.state)
  let settled ← review.discards.foldlM State.discardAndCount review.state
  match settled.arena.conjunction? review.goals with
  | none => return (.answers, settled)
  | some (followUp, arena) => return (.delegates followUp, { settled with arena })

def solveOrPost (state : State) (left right side : TermId) (target : Rational) :
    Except Fault (Reply × State) := do
  match ← primitives.solveSingle state side target with
  | (.solved goal, state) => return (.delegates goal, state)
  | (.violated, state) => return (.fails, state)
  | (_, state) => return state.postConstraint (.arithmetic .equal) left right

def arithmeticEquality (state : State) (left right : TermId)
    (leftEvaluation rightEvaluation : Evaluation) : Except Fault (Reply × State) :=
  if leftEvaluation.isInvalid || rightEvaluation.isInvalid then return (.fails, state)
  else do
    let (left, arena) ← primitives.simplify state.arena left
    let (right, arena) ← primitives.simplify arena right
    let state := { state with arena }
    match leftEvaluation.value, rightEvaluation.value with
    | some first, some second => return (if first = second then .answers else .fails, state)
    | none, some target => primitives.solveOrPost state left right left target
    | some target, none => primitives.solveOrPost state left right right target
    | none, none => return state.postConstraint (.arithmetic .equal) left right

def arithmeticComparison (state : State) (relation : Relation) (left right : TermId)
    (leftEvaluation rightEvaluation : Evaluation) : Except Fault (Reply × State) :=
  if leftEvaluation.isInvalid || rightEvaluation.isInvalid then return (.fails, state)
  else
    match leftEvaluation.value, rightEvaluation.value with
    | some first, some second => do
      let holds ← primitives.holds relation first second
      return (if holds then .answers else .fails, state)
    | _, _ => do
      let (left, arena) ← primitives.simplify state.arena left
      let (right, arena) ← primitives.simplify arena right
      return { state with arena }.postConstraint relation left right

def equality (state : State) (left right : TermId) : Except Fault (Reply × State) := do
  match ← primitives.evaluate state.arena left, ← primitives.evaluate state.arena right with
  | some first, some second =>
    if first.operations > 0 || second.operations > 0 then
      primitives.arithmeticEquality state left right first second
    else primitives.unification state left right
  | _, _ => primitives.unification state left right

def inequality (state : State) (left right : TermId) : Except Fault (Reply × State) := do
  match ← primitives.evaluate state.arena left, ← primitives.evaluate state.arena right with
  | some first, some second =>
    if first.operations + second.operations > 0 then
      primitives.arithmeticComparison state (.arithmetic .unequal) left right first second
    else return state.disunification left right
  | _, _ => return state.disunification left right

def strictComparison (state : State) (relation : Relation) (left right : TermId) :
    Except Fault (Reply × State) := do
  match ← primitives.evaluate state.arena left, ← primitives.evaluate state.arena right with
  | some first, some second =>
    primitives.arithmeticComparison state relation left right first second
  | _, _ => return state.disunification left right

def decide (state : State) (left right : TermId) : Builtin → Except Fault (Reply × State)
  | .relaxed strict => return state.relaxedComparison strict left right
  | .equality => primitives.equality state left right
  | .inequality => primitives.inequality state left right
  | .strict comparison => primitives.strictComparison state (.arithmetic comparison) left right

namespace Honest

variable {primitives} (honest : primitives.Honest)

include honest

/-- What is compared is valid, where neither side was found to be invalid. -/
theorem compares {first second : Evaluation} (fine : (first.isInvalid || second.isInvalid) = false)
    {left right : Rational} (leftKnown : first.value = some left) (rightKnown : second.value = some right)
    (comparison : Comparison) :
    primitives.holds (.arithmetic comparison) left right = comparison.holds left right := by
  obtain ⟨_, _, rfl, rfl⟩ := Evaluation.values_valid fine leftKnown rightKnown
  exact honest.holds comparison _ _

theorem solveSingle (state : State) (side : TermId) (target : Rational) :
    primitives.solveSingle state side target = .ok (state.solveSingle side target) := by
  rw [Primitives.solveSingle, State.solveSingle]
  rcases state.arena.occurrences [] side with _ | ⟨⟨var, _ | _ | count⟩, _ | ⟨other, rest⟩⟩ <;>
    try rfl
  simp only [honest.isolate, Bind.bind, Except.bind]
  split <;> rfl

theorem judgeComparison (state : State) (comparison : Comparison) (left right : TermId) :
    primitives.judgeComparison state (.arithmetic comparison) left right =
      state.judgeComparison comparison left right := by
  rw [Primitives.judgeComparison, State.judgeComparison, honest.evaluate, honest.evaluate]
  simp only [Bind.bind, Except.bind]
  rcases state.arena.evaluate left with _ | first
  · rfl
  rcases state.arena.evaluate right with _ | second
  · rfl
  simp only
  split
  · rfl
  · next fine =>
    rw [Bool.not_eq_true] at fine
    rcases leftKnown : first.value with _ | leftValue <;>
      rcases rightKnown : second.value with _ | rightValue
    · rfl
    · simp only [honest.solveSingle, Relation.arithmetic.injEq]
      split <;> rfl
    · simp only [honest.solveSingle, Relation.arithmetic.injEq]
      split <;> rfl
    · simp only [honest.compares fine leftKnown rightKnown]

theorem judge (state : State) (constraint : Constraint) :
    primitives.judge state constraint = state.judge constraint := by
  rw [Primitives.judge, State.judge]
  cases relation : constraint.relation with
  | disunification => rfl
  | arithmetic comparison => exact honest.judgeComparison state comparison _ _

theorem recheck (ids : List ConstraintId) (review : Recheck) :
    primitives.recheck ids review = Recheck.run ids review := by
  induction ids generalizing review with
  | nil => rfl
  | cons id ids ih =>
    simp only [Primitives.recheck, Recheck.run, honest.judge, ih]

theorem unification (state : State) (left right : TermId) :
    primitives.unification state left right = state.unification left right := by
  simp only [Primitives.unification, honest.recheck]
  rfl

theorem solveOrPost (state : State) (left right side : TermId) (target : Rational) :
    primitives.solveOrPost state left right side target =
      .ok (state.solveOrPost left right side target) := by
  rw [Primitives.solveOrPost, State.solveOrPost, honest.solveSingle]
  simp only [Bind.bind, Except.bind]
  rcases state.solveSingle side target with ⟨_ | _, _⟩ <;> rfl

theorem arithmeticEquality (state : State) (left right : TermId) (first second : Evaluation) :
    primitives.arithmeticEquality state left right first second =
      .ok (state.arithmeticEquality left right first second) := by
  rw [Primitives.arithmeticEquality, State.arithmeticEquality]
  split
  · rfl
  · simp only [Primitives.simplify, honest.simplifyWithin, Bind.bind, Except.bind]
    rcases first.value with _ | _ <;> rcases second.value with _ | _ <;> try rfl
    all_goals exact honest.solveOrPost _ _ _ _ _

theorem arithmeticComparison (state : State) (comparison : Comparison) (left right : TermId)
    (first second : Evaluation) :
    primitives.arithmeticComparison state (.arithmetic comparison) left right first second =
      state.arithmeticComparison comparison left right first second := by
  rw [Primitives.arithmeticComparison, State.arithmeticComparison]
  split
  · rfl
  · next fine =>
    rw [Bool.not_eq_true] at fine
    simp only [Primitives.simplify, honest.simplifyWithin, Bind.bind, Except.bind]
    rcases leftKnown : first.value with _ | leftValue <;>
      rcases rightKnown : second.value with _ | rightValue <;> try rfl
    simp only [honest.compares fine leftKnown rightKnown]

theorem equality (state : State) (left right : TermId) :
    primitives.equality state left right = state.equality left right := by
  simp only [Primitives.equality, honest.evaluate, honest.unification, honest.arithmeticEquality]
  rfl

theorem inequality (state : State) (left right : TermId) :
    primitives.inequality state left right = state.inequality left right := by
  simp only [Primitives.inequality, State.inequality, honest.evaluate, honest.arithmeticComparison,
    Bind.bind, Except.bind]
  rfl

theorem strictComparison (state : State) (comparison : Comparison) (left right : TermId) :
    primitives.strictComparison state (.arithmetic comparison) left right =
      state.strictComparison comparison left right := by
  simp only [Primitives.strictComparison, State.strictComparison, honest.evaluate,
    honest.arithmeticComparison, Bind.bind, Except.bind]
  rfl

theorem decide : primitives.decide = State.perform := by
  funext state left right builtin
  cases builtin with
  | relaxed => rfl
  | equality => exact honest.equality state left right
  | inequality => exact honest.inequality state left right
  | strict comparison => exact honest.strictComparison state comparison left right

end Honest

end Primitives

end Resolvent
