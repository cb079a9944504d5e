import Resolvent.Term.Difference
import Resolvent.Machine.Frame
import Resolvent.Trail.Recheck
import Resolvent.Trail.Wakeup

namespace Resolvent

namespace Arena

def surface (arena : Arena) (goals : List TermId) (var : TermId) : List TermId :=
  match arena.binding? var with
  | none => goals
  | some goal =>
    match arena.compound? goal with
    | none => goals
    | some cell =>
      if !arena.isDelayed var || cell.active || goal ∈ goals then goals else goals ++ [goal]

end Arena

inductive Builtin where
  | relaxed (strict : Operator)
  | equality
  | inequality
  | strict (comparison : Comparison)
  deriving DecidableEq, Repr

inductive Reply where
  | fails
  | answers
  | delegates (goal : TermId)
  deriving DecidableEq, Repr

namespace State

def discardAndCount (state : State) (id : ConstraintId) : Except Fault State := do
  return (← state.discard id).record .discarded

def relaxedComparison (state : State) (strict : Operator) (left right : TermId) : Reply × State :=
  let (equal, arena) := state.arena.operator .equal [left, right]
  let (strictly, arena) := arena.operator strict [left, right]
  let (either, arena) := arena.operator .disjunction [equal, strictly]
  (.delegates either, { state with arena })

/-- Unifies two terms, decides again the constraints that the bindings concern, and proves the
    delayed goals that now have a value. -/
def unification (state : State) (left right : TermId) : Except Fault (Reply × State) := do
  let (unified, after) := state.unify left right
  if !unified then return (.fails, after)
  let assigned := after.assignedSince state.assigned.size
  let wakeup := after.wakeup assigned
  let goals := assigned.foldl after.arena.surface []
  let recheck ← Recheck.run wakeup.found { state := after, goals }
  if recheck.violated then return (.fails, recheck.state)
  let settled ← recheck.discards.foldlM discardAndCount recheck.state
  match settled.arena.conjunction? recheck.goals with
  | none => return (.answers, settled)
  | some (followUp, arena) => return (.delegates followUp, { settled with arena })

def postConstraint (state : State) (relation : Relation) (left right : TermId) : Reply × State :=
  let occurrences := state.arena.occurrencesOfPair left right
  (.answers, (state.post { relation, left, right, occurrences }).2.record .posted)

/-- Terms that do not unify differ for good, equal terms never differ, and of other terms what
    they do not have in common is posted. -/
def disunification (state : State) (left right : TermId) : Reply × State :=
  let left := state.arena.deref left
  let right := state.arena.deref right
  let (unified, tried) := state.unify left right
  let restored := tried.restore state.snapshot
  if !unified then (.answers, restored)
  else if tried.assigned.size = state.assigned.size then (.fails, restored)
  else
    let (kept, arena) := restored.arena.strip left right
    let (left, right) := kept.getD (left, right)
    { restored with arena }.postConstraint .disunification left right

/-- Proves an equation between expressions of which one has a value, or posts it. -/
def solveOrPost (state : State) (left right side : TermId) (target : Rational) : Reply × State :=
  match state.solveSingle side target with
  | (.solved goal, state) => (.delegates goal, state)
  | (.violated, state) => (.fails, state)
  | (_, state) => state.postConstraint (.arithmetic .equal) left right

def arithmeticEquality (state : State) (left right : TermId)
    (leftEvaluation rightEvaluation : Evaluation) : Reply × State :=
  if leftEvaluation.isInvalid || rightEvaluation.isInvalid then (.fails, state)
  else
    let (left, arena) := state.arena.simplify left
    let (right, arena) := arena.simplify right
    let state := { state with arena }
    match leftEvaluation.value, rightEvaluation.value with
    | some first, some second => (if first = second then .answers else .fails, state)
    | none, some target => state.solveOrPost left right left target
    | some target, none => state.solveOrPost left right right target
    | none, none => state.postConstraint (.arithmetic .equal) left right

def arithmeticComparison (state : State) (comparison : Comparison) (left right : TermId)
    (leftEvaluation rightEvaluation : Evaluation) : Except Fault (Reply × State) :=
  if leftEvaluation.isInvalid || rightEvaluation.isInvalid then .ok (.fails, state)
  else
    match leftEvaluation.value, rightEvaluation.value with
    | some first, some second => do
      let holds ← comparison.holds first second
      return (if holds then .answers else .fails, state)
    | _, _ =>
      let (left, arena) := state.arena.simplify left
      let (right, arena) := arena.simplify right
      .ok ({ state with arena }.postConstraint (.arithmetic comparison) left right)

def equality (state : State) (left right : TermId) : Except Fault (Reply × State) :=
  match state.arena.evaluate left, state.arena.evaluate right with
  | some first, some second =>
    if first.operations > 0 || second.operations > 0 then
      .ok (state.arithmeticEquality left right first second)
    else state.unification left right
  | _, _ => state.unification left right

def inequality (state : State) (left right : TermId) : Except Fault (Reply × State) :=
  match state.arena.evaluate left, state.arena.evaluate right with
  | some first, some second =>
    if first.operations + second.operations > 0 then
      state.arithmeticComparison .unequal left right first second
    else .ok (state.disunification left right)
  | _, _ => .ok (state.disunification left right)

def strictComparison (state : State) (comparison : Comparison) (left right : TermId) :
    Except Fault (Reply × State) :=
  match state.arena.evaluate left, state.arena.evaluate right with
  | some first, some second => state.arithmeticComparison comparison left right first second
  | _, _ => .ok (state.disunification left right)

def perform (state : State) (left right : TermId) : Builtin → Except Fault (Reply × State)
  | .relaxed strict => .ok (state.relaxedComparison strict left right)
  | .equality => state.equality left right
  | .inequality => state.inequality left right
  | .strict comparison => state.strictComparison comparison left right

end State

end Resolvent
