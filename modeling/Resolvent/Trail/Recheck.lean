import Resolvent.Term.Arithmetic
import Resolvent.Trail.Unification

namespace Resolvent

inductive Verdict where
  | violated
  | satisfied
  | solved (goal : TermId)
  | undecided
  deriving DecidableEq, Repr

namespace State

/-- Solves an equation whose one side has a value for the one unassigned variable of the other
    side, if it has one and that occurs once. -/
def solveSingle (state : State) (side : TermId) (target : Rational) : Verdict × State :=
  match state.arena.occurrences [] side with
  | [(var, 1)] =>
    let value := state.arena.isolate var side target
    if value.isValid then
      let (number, arena) := state.arena.number value
      let (goal, arena) := arena.operator .equal [var, number]
      (.solved goal, { state with arena })
    else (.violated, state)
  | _ => (.undecided, state)

/-- Two terms can no longer differ if unifying them binds nothing, and will always differ if they
    do not unify. Bindings made on the way are undone, except where the search fails anyway. -/
def judgeDisunification (state : State) (left right : TermId) : Verdict × State :=
  let trial := state.snapshot
  let (unified, state) := state.unify left right
  if !unified then (.satisfied, state)
  else if state.assigned.size = trial.assigned then (.violated, state)
  else (.undecided, state.restore trial)

def judgeComparison (state : State) (comparison : Comparison) (left right : TermId) :
    Except Fault (Verdict × State) :=
  match state.arena.evaluate left, state.arena.evaluate right with
  | some first, some second =>
    if first.isInvalid || second.isInvalid then .ok (.violated, state)
    else
      match first.value, second.value with
      | some first, some second => do
        let holds ← comparison.holds first second
        return (if holds then .satisfied else .violated, state)
      | none, some target =>
        .ok (if comparison = .equal then state.solveSingle left target else (.undecided, state))
      | some target, none =>
        .ok (if comparison = .equal then state.solveSingle right target else (.undecided, state))
      | none, none => .ok (.undecided, state)
  | _, _ => .ok (.violated, state)

def judge (state : State) (constraint : Constraint) : Except Fault (Verdict × State) :=
  let left := state.arena.deref constraint.left
  let right := state.arena.deref constraint.right
  match constraint.relation with
  | .disunification => .ok (state.judgeDisunification left right)
  | .arithmetic comparison => state.judgeComparison comparison left right

end State

structure Recheck where
  state : State
  violated : Bool := false
  discards : List ConstraintId := []
  goals : List TermId := []

namespace Recheck

def take (recheck : Recheck) (id : ConstraintId) : Verdict → Recheck
  | .violated => { recheck with violated := true }
  | .satisfied => { recheck with discards := recheck.discards ++ [id] }
  | .solved goal =>
    { recheck with discards := recheck.discards ++ [id], goals := recheck.goals ++ [goal] }
  | .undecided => recheck

def run : List ConstraintId → Recheck → Except Fault Recheck
  | [], recheck => .ok recheck
  | id :: ids, recheck => do
    let constraint ← recheck.state.constraints.get id
    let (verdict, state) ← recheck.state.judge constraint
    let recheck := take { recheck with state } id verdict
    if recheck.violated then return recheck
    run ids recheck

end Recheck

end Resolvent
