import Resolvent.Trail.State

namespace Resolvent

namespace State

/-- Binds an unassigned variable to the end of another chain, unless it occurs there. Of two
    variables the younger is bound to the older. -/
def assign (state : State) (var term : TermId) : Except State State :=
  match state.arena.node term with
  | .number _ => .ok (state.bind var term)
  | .var _ =>
    if var.index < term.index then .ok (state.bind term var) else .ok (state.bind var term)
  | .compound _ =>
    if state.arena.occurs var term then .error state else .ok (state.bind var term)

/-- Makes two terms equal, arguments from left to right. An error holds the state at the clash. -/
def solveWithin : Nat → State → TermId × TermId → Except State State
  | 0, state, _ => .error state
  | fuel + 1, state, (left, right) =>
    let left := state.arena.deref left
    let right := state.arena.deref right
    if left = right then .ok state
    else
      match state.arena.node left, state.arena.node right with
      | .compound first, .compound second =>
        if first.symbol = second.symbol ∧ first.args.length = second.args.length then
          (first.args.zip second.args).foldlM (solveWithin fuel) state
        else .error state
      | .var _, _ => state.assign left right
      | _, .var _ => state.assign right left
      | .number first, .number second => if first = second then .ok state else .error state
      | _, _ => .error state

def unify (state : State) (left right : TermId) : Bool × State :=
  match state.solveWithin state.arena.size (left, right) with
  | .ok unified => (true, unified.record .unification)
  | .error clashed => (false, (clashed.restore state.snapshot).record .unificationFailure)

end State

end Resolvent
