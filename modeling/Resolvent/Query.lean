import Resolvent.Deepening
import Resolvent.Search

namespace Resolvent

structure Solution where
  bindings : List (TermId × Value)
  delayed : List Value
  constraints : List ActiveConstraint
  deriving Repr

namespace Solution

def value? (solution : Solution) (var : TermId) : Option Value :=
  solution.bindings.lookup var

def isUnconditional (solution : Solution) : Bool :=
  solution.delayed.isEmpty && solution.constraints.isEmpty

end Solution

def State.solution (state : State) (vars : List TermId) : Solution where
  bindings := vars.map fun var => (var, state.arena.value var)
  delayed := state.pendingDelayed.map state.arena.value
  constraints := state.activeConstraints

/-- The answers of a query that are still to come. Passes with growing depth limits run until one
    is not cut off, and an answer derived as an earlier one is left out. -/
structure Enumeration where
  program : Program
  policy : DepthPolicy
  query : TermId
  vars : List TermId
  root : Snapshot
  depthLimit : UInt64
  pass : Option Search := none
  seen : List (Array Choice) := []
  finished : Bool := false
  state : State

namespace Enumeration

def start (program : Program) (policy : DepthPolicy) (state : State) (query : TermId) :
    Enumeration where
  program := program
  policy := policy
  query := query
  vars := state.arena.vars query
  root := state.snapshot
  depthLimit := policy.first
  state := { state with counters := {} }

def currentPass (enumeration : Enumeration) : Search × State :=
  match enumeration.pass with
  | some search => (search, enumeration.state)
  | none =>
    (.start enumeration.query enumeration.depthLimit.toNat, enumeration.state.record .pass)

/-- The next answer, within a bounded number of steps. -/
def next : Nat → Enumeration → Outcome (Option Solution × Enumeration)
  | 0, _ => .unfinished
  | fuel + 1, enumeration =>
    if enumeration.finished then .done (none, enumeration)
    else
      let (search, state) := enumeration.currentPass
      match search.next enumeration.program fuel state with
      | .fault fault => .fault fault
      | .unfinished => .unfinished
      | .done (true, search, state) =>
        if state.path ∈ enumeration.seen then
          next fuel { enumeration with pass := some search, state := state.record .duplicate }
        else
          .done (some (state.solution enumeration.vars),
            { enumeration with
              pass := some search
              seen := state.path :: enumeration.seen
              state := state.record .solution })
      | .done (false, search, state) =>
        let state := state.restore enumeration.root
        if !search.truncated || enumeration.policy.maximum ≤ enumeration.depthLimit then
          .done (none, { enumeration with pass := none, finished := true, state })
        else
          next fuel
            { enumeration with
              pass := none
              depthLimit := enumeration.policy.widen enumeration.depthLimit
              state }

def close (enumeration : Enumeration) : State := enumeration.state.restore enumeration.root

def count : Nat → Enumeration → Outcome (Nat × State)
  | 0, _ => .unfinished
  | fuel + 1, enumeration =>
    match enumeration.next fuel with
    | .fault fault => .fault fault
    | .unfinished => .unfinished
    | .done (none, enumeration) => .done (0, enumeration.close)
    | .done (some _, enumeration) =>
      (count fuel enumeration).map fun (total, state) => (total + 1, state)

end Enumeration

structure Engine where
  symbols : SymbolTable := {}
  program : Program := {}
  policy : DepthPolicy := {}
  state : State := {}

namespace Engine

def query (engine : Engine) (goal : TermId) : Enumeration :=
  .start engine.program engine.policy engine.state goal

def close (engine : Engine) (enumeration : Enumeration) : Engine :=
  { engine with state := enumeration.close }

def count (engine : Engine) (fuel : Nat) (goal : TermId) : Outcome (Nat × Engine) :=
  ((engine.query goal).count fuel).map fun (total, state) => (total, { engine with state })

end Engine

end Resolvent
