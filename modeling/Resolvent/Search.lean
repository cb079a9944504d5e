import Resolvent.Machine.Resolution

namespace Resolvent

inductive Phase where
  | unstarted (goal : TermId)
  | suspended
  | finished
  deriving DecidableEq, Repr

/-- One pass over a goal within a depth limit, between two answers. -/
structure Search where
  phase : Phase
  frames : Array Entry := #[]
  depthLimit : Nat
  truncated : Bool := false
  deriving DecidableEq, Repr

namespace Search

def start (goal : TermId) (depthLimit : Nat) : Search where
  phase := .unstarted goal
  depthLimit := depthLimit

def resume (search : Search) (program : Program) (fuel : Nat) (step : Step) (state : State) :
    Outcome (Bool × Search × State) :=
  match Machine.run program fuel step
    { frames := search.frames, depthLimit := search.depthLimit, truncated := search.truncated,
      state } with
  | .fault fault => .fault fault
  | .unfinished => .unfinished
  | .done (signal, machine) =>
    let search :=
      { search with
        phase := if signal = .yielded then .suspended else .finished
        frames := machine.frames
        truncated := machine.truncated }
    .done (signal = .yielded, search, machine.state)

/-- Goes on to the next answer, which the state then holds. The first value says whether there is
    one. -/
def next (search : Search) (program : Program) (fuel : Nat) (state : State) :
    Outcome (Bool × Search × State) :=
  match search.phase with
  | .finished => .done (false, search, state)
  | .suspended => search.resume program fuel .redo state
  | .unstarted goal => search.resume program fuel (.call goal none) state

end Search

end Resolvent
