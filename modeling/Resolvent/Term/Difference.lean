import Resolvent.Term.Arena

namespace Resolvent

namespace Arena

def stripAll (strip : Arena → TermId × TermId → Option (TermId × TermId) × Arena) :
    Arena → List (TermId × TermId) → List (TermId × TermId) × Arena
  | arena, [] => ([], arena)
  | arena, pair :: pairs =>
    let (kept, arena) := strip arena pair
    let (rest, arena) := stripAll strip arena pairs
    (kept.toList ++ rest, arena)

def stripWithin :
    Nat → Arena → TermId × TermId → Option (TermId × TermId) × Arena
  | 0, arena, pair => (some pair, arena)
  | fuel + 1, arena, (left, right) =>
    let left := arena.deref left
    let right := arena.deref right
    if left = right then (none, arena)
    else
      match arena.node left, arena.node right with
      | .number first, .number second =>
        (if first = second then none else some (left, right), arena)
      | .compound first, .compound second =>
        match stripAll (stripWithin fuel) arena (first.args.zip second.args) with
        | ([], arena) => (none, arena)
        | (pairs, arena) =>
          let (left, arena) := arena.compound first.symbol (pairs.map Prod.fst)
          let (right, arena) := arena.compound second.symbol (pairs.map Prod.snd)
          (some (left, right), arena)
      | _, _ => (some (left, right), arena)

/-- Leaves out the arguments in which two terms agree, where the terms are known to unify. Nothing
    is left of terms that agree. -/
def strip (arena : Arena) (left right : TermId) : Option (TermId × TermId) × Arena :=
  stripWithin arena.size arena (left, right)

end Arena

end Resolvent
