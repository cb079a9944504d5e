import Resolvent.Term.Arena

namespace Resolvent

/-- What stands for each variable in a copy. -/
abbrev Renaming := List (TermId × TermId)

namespace Arena

def require (arena : Arena) (id : TermId) : Except Fault Unit :=
  if arena.contains id then .ok () else .error (.outOfRange arena.size id.index)

def requireAll (arena : Arena) : List TermId → Except Fault Unit
  | [] => .ok ()
  | id :: ids => do
    arena.require id
    arena.requireAll ids

def copyAll (copy : Arena → Renaming → TermId → Except Fault (TermId × Arena × Renaming)) :
    Arena → Renaming → List TermId → Except Fault (List TermId × Arena × Renaming)
  | arena, names, [] => .ok ([], arena, names)
  | arena, names, term :: terms => do
    let (term, arena, names) ← copy arena names term
    let (terms, arena, names) ← copyAll copy arena names terms
    return (term :: terms, arena, names)

def instantiateWithin :
    Nat → Arena → Renaming → TermId → Except Fault (TermId × Arena × Renaming)
  | 0, arena, names, term => .ok (term, arena, names)
  | fuel + 1, arena, names, term => do
    arena.require term
    match arena.node term with
    | .number value =>
      let (copy, arena) := arena.number value
      return (copy, arena, names)
    | .var _ =>
      match names.lookup term with
      | some copy => return (copy, arena, names)
      | none =>
        let (copy, arena) := arena.fresh
        return (copy, arena, (term, copy) :: names)
    | .compound cell =>
      let (args, arena, names) ← copyAll (instantiateWithin fuel) arena names cell.args
      arena.requireAll args
      let (copy, arena) := arena.compound cell.symbol args
      return (copy, arena, names)

/-- A copy of a term in which every variable, bound or not, is renamed. A variable without a name
    gets a new one. -/
def instantiate (arena : Arena) (names : Renaming) (term : TermId) :
    Except Fault (TermId × Arena × Renaming) :=
  instantiateWithin (arena.size + 1) arena names term

end Arena

end Resolvent
