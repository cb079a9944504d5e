namespace Resolvent

inductive Event where
  | pass
  | goal
  | unification
  | unificationFailure
  | expansion
  | depthHit
  | restore
  | posted
  | discarded
  | solution
  | duplicate
  deriving DecidableEq, Repr

structure Counters where
  passes : Nat := 0
  goals : Nat := 0
  unifications : Nat := 0
  unificationFailures : Nat := 0
  expansions : Nat := 0
  depthHits : Nat := 0
  restores : Nat := 0
  posted : Nat := 0
  discarded : Nat := 0
  solutions : Nat := 0
  duplicates : Nat := 0
  deriving DecidableEq, Repr, Inhabited

def Counters.record (counters : Counters) (event : Event) (times : Nat) : Counters :=
  match event with
  | .pass => { counters with passes := counters.passes + times }
  | .goal => { counters with goals := counters.goals + times }
  | .unification => { counters with unifications := counters.unifications + times }
  | .unificationFailure =>
    { counters with unificationFailures := counters.unificationFailures + times }
  | .expansion => { counters with expansions := counters.expansions + times }
  | .depthHit => { counters with depthHits := counters.depthHits + times }
  | .restore => { counters with restores := counters.restores + times }
  | .posted => { counters with posted := counters.posted + times }
  | .discarded => { counters with discarded := counters.discarded + times }
  | .solution => { counters with solutions := counters.solutions + times }
  | .duplicate => { counters with duplicates := counters.duplicates + times }

end Resolvent
