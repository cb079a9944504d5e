import Resolvent.Report.Counters
import Resolvent.Report.Decimal

namespace Resolvent

namespace Counters

def successRate (counters : Counters) : Float :=
  let total := counters.unifications + counters.unificationFailures
  if total = 0 then 1.0
  else (UInt64.ofNat counters.unifications).toFloat / (UInt64.ofNat total).toFloat

def successText (counters : Counters) : String :=
  textOfTenths (Dyadic64.ofBits (counters.successRate * 100.0).toBits).tenths

def text (counters : Counters) : String :=
  "=== Search Metrics ===\n" ++
  "Passes:             " ++ toString counters.passes ++ "\n" ++
  "Goals started:      " ++ toString counters.goals ++ "\n" ++
  "Unifications:       " ++ toString counters.unifications ++ " (" ++
    toString counters.unificationFailures ++ " failures, " ++ counters.successText ++
    "% success)\n" ++
  "Clause expansions:  " ++ toString counters.expansions ++ "\n" ++
  "Depth limit hits:   " ++ toString counters.depthHits ++ "\n" ++
  "Restores:           " ++ toString counters.restores ++ "\n" ++
  "Constraints:        " ++ toString counters.posted ++ " posted, " ++
    toString counters.discarded ++ " discarded\n" ++
  "Solutions:          " ++ toString counters.solutions ++ " yielded, " ++
    toString counters.duplicates ++ " duplicates suppressed\n"

end Counters

end Resolvent
