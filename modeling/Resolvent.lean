import Resolvent.Proofs.Enumeration.Distinct
import Resolvent.Proofs.Enumeration.Exact
import Resolvent.Proofs.Enumeration.Isolation
import Resolvent.Proofs.Enumeration.Schedule
import Resolvent.Proofs.Enumeration.Termination
import Resolvent.Proofs.Ledger.Undoing
import Resolvent.Proofs.Search.BodyStart
import Resolvent.Proofs.Search.Bookkeeping
import Resolvent.Proofs.Search.Discipline
import Resolvent.Proofs.Search.Guarded
import Resolvent.Proofs.Search.Obligations
import Resolvent.Proofs.Search.Recurrence
import Resolvent.Proofs.Search.Reserved
import Resolvent.Proofs.Search.Restoration
import Resolvent.Proofs.Search.Resumption
import Resolvent.Proofs.Semantics.Completeness
import Resolvent.Proofs.Semantics.Concerns
import Resolvent.Proofs.Semantics.Confluence
import Resolvent.Proofs.Semantics.Copying
import Resolvent.Proofs.Semantics.Folding
import Resolvent.Proofs.Semantics.Fractions
import Resolvent.Proofs.Semantics.Positions
import Resolvent.Proofs.Semantics.Primitives
import Resolvent.Proofs.Semantics.Solvable
import Resolvent.Proofs.Semantics.Walks
import Resolvent.Query
import Resolvent.Report.Text
