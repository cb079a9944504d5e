import Resolvent.Trail.State

namespace Resolvent

inductive Shape where
  | number (value : Rational)
  | var
  | compound (symbol : Symbol) (args : List TermId)
  deriving DecidableEq, Repr

def Shape.count (shape : Shape) (id : TermId) : Nat :=
  match shape with
  | .compound _ args => args.count id
  | _ => 0

structure Posting where
  relation : Relation
  left : TermId
  right : TermId
  occurrences : Occurrences
  deriving DecidableEq, Repr

def Posting.vars (posting : Posting) : List TermId := posting.occurrences.map Prod.fst

/-- The stacks of a state, oldest entry first, each variable with what it was bound to. All else in
    a state but its counters can be told from them, whatever order the pushes came in. -/
structure Ledger where
  terms : List Shape := []
  bindings : List (TermId × TermId) := []
  delayed : List TermId := []
  calls : List TermId := []
  postings : List Posting := []
  discards : List ConstraintId := []
  path : List Choice := []
  deriving DecidableEq, Repr

namespace Ledger

def size (ledger : Ledger) : Nat := ledger.terms.length

def shape? (ledger : Ledger) (id : TermId) : Option Shape := ledger.terms[id.index]?

def Live (ledger : Ledger) (id : TermId) : Prop := id.index < ledger.size

def binding? (ledger : Ledger) (id : TermId) : Option TermId := ledger.bindings.lookup id

def watchers (ledger : Ledger) (id : TermId) : List ConstraintId :=
  ((ledger.postings.zipIdx.filter fun posting => decide (id ∈ posting.1.vars)).map
    fun posting => ⟨posting.2⟩).reverse

def previous (ledger : Ledger) (id : TermId) : List TermId :=
  ((ledger.bindings.filter fun binding => binding.2 == id).map Prod.fst).reverse

def parents (ledger : Ledger) (id : TermId) : List TermId :=
  (ledger.terms.zipIdx.flatMap fun term =>
    List.replicate (term.1.count id) (⟨term.2⟩ : TermId)).reverse

def node (ledger : Ledger) (id : TermId) : Shape → Node
  | .number value => .number value
  | .var =>
    .var
      { binding := ledger.binding? id
        delayed := decide (id ∈ ledger.delayed)
        constraints := ledger.watchers id }
  | .compound symbol args => .compound { symbol, args, active := decide (id ∈ ledger.calls) }

def slot (ledger : Ledger) (id : TermId) (shape : Shape) : Slot where
  node := ledger.node id shape
  previous := ledger.previous id
  parents := ledger.parents id

def arena (ledger : Ledger) : Arena :=
  ⟨(ledger.terms.mapIdx fun index shape => ledger.slot ⟨index⟩ shape).toArray⟩

def constraint (ledger : Ledger) (index : Nat) (posting : Posting) : Constraint where
  relation := posting.relation
  left := posting.left
  right := posting.right
  occurrences := posting.occurrences
  discarded := decide ((⟨index⟩ : ConstraintId) ∈ ledger.discards)

def constraints (ledger : Ledger) : ConstraintStore where
  constraints := (ledger.postings.mapIdx ledger.constraint).toArray
  discarded := ledger.discards.toArray

def state (ledger : Ledger) (counters : Counters) : State where
  arena := ledger.arena
  constraints := ledger.constraints
  assigned := (ledger.bindings.map Prod.fst).toArray
  delayed := ledger.delayed.toArray
  callStack := ledger.calls.toArray
  path := ledger.path.toArray
  counters := counters

def snapshot (ledger : Ledger) : Snapshot where
  assigned := ledger.bindings.length
  delayed := ledger.delayed.length
  callStack := ledger.calls.length
  constraints := ledger.postings.length
  discarded := ledger.discards.length
  terms := ledger.size
  path := ledger.path.length

@[simp] theorem snapshot_state (ledger : Ledger) (counters : Counters) :
    (ledger.state counters).snapshot = ledger.snapshot := by
  simp [state, State.snapshot, snapshot, Arena.size, arena, constraints, ConstraintStore.size, size]

/-- What is needed to undo every push, whatever variables are bound to. -/
structure Consistent (ledger : Ledger) : Prop where
  args_older : ∀ {id symbol args}, ledger.shape? id = some (.compound symbol args) →
    ∀ arg ∈ args, arg.index < id.index
  bound_once : (ledger.bindings.map Prod.fst).Nodup
  bound_var : ∀ binding ∈ ledger.bindings, ledger.shape? binding.1 = some .var
  target_live : ∀ binding ∈ ledger.bindings, ledger.Live binding.2
  delayed_once : ledger.delayed.Nodup
  delayed_var : ∀ id ∈ ledger.delayed, ledger.shape? id = some .var
  calls_once : ledger.calls.Nodup
  calls_compound : ∀ id ∈ ledger.calls, ∃ symbol args, ledger.shape? id = some (.compound symbol args)
  posting_once : ∀ posting ∈ ledger.postings, posting.vars.Nodup
  posting_var : ∀ posting ∈ ledger.postings, ∀ id ∈ posting.vars, ledger.shape? id = some .var
  discards_once : ledger.discards.Nodup
  discards_posted : ∀ id ∈ ledger.discards, id.index < ledger.postings.length

theorem consistent_empty : ({} : Ledger).Consistent := by
  constructor <;> simp [shape?]

def Falls (ledger : Ledger) (rank : TermId → Nat) : Prop :=
  ∀ binding ∈ ledger.bindings, ledger.shape? binding.2 = some .var →
    rank binding.2 < rank binding.1

/-- What no stack can break. -/
structure WellFormed (ledger : Ledger) : Prop extends Consistent ledger where
  chains_end : ∃ rank, ledger.Falls rank
  posting_left : ∀ posting ∈ ledger.postings, ledger.Live posting.left
  posting_right : ∀ posting ∈ ledger.postings, ledger.Live posting.right

/-- Every stack of the later ledger goes on from that of the earlier one. -/
structure Extends (later earlier : Ledger) : Prop where
  terms : earlier.terms <+: later.terms
  bindings : earlier.bindings <+: later.bindings
  delayed : earlier.delayed <+: later.delayed
  calls : earlier.calls <+: later.calls
  postings : earlier.postings <+: later.postings
  discards : earlier.discards <+: later.discards
  path : earlier.path <+: later.path

theorem Extends.refl (ledger : Ledger) : ledger.Extends ledger := by
  constructor <;> exact List.prefix_refl _

theorem Extends.trans {last middle first : Ledger} (later : last.Extends middle)
    (earlier : middle.Extends first) : last.Extends first where
  terms := earlier.terms.trans later.terms
  bindings := earlier.bindings.trans later.bindings
  delayed := earlier.delayed.trans later.delayed
  calls := earlier.calls.trans later.calls
  postings := earlier.postings.trans later.postings
  discards := earlier.discards.trans later.discards
  path := earlier.path.trans later.path

theorem Extends.size_le {later earlier : Ledger} (grown : later.Extends earlier) :
    earlier.size ≤ later.size := grown.terms.length_le

theorem Extends.live {later earlier : Ledger} (grown : later.Extends earlier) {id : TermId}
    (live : earlier.Live id) : later.Live id := Nat.lt_of_lt_of_le live grown.size_le

theorem Live.shape {ledger : Ledger} {id : TermId} (live : ledger.Live id) :
    ∃ shape, ledger.shape? id = some shape := ⟨_, List.getElem?_eq_getElem live⟩

theorem live_of_shape {ledger : Ledger} {id : TermId} {shape : Shape}
    (known : ledger.shape? id = some shape) : ledger.Live id :=
  (List.getElem?_eq_some_iff.mp known).1

theorem Extends.shape {later earlier : Ledger} (grown : later.Extends earlier) {id : TermId}
    {shape : Shape} (known : earlier.shape? id = some shape) : later.shape? id = some shape :=
  List.prefix_iff_getElem?.mp grown.terms _ (live_of_shape known) |>.trans
    (by rw [← known, shape?, List.getElem?_eq_getElem (live_of_shape known)])

theorem Extends.shape_eq {later earlier : Ledger} (grown : later.Extends earlier) {id : TermId}
    (live : earlier.Live id) : later.shape? id = earlier.shape? id := by
  obtain ⟨shape, known⟩ := live.shape
  rw [known, grown.shape known]

theorem getElem?_arena (ledger : Ledger) (index : Nat) :
    ledger.arena.slots[index]? = (ledger.terms[index]?).map (ledger.slot ⟨index⟩) := by
  simp [arena]

@[simp] theorem size_arena (ledger : Ledger) : ledger.arena.size = ledger.size := by
  simp [arena, Arena.size, size]

theorem contains_arena (ledger : Ledger) (id : TermId) :
    ledger.arena.contains id = true ↔ ledger.Live id := by
  simp [Arena.contains, Live]

theorem node_arena (ledger : Ledger) (id : TermId) :
    ledger.arena.node id = ((ledger.shape? id).map (ledger.node id)).getD (.var {}) := by
  simp only [Arena.node, getElem?_arena, shape?]
  cases ledger.terms[id.index]? <;> rfl

end Ledger

theorem Arena.ext_slots {first second : Arena}
    (same : ∀ index : Nat, first.slots[index]? = second.slots[index]?) : first = second := by
  cases first
  cases second
  congr
  exact Array.ext_getElem? same

end Resolvent
