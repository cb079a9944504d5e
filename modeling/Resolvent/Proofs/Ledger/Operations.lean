import Resolvent.Proofs.Ledger.Lookup

namespace Resolvent

namespace Ledger

variable {ledger : Ledger}

@[simp] theorem record_state (ledger : Ledger) (counters : Counters) (event : Event) :
    (ledger.state counters).record event = ledger.state (counters.record event 1) := rfl

@[simp] theorem size_assigned (ledger : Ledger) (counters : Counters) :
    (ledger.state counters).assigned.size = ledger.bindings.length := by
  simp [state]

@[simp] theorem snapshot_assigned (ledger : Ledger) :
    ledger.snapshot.assigned = ledger.bindings.length := rfl

theorem bind_state {var target : TermId} (known : ledger.shape? var = some .var)
    (unbound : ledger.binding? var = none) (counters : Counters) :
    (ledger.state counters).bind var target = (ledger.bind var target).state counters := by
  simp only [State.bind, arena_state, arena_bind known unbound]
  simp only [state, bind, List.push_toArray, List.map_append, List.map_cons, List.map_nil]
  rfl

theorem register_state (ledger : Ledger) (goal : TermId) (choice : Option Choice)
    (counters : Counters) :
    (ledger.state counters).register goal choice =
      (ledger.snapshot, (ledger.register goal choice).state counters) := by
  simp only [State.register, snapshot_state, arena_state, arena_register _ _ choice]
  cases choice <;>
    simp only [state, register, List.push_toArray, Option.toList, List.append_nil] <;> rfl

theorem delay_state (ledger : Ledger) (var : TermId) (counters : Counters) :
    (ledger.state counters).delay var = (ledger.snapshot, (ledger.delay var).state counters) := by
  simp only [State.delay, snapshot_state, arena_state, arena_delay]
  simp only [state, delay, List.push_toArray]
  rfl

theorem constraint_fresh (consistent : ledger.Consistent) (posting : Posting) :
    ledger.constraint ledger.postings.length posting =
      { relation := posting.relation
        left := posting.left
        right := posting.right
        occurrences := posting.occurrences } := by
  have fresh : (⟨ledger.postings.length⟩ : ConstraintId) ∉ ledger.discards := by
    intro member
    exact Nat.lt_irrefl _ (consistent.discards_posted _ member)
  simp [constraint, fresh]

theorem post_state (consistent : ledger.Consistent) {posting : Posting}
    (once : posting.vars.Nodup) (counters : Counters) :
    ((ledger.state counters).post
      { relation := posting.relation
        left := posting.left
        right := posting.right
        occurrences := posting.occurrences }).2 = (ledger.post posting).state counters := by
  have attached := @arena_post ledger posting once
  have pushed := @constraints_push ledger posting
  rw [constraint_fresh consistent] at pushed
  simp only [State.post, ConstraintStore.post, arena_state, constraints_state, size_constraints,
    attached, ← pushed]
  rfl

theorem mark_constraints {id : ConstraintId} :
    (ledger.constraints.mark id true).constraints =
      (ledger.discard id).constraints.constraints := by
  simp only [ConstraintStore.mark]
  apply Array.ext_getElem?
  intro index
  rw [Array.getElem?_modify, getElem?_constraints, getElem?_constraints,
    show (ledger.discard id).postings = ledger.postings from rfl]
  cases ledger.postings[index]? with
  | none => simp
  | some posting =>
    by_cases same : id.index = index
    · subst same
      simp [constraint, discard]
    · have other : (⟨index⟩ : ConstraintId) ≠ id := by rintro rfl; exact same rfl
      simp [constraint, discard, same, other]

def settle (ledger : Ledger) (id : ConstraintId) : Ledger :=
  if id ∈ ledger.discards then ledger else ledger.discard id

theorem settle_extends (ledger : Ledger) (id : ConstraintId) :
    (ledger.settle id).Extends ledger := by
  rw [settle]
  split
  · exact .refl ledger
  · exact discard_extends ledger id

theorem Consistent.settle (consistent : ledger.Consistent) {id : ConstraintId}
    (posted : id.index < ledger.postings.length) : (ledger.settle id).Consistent := by
  rw [Ledger.settle]
  split
  · exact consistent
  · next fresh => exact consistent.discard posted fresh

theorem WellFormed.settle (wellFormed : ledger.WellFormed) {id : ConstraintId}
    (posted : id.index < ledger.postings.length) : (ledger.settle id).WellFormed := by
  rw [Ledger.settle]
  split
  · exact wellFormed
  · next fresh => exact wellFormed.discard posted fresh

theorem get_constraints {id : ConstraintId} {posting : Posting}
    (posted : ledger.postings[id.index]? = some posting) :
    ledger.constraints.get id = .ok (ledger.constraint id.index posting) := by
  simp [ConstraintStore.get, getElem?_constraints, posted]

theorem discard_state {id : ConstraintId} (posted : id.index < ledger.postings.length)
    (counters : Counters) :
    (ledger.state counters).discard id = .ok ((ledger.settle id).state counters) := by
  have held := get_constraints (List.getElem?_eq_getElem posted)
  by_cases discarded : id ∈ ledger.discards
  · have kept : ledger.constraints.discard id = .ok ledger.constraints := by
      simp [ConstraintStore.discard, held, constraint, discarded, Bind.bind, Except.bind, pure,
        Except.pure]
    rw [State.discard, constraints_state, kept, settle, if_pos discarded]
    rfl
  · have marked : ledger.constraints.discard id = .ok (ledger.discard id).constraints := by
      have stored := @mark_constraints ledger id
      simp only [ConstraintStore.discard, held, constraint, discarded, stored, Bind.bind,
        Except.bind]
      simp only [constraints, discard, decide_false, Bool.false_eq_true, if_false, List.push_toArray]
      rfl
    rw [State.discard, constraints_state, marked, settle, if_neg discarded]
    rfl

end Ledger

def Node.shape : Node → Shape
  | .number value => .number value
  | .var _ => .var
  | .compound cell => .compound cell.symbol cell.args

def State.ledger (state : State) : Ledger where
  terms := state.arena.slots.toList.map fun slot => slot.node.shape
  bindings := state.assigned.toList.map fun var => (var, (state.arena.binding? var).getD var)
  delayed := state.delayed.toList
  calls := state.callStack.toList
  postings := state.constraints.constraints.toList.map fun constraint =>
    ⟨constraint.relation, constraint.left, constraint.right, constraint.occurrences⟩
  discards := state.constraints.discarded.toList
  path := state.path.toList

namespace Ledger

variable {ledger : Ledger}

theorem shape_node (ledger : Ledger) (id : TermId) (shape : Shape) :
    (ledger.node id shape).shape = shape := by
  cases shape <;> rfl

theorem lookup_of_mem {entries : List (TermId × TermId)} (once : (entries.map Prod.fst).Nodup)
    {entry : TermId × TermId} (member : entry ∈ entries) :
    entries.lookup entry.1 = some entry.2 := by
  induction entries with
  | nil => cases member
  | cons first rest ih =>
    rw [List.map_cons, List.nodup_cons] at once
    rcases List.mem_cons.mp member with rfl | inside
    · exact List.lookup_cons_self
    · have apart : entry.1 ≠ first.1 := by
        intro same
        exact once.1 (same ▸ List.mem_map_of_mem inside)
      have different : (entry.1 == first.1) = false := by simpa using apart
      rw [show first = (first.1, first.2) from rfl, List.lookup_cons, different]
      exact ih once.2 inside

theorem Consistent.lookup_bindings (consistent : ledger.Consistent) {binding : TermId × TermId}
    (member : binding ∈ ledger.bindings) : ledger.binding? binding.1 = some binding.2 :=
  lookup_of_mem consistent.bound_once member

theorem Consistent.ledger_state (consistent : ledger.Consistent) (counters : Counters) :
    (ledger.state counters).ledger = ledger := by
  have terms : ledger.arena.slots.toList.map (fun slot => slot.node.shape) = ledger.terms := by
    apply List.ext_getElem?
    intro index
    simp only [List.getElem?_map, Array.getElem?_toList, getElem?_arena, Option.map_map]
    cases ledger.terms[index]? with
    | none => rfl
    | some shape => exact congrArg some (shape_node ledger ⟨index⟩ shape)
  have bindings : (ledger.bindings.map Prod.fst).map (fun var =>
      (var, (ledger.arena.binding? var).getD var)) = ledger.bindings := by
    rw [List.map_map]
    refine (List.map_congr_left ?_).trans (List.map_id _)
    intro binding member
    simp [consistent.binding?_arena, consistent.lookup_bindings member]
  have postings : ledger.constraints.constraints.toList.map (fun constraint =>
      (⟨constraint.relation, constraint.left, constraint.right, constraint.occurrences⟩ :
        Posting)) = ledger.postings := by
    apply List.ext_getElem?
    intro index
    simp only [List.getElem?_map, Array.getElem?_toList, getElem?_constraints, Option.map_map]
    cases ledger.postings[index]? <;> rfl
  simp only [State.ledger, arena_state, constraints_state, terms, postings]
  simp only [state, bindings, constraints]

theorem ledger_state (wellFormed : ledger.WellFormed) (counters : Counters) :
    (ledger.state counters).ledger = ledger := wellFormed.toConsistent.ledger_state counters

end Ledger

end Resolvent
