import Resolvent.Proofs.Ledger.Waking
import Resolvent.Proofs.Search.Asking

namespace Resolvent

structure State.Accounted (state : State) : Prop where
  active : ∀ id, id ∈ state.callStack ↔
    ∃ cell, state.arena.compound? id = some cell ∧ cell.active = true
  calls_once : state.callStack.toList.Nodup
  delayed : ∀ id, id ∈ state.delayed ↔
    ∃ cell, state.arena.var? id = some cell ∧ cell.delayed = true
  delayed_once : state.delayed.toList.Nodup
  bound : ∀ id, id ∈ state.assigned ↔ ∃ target, state.arena.binding? id = some target
  bound_once : state.assigned.toList.Nodup
  previous : ∀ var target, var ∈ state.arena.previous target ↔
    state.arena.binding? var = some target
  previous_once : ∀ target, (state.arena.previous target).Nodup
  parents : ∀ child parent, (state.arena.parents child).count parent =
    match state.arena.compound? parent with
    | some cell => cell.args.count child
    | none => 0
  watched : ∀ {var cell}, state.arena.var? var = some cell → ∀ id, id ∈ cell.constraints ↔
    ∃ constraint, state.constraints.get id = .ok constraint ∧
      var ∈ constraint.occurrences.map Prod.fst
  watched_ordered : ∀ {var cell}, state.arena.var? var = some cell →
    cell.constraints.reverse.Pairwise fun older newer => older.index < newer.index
  discarded : ∀ id, id ∈ state.constraints.discarded ↔
    ∃ constraint, state.constraints.get id = .ok constraint ∧ constraint.discarded = true
  discards_once : state.constraints.discarded.toList.Nodup

namespace Ledger

variable {ledger : Ledger}

theorem Consistent.previous_arena (consistent : ledger.Consistent) (id : TermId) :
    ledger.arena.previous id = ledger.previous id := by
  by_cases live : ledger.Live id
  · exact Ledger.previous_arena live
  · have free : ledger.shape? id = none := List.getElem?_eq_none (Nat.le_of_not_lt live)
    have beyond : ledger.terms[id.index]? = none := free
    rw [consistent.previous_free free, Arena.previous, getElem?_arena, beyond, Option.map_none]

theorem Consistent.parents_arena (consistent : ledger.Consistent) (id : TermId) :
    ledger.arena.parents id = ledger.parents id := by
  by_cases live : ledger.Live id
  · exact Ledger.parents_arena live
  · have free : ledger.shape? id = none := List.getElem?_eq_none (Nat.le_of_not_lt live)
    have beyond : ledger.terms[id.index]? = none := free
    rw [consistent.parents_free free, Arena.parents, getElem?_arena, beyond, Option.map_none]

theorem Consistent.var?_arena (consistent : ledger.Consistent) {id : TermId} {cell : Variable}
    (isVar : ledger.arena.var? id = some cell) :
    cell.delayed = decide (id ∈ ledger.delayed) ∧ cell.constraints = ledger.watchers id := by
  cases known : ledger.shape? id with
  | none =>
    have held : cell = {} := by
      simpa [Arena.var?, node_arena, known] using isVar.symm
    have quiet : id ∉ ledger.delayed := by
      intro member
      rw [consistent.delayed_var id member] at known
      cases known
    rw [held, consistent.watchers_free known]
    simp [quiet]
  | some shape =>
    cases shape with
    | number value | compound symbol args => simp [Arena.var?, node_arena, known, node] at isVar
    | var =>
      rw [Arena.var?, node_var known] at isVar
      cases isVar
      exact ⟨rfl, rfl⟩

theorem WellFormed.mem_calls (wellFormed : ledger.WellFormed) (id : TermId) :
    id ∈ ledger.calls ↔ ∃ cell, ledger.arena.compound? id = some cell ∧ cell.active = true := by
  constructor
  · intro member
    obtain ⟨symbol, args, known⟩ := wellFormed.calls_compound id member
    refine ⟨_, Arena.compound?_eq_some.mpr (node_compound known), ?_⟩
    exact decide_eq_true member
  · rintro ⟨cell, held, active⟩
    rw [(shape_of_compound (Arena.compound?_eq_some.mp held)).2] at active
    exact of_decide_eq_true active

theorem WellFormed.mem_delayed (wellFormed : ledger.WellFormed) (id : TermId) :
    id ∈ ledger.delayed ↔ ∃ cell, ledger.arena.var? id = some cell ∧ cell.delayed = true := by
  constructor
  · intro member
    refine ⟨_, by rw [Arena.var?, node_var (wellFormed.delayed_var id member)], ?_⟩
    exact decide_eq_true member
  · rintro ⟨cell, held, delayed⟩
    rw [(wellFormed.var?_arena held).1] at delayed
    exact of_decide_eq_true delayed

theorem WellFormed.mem_bound (wellFormed : ledger.WellFormed) (id : TermId) :
    id ∈ ledger.bindings.map Prod.fst ↔ ∃ target, ledger.arena.binding? id = some target := by
  simp only [wellFormed.binding?_arena, List.mem_map]
  constructor
  · rintro ⟨binding, member, rfl⟩
    exact ⟨binding.2, wellFormed.lookup_bindings member⟩
  · rintro ⟨target, bound⟩
    exact ⟨_, mem_bindings_of_lookup bound, rfl⟩

theorem get_constraints_ok {id : ConstraintId} {constraint : Constraint} :
    ledger.constraints.get id = .ok constraint ↔
      ∃ posting, ledger.postings[id.index]? = some posting ∧
        constraint = ledger.constraint id.index posting := by
  rw [ConstraintStore.get, getElem?_constraints]
  cases ledger.postings[id.index]? with
  | none => simp
  | some posting => simp [eq_comm]

theorem Consistent.mem_discards (consistent : ledger.Consistent) (id : ConstraintId) :
    id ∈ ledger.discards ↔
      ∃ constraint, ledger.constraints.get id = .ok constraint ∧ constraint.discarded = true := by
  simp only [get_constraints_ok]
  constructor
  · intro member
    have posted := consistent.discards_posted id member
    exact ⟨_, ⟨_, List.getElem?_eq_getElem posted, rfl⟩, decide_eq_true member⟩
  · rintro ⟨_, ⟨posting, -, rfl⟩, discarded⟩
    exact of_decide_eq_true discarded

theorem Consistent.previous_once (consistent : ledger.Consistent) (id : TermId) :
    (ledger.previous id).Nodup := by
  have kept : ((ledger.bindings.filter fun binding => binding.2 == id).map Prod.fst).Sublist
      (ledger.bindings.map Prod.fst) := List.filter_sublist.map _
  exact List.nodup_reverse.mpr (consistent.bound_once.sublist kept)

theorem count_children (terms : List Shape) (start index : Nat) (id : TermId) :
    ((terms.zipIdx start).flatMap fun term =>
        List.replicate (term.1.count id) (⟨term.2⟩ : TermId)).count ⟨start + index⟩ =
      ((terms[index]?).map fun shape => shape.count id).getD 0 := by
  induction terms generalizing start index with
  | nil => simp
  | cons shape terms ih =>
    rw [List.zipIdx_cons, List.flatMap_cons, List.count_append, List.count_replicate]
    cases index with
    | zero =>
      -- Only the first term has its number, so the others add nothing to the count.
      have absent : (⟨start⟩ : TermId) ∉ (terms.zipIdx (start + 1)).flatMap fun term =>
          List.replicate (term.1.count id) (⟨term.2⟩ : TermId) := by
        intro member
        obtain ⟨term, listed, inside⟩ := List.mem_flatMap.mp member
        have same := (List.mem_replicate.mp inside).2
        have later := List.le_snd_of_mem_zipIdx listed
        rw [TermId.mk.injEq] at same
        omega
      simp [List.count_eq_zero.mpr absent]
    | succ index =>
      have rest := ih (start + 1) index
      rw [Nat.add_right_comm] at rest
      have apart : ¬ start = start + (index + 1) := by omega
      simpa [apart, Nat.add_assoc] using rest

theorem count_parents (child parent : TermId) :
    (ledger.parents child).count parent =
      match ledger.arena.compound? parent with
      | some cell => cell.args.count child
      | none => 0 := by
  have counted := count_children ledger.terms 0 parent.index child
  rw [Nat.zero_add] at counted
  rw [parents, List.count_reverse]
  refine counted.trans ?_
  change ((ledger.shape? parent).map fun shape => shape.count child).getD 0 = _
  rw [Arena.compound?, node_arena]
  cases ledger.shape? parent with
  | none => rfl
  | some shape => cases shape <;> rfl

theorem watchers_ordered (ledger : Ledger) (id : TermId) :
    (ledger.watchers id).reverse.Pairwise fun older newer => older.index < newer.index := by
  have places : (ledger.postings.zipIdx.map Prod.snd).Pairwise (· < ·) := by
    rw [List.zipIdx_map_snd]
    exact List.pairwise_lt_range'
  rw [watchers, List.reverse_reverse, List.pairwise_map]
  exact (List.pairwise_map.mp places).filter _

theorem WellFormed.state_accounted (wellFormed : ledger.WellFormed) (counters : Counters) :
    (ledger.state counters).Accounted where
  active id := by simpa [state] using wellFormed.mem_calls id
  calls_once := wellFormed.calls_once
  delayed id := by simpa [state] using wellFormed.mem_delayed id
  delayed_once := wellFormed.delayed_once
  bound id := by simpa [state] using wellFormed.mem_bound id
  bound_once := wellFormed.bound_once
  previous var target := by
    rw [arena_state, wellFormed.previous_arena, wellFormed.binding?_arena]
    exact wellFormed.mem_previous
  previous_once target := by
    rw [arena_state, wellFormed.previous_arena]
    exact wellFormed.previous_once target
  parents child parent := by
    rw [arena_state, wellFormed.parents_arena]
    exact count_parents child parent
  watched {var cell} held id := by
    rw [(wellFormed.var?_arena held).2, mem_watchers, constraints_state]
    simp only [get_constraints_ok]
    constructor
    · rintro ⟨posting, posted, inside⟩
      exact ⟨_, ⟨posting, posted, rfl⟩, inside⟩
    · rintro ⟨_, ⟨posting, posted, rfl⟩, inside⟩
      exact ⟨posting, posted, inside⟩
  watched_ordered held := by
    rw [(wellFormed.var?_arena held).2]
    exact ledger.watchers_ordered _
  discarded id := by simpa [state, constraints] using wellFormed.mem_discards id
  discards_once := wellFormed.discards_once

end Ledger

section

variable {program : Program} {state : State} {goal : TermId} {limit : Nat} {config : Config}

theorem Visited.of_outside (outside : ¬ state.arena.contains goal = true)
    (visited : Visited program (Search.opening goal limit state) config) :
    config = Search.opening goal limit state := by
  induction visited with
  | start => rfl
  | step _ advances ih =>
    subst ih
    simp [Search.opening, Search.machine, Search.start, Machine.advance, Machine.call,
      Machine.record, State.record, Arena.require, outside, Bind.bind, Except.bind] at advances
  | resume _ _ ih =>
    have started := congrArg Prod.fst ih
    cases started

/-- Wherever a run stands that started with empty stacks, its state is in order. -/
theorem Visited.accounted (ready : Ready program state)
    (visited : Visited program (Search.opening goal limit state) config) :
    config.2.state.Accounted := by
  by_cases live : state.arena.contains goal = true
  · obtain ⟨base, underway⟩ := ready.underway live visited
    obtain ⟨ledger, wellFormed, counters, same⟩ := underway.held
    rw [same]
    exact wellFormed.state_accounted counters
  · obtain ⟨ledger, same, -, wellFormed, -⟩ := ready.ledger
    rw [visited.of_outside live]
    change state.Accounted
    rw [same]
    exact wellFormed.state_accounted _

end

namespace Crowded

def terms : List Shape := [.compound (.user 0) []]

def queryTerms : List Shape :=
  [.var, .var, .compound (.user 0) [], .compound (.user 1) [], .compound (.user 2) [],
    .compound (.user 3) [⟨1⟩, ⟨2⟩], .compound (.user 3) [⟨3⟩, ⟨4⟩],
    .compound (.reserved .unequal) [⟨6⟩, ⟨7⟩], .compound (.reserved .equal) [⟨2⟩, ⟨5⟩],
    .compound (.reserved .equal) [⟨1⟩, ⟨3⟩], .compound (.reserved .conjunction) [⟨9⟩, ⟨10⟩],
    .compound (.reserved .conjunction) [⟨8⟩, ⟨11⟩], .compound (.reserved .conjunction) [⟨1⟩, ⟨12⟩]]

def program : Program where
  clauses := #[⟨⟨0⟩, none, .user 0, 0⟩]

def state : State where
  arena := (Arena.build? {} (terms ++ queryTerms)).getD {}

theorem ready : Ready program state where
  accepted :=
    ⟨terms, queryTerms, [⟨0⟩], (Arena.build? {} terms).getD {}, by decide +kernel, by rfl,
      by decide +kernel⟩
  untouched := rfl

def proving : Config := stepsFrom program 11 (Search.opening ⟨13⟩ 10 state)

theorem accounted_proving : Ready program state ∧
    Visited program (Search.opening ⟨13⟩ 10 state) proving ∧
    proving.2.state.callStack = #[⟨13⟩, ⟨12⟩, ⟨8⟩, ⟨11⟩, ⟨9⟩, ⟨10⟩, ⟨3⟩] ∧
    proving.2.state.delayed = #[⟨1⟩] ∧ proving.2.state.assigned = #[⟨2⟩, ⟨1⟩] ∧
    proving.2.state.constraints.discarded = #[⟨0⟩] ∧ proving.2.state.Accounted :=
  ⟨ready, Visited.start.steps 11, by decide +kernel, by decide +kernel, by decide +kernel,
    by decide +kernel, Visited.accounted ready (Visited.start.steps 11)⟩

end Crowded

end Resolvent
