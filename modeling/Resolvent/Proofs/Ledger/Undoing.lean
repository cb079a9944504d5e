import Resolvent.Proofs.Ledger.Allocation
import Resolvent.Proofs.Ledger.Operations

namespace Resolvent

inductive State.Changes : State → State → Prop where
  | number {state : State} (value : Rational) :
      Changes state { state with arena := (state.arena.number value).2 }
  | fresh {state : State} : Changes state { state with arena := state.arena.fresh.2 }
  | compound {state : State} (symbol : Symbol) {args : List TermId}
      (inside : ∀ arg ∈ args, state.arena.contains arg = true) :
      Changes state { state with arena := (state.arena.compound symbol args).2 }
  | bind {state : State} {var target : TermId} (inside : state.arena.contains var = true)
      (unassigned : state.arena.isUnassigned var = true)
      (targetInside : state.arena.contains target = true) : Changes state (state.bind var target)
  | register {state : State} {goal : TermId} (choice : Option Choice)
      (compound : (state.arena.compound? goal).isSome = true) (idle : goal ∉ state.callStack) :
      Changes state (state.register goal choice).2
  | delay {state : State} {var : TermId} {cell : Variable} (inside : state.arena.contains var = true)
      (isVar : state.arena.var? var = some cell) (unflagged : cell.delayed = false) :
      Changes state (state.delay var).2
  | post {state : State} (constraint : Constraint) (undiscarded : constraint.discarded = false)
      (once : (constraint.occurrences.map Prod.fst).Nodup)
      (inside : ∀ var ∈ constraint.occurrences.map Prod.fst, state.arena.contains var = true)
      (isVar : ∀ var ∈ constraint.occurrences.map Prod.fst,
        (state.arena.var? var).isSome = true) : Changes state (state.post constraint).2
  | discard {state later : State} {id : ConstraintId} (discarded : state.discard id = .ok later) :
      Changes state later

/-- What a state went through since it was at the start, with the snapshots of it that it can go
    back to, newest first. Going back to one of them loses those that were taken later. -/
inductive Trail (start : State) : State → List Snapshot → Prop where
  | start : Trail start start [start.snapshot]
  | change {state later : State} {opened : List Snapshot} (trail : Trail start state opened)
      (changes : state.Changes later) : Trail start later opened
  | snapshot {state : State} {opened : List Snapshot} (trail : Trail start state opened) :
      Trail start state (state.snapshot :: opened)
  | restore {state : State} {snapshot : Snapshot} {newer older : List Snapshot}
      (trail : Trail start state (newer ++ snapshot :: older)) :
      Trail start (state.restore snapshot) (snapshot :: older)

def State.Consistent (state : State) : Prop :=
  ∃ ledger : Ledger, ledger.Consistent ∧ ∃ counters, state = ledger.state counters

namespace Ledger

variable {ledger : Ledger}

theorem shape_of_unassigned {id : TermId} (live : ledger.Live id)
    (unassigned : ledger.arena.isUnassigned id = true) :
    ledger.shape? id = some .var ∧ ledger.binding? id = none := by
  unfold Arena.isUnassigned at unassigned
  split at unassigned
  · next held =>
    have known := shape_of_var live held
    rw [node_var known] at held
    cases held
    exact ⟨known, by simpa using unassigned⟩
  · cases unassigned

theorem shape_of_var? {id : TermId} {cell : Variable} (live : ledger.Live id)
    (isVar : ledger.arena.var? id = some cell) :
    ledger.shape? id = some .var ∧ cell.delayed = decide (id ∈ ledger.delayed) := by
  unfold Arena.var? at isVar
  split at isVar
  · next held =>
    cases isVar
    have known := shape_of_var live held
    rw [node_var known] at held
    cases held
    exact ⟨known, rfl⟩
  · cases isVar

theorem allocate_state (consistent : ledger.Consistent) {shape : Shape} (admits : ledger.Admits shape)
    (counters : Counters) :
    { ledger.state counters with arena := (ledger.arena.place shape).2 } =
      (ledger.allocate shape).state counters := by
  rw [arena_place consistent admits]
  rfl

theorem discard_posted {id : ConstraintId} {counters : Counters} {later : State}
    (discarded : (ledger.state counters).discard id = .ok later) :
    id.index < ledger.postings.length := by
  by_contra beyond
  have absent : ledger.constraints.constraints[id.index]? = none := by
    rw [getElem?_constraints, List.getElem?_eq_none (Nat.le_of_not_lt beyond), Option.map_none]
  simp [State.discard, ConstraintStore.discard, ConstraintStore.get, absent, Bind.bind, Except.bind]
    at discarded

theorem Consistent.changes {counters : Counters} {later : State} (consistent : ledger.Consistent)
    (changes : (ledger.state counters).Changes later) :
    ∃ grown : Ledger, grown.Consistent ∧ grown.Extends ledger ∧ later = grown.state counters := by
  generalize same : ledger.state counters = state at changes
  cases changes with
  | number value =>
    subst same
    exact ⟨_, consistent.allocate (admits_number value), allocate_extends _ _,
      allocate_state consistent (admits_number value) counters⟩
  | fresh =>
    subst same
    exact ⟨_, consistent.allocate admits_var, allocate_extends _ _,
      allocate_state consistent admits_var counters⟩
  | compound symbol inside =>
    subst same
    have admits : ledger.Admits (.compound symbol _) :=
      admits_compound fun arg member => (contains_arena ledger arg).mp (inside arg member)
    exact ⟨_, consistent.allocate admits, allocate_extends _ _,
      allocate_state consistent admits counters⟩
  | bind inside unassigned targetInside =>
    subst same
    obtain ⟨isVar, unbound⟩ := shape_of_unassigned ((contains_arena ledger _).mp inside) unassigned
    have live := (contains_arena ledger _).mp targetInside
    exact ⟨_, consistent.bind isVar unbound live, bind_extends _ _ _,
      bind_state isVar unbound counters⟩
  | register choice compound idle =>
    subst same
    obtain ⟨cell, held⟩ := Option.isSome_iff_exists.mp compound
    exact ⟨_, consistent.register choice (shape_of_compound? held) (by simpa [state] using idle),
      register_extends _ _ _, congrArg Prod.snd (register_state ledger _ choice counters)⟩
  | delay inside isVar unflagged =>
    subst same
    obtain ⟨known, flag⟩ := shape_of_var? ((contains_arena ledger _).mp inside) isVar
    exact ⟨_, consistent.delay known (by simpa [unflagged] using flag), delay_extends _ _,
      congrArg Prod.snd (delay_state ledger _ counters)⟩
  | post constraint undiscarded once inside isVar =>
    subst same
    let posting : Posting :=
      ⟨constraint.relation, constraint.left, constraint.right, constraint.occurrences⟩
    have known : ∀ var ∈ posting.vars, ledger.shape? var = some .var := by
      intro var member
      obtain ⟨cell, held⟩ := Option.isSome_iff_exists.mp (isVar var member)
      exact (shape_of_var? ((contains_arena ledger var).mp (inside var member)) held).1
    -- A constraint that is not discarded is all that its posting says.
    have held : constraint =
        { relation := posting.relation
          left := posting.left
          right := posting.right
          occurrences := posting.occurrences } := by
      cases constraint
      simp_all [posting]
    refine ⟨ledger.post posting, consistent.post once known, post_extends _ _, ?_⟩
    rw [held]
    exact @post_state ledger consistent posting once counters
  | discard discarded =>
    subst same
    have posted := discard_posted discarded
    rw [discard_state posted, Except.ok.injEq] at discarded
    exact ⟨_, consistent.settle posted, settle_extends _ _, discarded.symm⟩

structure Stages (first : Ledger) (stages : List Ledger) : Prop where
  consistent : ∀ stage ∈ stages, stage.Consistent
  grown : stages.Pairwise Extends
  onward : ∀ stage ∈ stages, stage.Extends first

variable {first grown : Ledger} {stages fewer : List Ledger}

theorem Stages.sublist (kept : first.Stages stages) (among : fewer.Sublist stages) :
    first.Stages fewer where
  consistent stage member := kept.consistent stage (among.subset member)
  grown := kept.grown.sublist among
  onward stage member := kept.onward stage (among.subset member)

theorem Stages.grow (kept : first.Stages (ledger :: stages)) (consistent : grown.Consistent)
    (onward : grown.Extends ledger) : first.Stages (grown :: ledger :: stages) where
  consistent := List.forall_mem_cons.mpr ⟨consistent, kept.consistent⟩
  grown := by
    have later := (List.pairwise_cons.mp kept.grown).1
    refine List.pairwise_cons.mpr ⟨?_, kept.grown⟩
    exact List.forall_mem_cons.mpr ⟨onward, fun stage member => onward.trans (later stage member)⟩
  onward := by
    have here := (List.forall_mem_cons.mp kept.onward).1
    exact List.forall_mem_cons.mpr ⟨onward.trans here, kept.onward⟩

/-- Every snapshot that a state can go back to was taken at a ledger that its own one goes on from. -/
theorem stages_of_trail {counters : Counters} {state : State} {opened : List Snapshot}
    (consistent : first.Consistent) (trail : Trail (first.state counters) state opened) :
    ∃ ledger stages restores, state = ledger.state (counters.record .restore restores) ∧
      opened = stages.map Ledger.snapshot ∧ first.Stages (ledger :: stages) := by
  induction trail with
  | start =>
    refine ⟨first, [first], 0, rfl, by simp, ?_, ?_, ?_⟩
    · simpa using consistent
    · simpa using Extends.refl first
    · simpa using Extends.refl first
  | change _ changes ih =>
    obtain ⟨ledger, stages, restores, rfl, opened, kept⟩ := ih
    have here := (List.forall_mem_cons.mp kept.consistent).1
    obtain ⟨grown, grownConsistent, onward, same⟩ := here.changes changes
    refine ⟨grown, stages, restores, same, opened, ?_⟩
    exact (kept.grow grownConsistent onward).sublist (by simp)
  | snapshot _ ih =>
    obtain ⟨ledger, stages, restores, rfl, rfl, kept⟩ := ih
    have here := (List.forall_mem_cons.mp kept.consistent).1
    exact ⟨ledger, ledger :: stages, restores, rfl, by simp, kept.grow here (.refl ledger)⟩
  | restore _ ih =>
    obtain ⟨ledger, stages, restores, rfl, opened, kept⟩ := ih
    obtain ⟨newer, rest, rfl, -, same⟩ := List.append_eq_map_iff.mp opened
    obtain ⟨stage, older, rfl, rfl, rfl⟩ := List.map_eq_cons_iff.mp same
    obtain ⟨later, -⟩ := List.pairwise_cons.mp kept.grown
    have back := restore_state (kept.consistent ledger (by simp)) (later stage (by simp))
      (counters.record .restore restores)
    have left : first.Stages (stage :: older) := kept.sublist (by simp)
    exact ⟨stage, stage :: older, restores + 1, back, by simp,
      left.grow (kept.consistent stage (by simp)) (.refl stage)⟩

end Ledger

section

variable {start state : State} {opened : List Snapshot}

theorem Trail.consistent (trail : Trail start state opened) (consistent : start.Consistent) :
    state.Consistent := by
  obtain ⟨first, firstConsistent, counters, rfl⟩ := consistent
  obtain ⟨ledger, stages, restores, rfl, -, kept⟩ := Ledger.stages_of_trail firstConsistent trail
  exact ⟨ledger, kept.consistent ledger (by simp), _, rfl⟩

/-- Whatever was done since, going back to the snapshot of a state gives that state, with more
    restores counted. -/
theorem restore_inverts (consistent : start.Consistent) (trail : Trail start state opened) :
    ∃ restores, state.restore start.snapshot =
      { start with counters := start.counters.record .restore restores } := by
  obtain ⟨first, firstConsistent, counters, rfl⟩ := consistent
  obtain ⟨ledger, stages, restores, rfl, -, kept⟩ := Ledger.stages_of_trail firstConsistent trail
  rw [Ledger.snapshot_state, Ledger.restore_state (kept.consistent ledger (by simp))
    (kept.onward ledger (by simp))]
  exact ⟨restores + 1, rfl⟩

end

theorem consistent_empty : ({} : State).Consistent :=
  ⟨{}, Ledger.consistent_empty, {}, rfl⟩

namespace Rewound

def terms : State :=
  { arena := ((({} : Arena).fresh.2.fresh.2).compound (.user 0) [⟨0⟩, ⟨1⟩]).2 }

def start : State := terms.bind ⟨1⟩ ⟨0⟩

def apart : Constraint where
  relation := .disunification
  left := ⟨0⟩
  right := ⟨2⟩
  occurrences := [(⟨0⟩, 1)]

def called : State := ((start.post apart).2.register ⟨2⟩ (some .left)).2

def settled : State := ((called.bind ⟨0⟩ ⟨1⟩).discard ⟨0⟩).toOption.getD called

def delayed : State := ((settled.restore called.snapshot).delay ⟨0⟩).2

theorem trail_start : Trail {} start [({} : State).snapshot] := by
  have built : Trail {} terms [({} : State).snapshot] :=
    .change (.change (.change .start .fresh) .fresh)
      (.compound (.user 0) (by decide +kernel))
  exact .change built (.bind (by decide +kernel) (by decide +kernel) (by decide +kernel))

theorem trail_delayed : Trail start delayed [called.snapshot, start.snapshot] := by
  have posted : start.Changes (start.post apart).2 :=
    .post apart rfl (by decide +kernel) (by decide +kernel) (by decide +kernel)
  have registered : (start.post apart).2.Changes called :=
    .register (some .left) (by decide +kernel) (by decide +kernel)
  have bound : called.Changes (called.bind ⟨0⟩ ⟨1⟩) :=
    .bind (by decide +kernel) (by decide +kernel) (by decide +kernel)
  have discarded : (called.bind ⟨0⟩ ⟨1⟩).discard ⟨0⟩ = .ok settled := by decide +kernel
  have inner : Trail start settled ([] ++ called.snapshot :: [start.snapshot]) :=
    .change (.change (.snapshot (.change (.change .start posted) registered)) bound)
      (.discard discarded)
  have flagged : (settled.restore called.snapshot).arena.var? ⟨0⟩ = some
      { constraints := [⟨0⟩] } := by decide +kernel
  exact .change (.restore inner) (.delay (by decide +kernel) flagged rfl)

theorem back_at_start : start.Consistent ∧ Trail start delayed [called.snapshot, start.snapshot] ∧
    ∃ restores, delayed.restore start.snapshot =
      { start with counters := start.counters.record .restore restores } :=
  ⟨trail_start.consistent consistent_empty, trail_delayed,
    restore_inverts (trail_start.consistent consistent_empty) trail_delayed⟩

end Rewound

end Resolvent
