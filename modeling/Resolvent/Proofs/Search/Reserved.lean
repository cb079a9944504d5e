import Resolvent.Proofs.Search.Piles
import Resolvent.Proofs.Search.Asking

namespace Resolvent

def ProgramError.index : ProgramError → Nat
  | .notCompound index | .malformedClause index _ | .headNotCompound index
  | .reservedPredicate index _ => index

namespace Arena

variable {arena : Arena} {entry head : TermId} {index : Nat} {body : Option TermId}

def Definable (arena : Arena) (head : TermId) : Prop :=
  ∃ cell, arena.compound? (arena.deref head) = some cell ∧ cell.symbol.operator? = none

def Acceptable (arena : Arena) (entry : TermId) : Prop :=
  arena.Definable entry ∨
    ∃ cell head body, arena.compound? (arena.deref entry) = some cell ∧
      cell.symbol = .reserved .clause ∧ cell.args = [head, body] ∧ arena.Definable head

theorem ofHead_cases (arena : Arena) (index : Nat) (head : TermId) (body : Option TermId) :
    (∃ clause, Clause.ofHead arena index (arena.deref head) body = .ok clause) ∧
        arena.Definable head ∨
      (∃ reason, Clause.ofHead arena index (arena.deref head) body = .error reason ∧
        reason.index = index) ∧ ¬ arena.Definable head := by
  rw [Clause.ofHead]
  cases held : arena.compound? (arena.deref head) with
  | none =>
    refine .inr ⟨⟨_, rfl, rfl⟩, ?_⟩
    rintro ⟨cell, found, -⟩
    rw [held] at found
    cases found
  | some cell =>
    cases symbol : cell.symbol with
    | reserved operator =>
      refine .inr ⟨⟨.reservedPredicate index operator, by simp [symbol], rfl⟩, ?_⟩
      rintro ⟨other, found, free⟩
      cases held.symm.trans found
      rw [symbol] at free
      cases free
    | user place => exact .inl ⟨by simp [symbol], cell, held, by rw [symbol]; rfl⟩

theorem ofEntry_cases (arena : Arena) (index : Nat) (entry : TermId) :
    (∃ clause, Clause.ofEntry arena index entry = .ok clause) ∧ arena.Acceptable entry ∨
      (∃ reason, Clause.ofEntry arena index entry = .error reason ∧ reason.index = index) ∧
        ¬ arena.Acceptable entry := by
  simp only [Clause.ofEntry]
  cases held : arena.compound? (arena.deref entry) with
  | none =>
    refine .inr ⟨⟨_, rfl, rfl⟩, ?_⟩
    rintro (⟨cell, found, -⟩ | ⟨cell, -, -, found, -⟩) <;> simp [held] at found
  | some cell =>
    by_cases clause : cell.symbol = .reserved .clause
    · -- No fact is named as a clause, so only a head can be at fault.
      have named : ¬ arena.Definable entry := by
        rintro ⟨other, found, free⟩
        cases held.symm.trans found
        rw [clause] at free
        cases free
      have headed : arena.Acceptable entry ↔
          ∃ head body, cell.args = [head, body] ∧ arena.Definable head := by
        constructor
        · rintro (fact | ⟨other, head, body, found, -, args, definable⟩)
          · exact absurd fact named
          · cases held.symm.trans found
            exact ⟨head, body, args, definable⟩
        · rintro ⟨head, body, args, definable⟩
          exact .inr ⟨cell, head, body, held, clause, args, definable⟩
      simp only [clause, if_true, headed]
      rcases args : cell.args with _ | ⟨head, _ | ⟨body, _ | ⟨extra, more⟩⟩⟩
      · exact .inr ⟨⟨_, rfl, rfl⟩, by simp⟩
      · exact .inr ⟨⟨_, rfl, rfl⟩, by simp⟩
      · simpa using arena.ofHead_cases index head (some body)
      · exact .inr ⟨⟨_, rfl, rfl⟩, by simp⟩
    · simp only [clause, if_false]
      have fact : arena.Acceptable entry ↔ arena.Definable entry := by
        refine ⟨?_, .inl⟩
        rintro (definable | ⟨other, -, -, found, named, -⟩)
        · exact definable
        · cases held.symm.trans found
          exact absurd named clause
      rw [fact]
      exact arena.ofHead_cases index entry none

theorem clausesOf_cases (arena : Arena) (index : Nat) (entries : List TermId) :
    (∃ clauses, Program.clausesOf arena index entries = .ok clauses) ∧
        (∀ entry ∈ entries, arena.Acceptable entry) ∨
      ∃ reason before entry rest, Program.clausesOf arena index entries = .error reason ∧
        entries = before ++ entry :: rest ∧ (∀ earlier ∈ before, arena.Acceptable earlier) ∧
        ¬ arena.Acceptable entry ∧ reason.index = index + before.length := by
  -- Reading stops at the first entry at fault, so what comes after it is not told apart.
  induction entries generalizing index with
  | nil => exact .inl ⟨⟨[], rfl⟩, by simp⟩
  | cons entry entries ih =>
    rw [Program.clausesOf]
    rcases arena.ofEntry_cases index entry with ⟨⟨clause, read⟩, fine⟩ | ⟨⟨reason, failed, at'⟩, not⟩
    · rcases ih (index + 1) with
        ⟨⟨clauses, others⟩, all⟩ | ⟨reason, before, wrong, rest, failed, split, fines, not, at'⟩
      · exact .inl ⟨⟨clause :: clauses, by simp [read, others, Bind.bind, Except.bind, pure, Except.pure]⟩,
          List.forall_mem_cons.mpr ⟨fine, all⟩⟩
      · refine .inr ⟨reason, entry :: before, wrong, rest, ?_, by rw [split]; rfl,
          List.forall_mem_cons.mpr ⟨fine, fines⟩, not, ?_⟩
        · simp [read, failed, Bind.bind, Except.bind]
        · rw [at', List.length_cons]
          omega
    · exact .inr ⟨reason, [], entry, entries, by simp [failed, Bind.bind, Except.bind], rfl,
        by simp, not, at'⟩

theorem ofEntries_cases (arena : Arena) (entries : List TermId) :
    (∃ program, Program.ofEntries arena entries = .ok program) ∧
        (∀ entry ∈ entries, arena.Acceptable entry) ∨
      ∃ reason before entry rest, Program.ofEntries arena entries = .error reason ∧
        entries = before ++ entry :: rest ∧ (∀ earlier ∈ before, arena.Acceptable earlier) ∧
        ¬ arena.Acceptable entry ∧ reason.index = before.length := by
  rcases arena.clausesOf_cases 0 entries with
    ⟨⟨clauses, read⟩, all⟩ | ⟨reason, before, wrong, rest, failed, split, fine, not, at'⟩
  · exact .inl ⟨⟨_, by rw [Program.ofEntries, read]; rfl⟩, all⟩
  · refine .inr ⟨reason, before, wrong, rest, by rw [Program.ofEntries, failed]; rfl, split, fine,
      not, ?_⟩
    rw [at', Nat.zero_add]

end Arena

def Operator.arity? : Operator → Option Nat
  | .not => some 1
  | .conjunction | .disjunction | .equal | .unequal | .greater | .greaterEqual | .smaller
  | .smallerEqual => some 2
  | .clause | .arithmetic _ => none

/-- A compound that an operator names, with a number of arguments at which it means nothing. -/
def Arena.Uninterpreted (arena : Arena) (id : TermId) : Prop :=
  ∃ operator count, arena.operator? id = some (operator, count) ∧ operator.arity? ≠ some count

theorem form_reserved {operator : Operator} {args : List TermId} :
    formOf (.reserved operator) args = .predicate ↔ operator.arity? ≠ some args.length := by
  match args with
  | [] | [_] | [_, _] | _ :: _ :: _ :: _ =>
    cases operator <;> simp [formOf, Compound.form, Operator.arity?]

theorem Ledger.uninterpreted_iff {ledger : Ledger} {id : TermId} :
    ledger.arena.Uninterpreted id ↔ ∃ operator args,
      ledger.shape? id = some (.compound (.reserved operator) args) ∧
      formOf (.reserved operator) args = .predicate := by
  simp only [Arena.Uninterpreted, Arena.operator?, form_reserved]
  constructor
  · rintro ⟨operator, count, named, other⟩
    split at named
    · next cell held =>
      obtain ⟨symbol, args, active⟩ := cell
      have shape := (shape_of_compound held).1
      cases symbol with
      | user place => cases named
      | reserved operator =>
        cases named
        exact ⟨_, args, shape, other⟩
    · cases named
  · rintro ⟨operator, args, shape, other⟩
    refine ⟨operator, args.length, ?_, other⟩
    rw [node_compound shape]
    rfl

def Loaded (program : Program) (state : State) : Prop :=
  ∃ (first base : Ledger) (entries : List TermId), first.WellFormed ∧
    Program.ofEntries first.arena entries = .ok program ∧ base.WellFormed ∧ base.Extends first ∧
    Holds state base

structure Unreserved (program : Program) (ledger : Ledger) : Prop where
  wellFormed : ledger.WellFormed
  fits : program.Fits ledger
  calls : ∀ id ∈ ledger.calls, ∀ operator args,
    ledger.shape? id = some (.compound (.reserved operator) args) →
    formOf (.reserved operator) args ≠ .predicate

section

variable {program : Program} {state : State} {goal called : TermId} {limit : Nat}
  {config : Config} {ledger : Ledger} {parent : Option Nat}

theorem Ready.loaded (ready : Ready program state) : Loaded program state := by
  obtain ⟨first, ledger, entries, formed, accepted, wellFormed, grown, -, same⟩ := ready.grown
  exact ⟨first, ledger, entries, formed, accepted, wellFormed, grown, _, same⟩

theorem unreserved_enduring (program : Program) : Enduring program (Unreserved program) where
  wellFormed held := held.wellFormed
  fits held := held.fits
  advances {later ledger} held advances := by
    refine ⟨advances.wellFormed, held.fits.later advances.grown, fun id member => ?_⟩
    rw [advances.calls] at member
    obtain ⟨symbol, args, shape⟩ := held.wellFormed.calls_compound id member
    rw [advances.grown.shape shape, ← shape]
    exact held.calls id member
  register {ledger goal} choice held startable := by
    obtain ⟨symbol, args, shape, user⟩ := startable.shape
    refine ⟨held.wellFormed.register choice shape startable.idle,
      held.fits.later (ledger.register_extends goal choice), fun id member operator others known => ?_⟩
    rcases List.mem_append.mp member with old | new
    · exact held.calls id old operator others known
    · rw [List.mem_singleton.mp new] at known
      cases Option.some.inj (shape.symm.trans known)
      intro predicate
      obtain ⟨place, other⟩ := user predicate
      cases other

theorem Loaded.unreserved (loaded : Loaded program state) (idle : state.callDepth = 0) :
    ∃ ledger counters, state = ledger.state counters ∧ Unreserved program ledger := by
  obtain ⟨first, base, entries, formed, accepted, wellFormed, grown, counters, rfl⟩ := loaded
  have empty : base.calls = [] := by
    simpa [State.callDepth, Ledger.state] using idle
  exact ⟨base, counters, rfl, wellFormed, (Ledger.fits_ofEntries formed accepted).later grown,
    by simp [empty]⟩

theorem Loaded.piled (loaded : Loaded program state) (idle : state.callDepth = 0)
    (visited : Visited program (Search.opening goal limit state) config) :
    Piled (Unreserved program) config.2 := by
  obtain ⟨ledger, counters, rfl, unreserved⟩ := loaded.unreserved idle
  obtain ⟨past, history⟩ := visited.history
  refine history.piled (piled_opening unreserved) (fun _ => unreserved_enduring program) fun _ _ => ?_
  refine ⟨id, fun {ledger var} held isVar ends undelayed _ => ?_⟩
  have fresh : var ∉ ledger.delayed := by
    intro member
    rw [Ledger.isDelayed_of_mem (Ledger.live_of_shape isVar) isVar member] at undelayed
    cases undelayed
  exact ⟨held.wellFormed.delay isVar fresh, held.fits.later (ledger.delay_extends var), held.calls⟩

def Machine.refuse (machine : Machine) (parent : Option Nat) : Step × Machine :=
  if machine.depthLimit ≤ machine.state.callDepth then
    { (machine.record .goal).record .depthHit with truncated := true }.fail parent
  else (machine.record .goal).fail parent

theorem nextClause_none {machine : Machine} {counters : Counters} {symbol : Symbol}
    {args : List TermId} (state : machine.state = ledger.state counters)
    (shape : ledger.shape? goal = some (.compound symbol args))
    (missing : program.next? 0 symbol args.length = none) :
    (machine.push (.deduction goal 0 none) parent).nextClause program machine.frames.size =
      .ok (machine.fail parent) := by
  have held := Arena.compound?_eq_some.mpr (Ledger.node_compound shape)
  obtain ⟨frames, limit, truncated, _⟩ := machine
  obtain rfl := state
  simp [Machine.nextClause, Machine.push, Machine.pop, Machine.fail,
    require_live (Ledger.live_of_shape shape), held, missing, Bind.bind, Except.bind, pure,
    Except.pure]

theorem Unreserved.refuses (unreserved : Unreserved program ledger) {machine : Machine}
    {counters : Counters} (state : machine.state = ledger.state counters)
    (uninterpreted : ledger.arena.Uninterpreted (ledger.arena.deref called)) :
    machine.call program called parent = .ok (machine.refuse parent) := by
  obtain ⟨operator, args, shape, predicate⟩ := Ledger.uninterpreted_iff.mp uninterpreted
  have wellFormed := unreserved.wellFormed
  -- What is no term is read as a variable, and so is named by no operator.
  have live : ledger.Live called := by
    by_contra dead
    have unbound : ledger.arena.binding? called = none := by
      have free : ledger.shape? called = none := List.getElem?_eq_none (Nat.le_of_not_lt dead)
      rw [wellFormed.binding?_arena, wellFormed.binding?_free free]
    rw [Ledger.deref_of_unbound unbound] at shape
    exact dead (Ledger.live_of_shape shape)
  -- It is not there already, so it does not count as proven.
  have idle : ledger.arena.deref called ∉ ledger.calls := fun member =>
    unreserved.calls _ member operator args shape predicate
  have counted := Machine.record_state state .goal
  -- Clauses are about names of their own.
  have missing : program.next? 0 (.reserved operator) args.length = none := by
    cases found : program.next? 0 (.reserved operator) args.length with
    | none => rfl
    | some clause =>
      obtain ⟨place, same⟩ := user_of_next? unreserved.fits found
      cases same
  rw [Machine.call, Machine.refuse]
  simp only [counted, Ledger.arena_state, require_live live, Ledger.node_compound shape, idle,
    Bind.bind, Except.bind, decide_false, Bool.false_eq_true, if_false]
  have depth : (ledger.state (counters.record .goal 1)).callDepth = machine.state.callDepth := by
    rw [state]
    rfl
  have same : (machine.record .goal).depthLimit = machine.depthLimit := rfl
  rw [depth, same]
  by_cases cut : machine.depthLimit ≤ machine.state.callDepth
  · rw [if_pos cut, if_pos cut]
    rfl
  · rw [if_neg cut, if_neg cut, Machine.dispatch]
    simp only [show Compound.form { symbol := .reserved operator, args } = _ from predicate]
    exact nextClause_none counted shape missing

/-- Nothing happens to the stacks, no clause is expanded, and the goal has no answer. -/
theorem refuse_spec (machine : Machine) (parent : Option Nat) :
    ∃ later : Machine, machine.refuse parent = (.notify parent .exhausted, later) ∧
      later.frames = machine.frames ∧
      later.state = { machine.state with counters := later.state.counters } ∧
      later.state.counters.expansions = machine.state.counters.expansions := by
  rw [Machine.refuse]
  split <;> exact ⟨_, rfl, rfl, rfl, rfl⟩

/-- What is interpreted is not redefined. Entries make a program if each is a fact or a clause about
    a name of its own, and otherwise the first that is not is told. A goal that is named by an
    operator but not interpreted fails, and is never put on the call stack. -/
theorem reserved_names_kept :
    (∀ (arena : Arena) (entries : List TermId),
      ((∃ program, Program.ofEntries arena entries = .ok program) ↔
        ∀ entry ∈ entries, arena.Acceptable entry) ∧
      ∀ reason, Program.ofEntries arena entries = .error reason →
        ∃ before entry rest, entries = before ++ entry :: rest ∧
          (∀ earlier ∈ before, arena.Acceptable earlier) ∧ ¬ arena.Acceptable entry ∧
          reason.index = before.length) ∧
    ∀ (program : Program) (state : State), Loaded program state → state.callDepth = 0 →
      ∀ goal limit config, Visited program (Search.opening goal limit state) config →
        (∀ id ∈ config.2.state.callStack, ¬ config.2.state.arena.Uninterpreted id) ∧
        ∀ called parent, config.1 = .call called parent →
          config.2.state.arena.Uninterpreted (config.2.state.arena.deref called) →
          ∃ later : Machine,
            config.2.advance program config.1 = .ok (.notify parent .exhausted, later) ∧
            later.frames = config.2.frames ∧
            later.state = { config.2.state with counters := later.state.counters } ∧
            later.state.counters.expansions = config.2.state.counters.expansions := by
  refine ⟨fun arena entries => ?_, fun program state loaded idle goal limit config visited => ?_⟩
  · rcases arena.ofEntries_cases entries with
      ⟨⟨program, read⟩, all⟩ | ⟨reason, before, wrong, rest, failed, split, fine, not, at'⟩
    · refine ⟨⟨fun _ => all, fun _ => ⟨program, read⟩⟩, fun reason failed => ?_⟩
      cases read.symm.trans failed
    · refine ⟨⟨?_, fun all => absurd (all wrong (by simp [split])) not⟩, ?_⟩
      · rintro ⟨program, read⟩
        cases failed.symm.trans read
      · intro other same
        cases failed.symm.trans same
        exact ⟨before, wrong, rest, split, fine, not, at'⟩
  · obtain ⟨ledger, ⟨counters, same⟩, piles⟩ := loaded.piled idle visited
    have unreserved := piles.held
    refine ⟨fun id member uninterpreted => ?_, fun called parent calls uninterpreted => ?_⟩
    · rw [same] at member uninterpreted
      obtain ⟨operator, args, shape, predicate⟩ := Ledger.uninterpreted_iff.mp uninterpreted
      exact unreserved.calls id (by simpa [Ledger.state] using member) operator args shape predicate
    · rw [same] at uninterpreted
      obtain ⟨later, refused, rest⟩ := refuse_spec config.2 parent
      refine ⟨later, ?_, rest⟩
      rw [calls, ← refused]
      exact unreserved.refuses same uninterpreted

end

namespace Misnamed

def terms : List Shape :=
  [.compound (.user 0) [], .compound (.user 1) [],
    .compound (.reserved .conjunction) [⟨0⟩, ⟨0⟩, ⟨0⟩], .compound (.reserved .clause) [⟨1⟩, ⟨2⟩]]

def queryTerms : List Shape := [.compound (.user 1) []]

def program : Program where
  clauses := #[⟨⟨0⟩, none, .user 0, 0⟩, ⟨⟨1⟩, some ⟨2⟩, .user 1, 0⟩]

def state : State where
  arena := (Arena.build? {} (terms ++ queryTerms)).getD {}

theorem ready : Ready program state where
  accepted :=
    ⟨terms, queryTerms, [⟨0⟩, ⟨3⟩], (Arena.build? {} terms).getD {}, by decide +kernel, by rfl,
      by decide +kernel⟩
  untouched := rfl

def calling : Config := stepsFrom program 3 (Search.opening ⟨4⟩ 10 state)

theorem names_kept : Loaded program state ∧ state.callDepth = 0 ∧
    Visited program (Search.opening ⟨4⟩ 10 state) calling ∧ calling.1 = .call ⟨10⟩ (some 0) ∧
    calling.2.state.callStack = #[⟨4⟩, ⟨6⟩] ∧
    (∀ id ∈ calling.2.state.callStack, ¬ calling.2.state.arena.Uninterpreted id) ∧
    (∃ later : Machine, calling.2.advance program calling.1 =
      .ok (.notify (some 0) .exhausted, later) ∧ later.frames = calling.2.frames) ∧
    (∃ before entry rest, [(⟨0⟩ : TermId), ⟨2⟩] = before ++ entry :: rest ∧
      ¬ state.arena.Acceptable entry ∧ before.length = 1) := by
  obtain ⟨reads, runs⟩ := reserved_names_kept
  have idle : state.callDepth = 0 := by decide +kernel
  have visited : Visited program (Search.opening ⟨4⟩ 10 state) calling := Visited.start.steps 3
  have calls : calling.1 = .call ⟨10⟩ (some 0) := by decide +kernel
  have uninterpreted :
      calling.2.state.arena.Uninterpreted (calling.2.state.arena.deref ⟨10⟩) :=
    ⟨.conjunction, 3, by decide +kernel, by decide⟩
  obtain ⟨stack, refuses⟩ := runs program state ready.loaded idle ⟨4⟩ 10 calling visited
  obtain ⟨later, fails, frames, -⟩ := refuses ⟨10⟩ (some 0) calls uninterpreted
  have wrong : Program.ofEntries state.arena [⟨0⟩, ⟨2⟩] =
      .error (.reservedPredicate 1 .conjunction) := by decide +kernel
  obtain ⟨before, entry, rest, split, -, not, at'⟩ := (reads state.arena [⟨0⟩, ⟨2⟩]).2 _ wrong
  exact ⟨ready.loaded, idle, visited, calls, by decide +kernel, stack, ⟨later, fails, frames⟩,
    before, entry, rest, split, not, at'.symm⟩

end Misnamed

end Resolvent
