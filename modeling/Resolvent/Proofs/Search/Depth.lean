import Resolvent.Proofs.Search.Asking
import Resolvent.Proofs.Search.Uncut

namespace Resolvent

variable {program : Program}

namespace State

variable {state later : State}

theorem callDepth_restore (state : State) (undo : Snapshot) :
    (state.restore undo).callDepth = min undo.callStack state.callDepth := by
  simp [callDepth, restore, record, unbindTo, undelayTo, returnTo, undiscardTo, unpostTo, releaseTo,
    retraceTo]

theorem callDepth_register (state : State) (goal : TermId) (choice : Option Choice) :
    (state.register goal choice).2.callDepth = state.callDepth + 1 := by
  simp [callDepth, register]

theorem callDepth_matchHead {goal head equation : TermId} {names : Renaming}
    (matched : state.matchHead goal head = .ok (equation, names, later)) :
    later.callDepth = state.callDepth := by
  rw [matchHead_arena matched, callDepth, callDepth]

theorem callDepth_copyBody {body copy : TermId} {names named : Renaming}
    (copied : state.copyBody names body = .ok (copy, named, later)) :
    later.callDepth = state.callDepth := by
  rw [copyBody_arena copied, callDepth, callDepth]

end State

theorem Ledger.callDepth_perform {ledger : Ledger} (wellFormed : ledger.WellFormed)
    {left right : TermId} (leftLive : ledger.Live left) (rightLive : ledger.Live right)
    {builtin : Builtin} {counters : Counters} {reply : Reply} {later : State}
    (performed : (ledger.state counters).perform left right builtin = .ok (reply, later)) :
    later.callDepth = (ledger.state counters).callDepth := by
  obtain ⟨known, reached, -, performs, run⟩ :=
    Ledger.perform_spec wellFormed leftLive rightLive builtin
  obtain ⟨others, ran⟩ := run counters
  cases performed.symm.trans ran
  simp [State.callDepth, Ledger.state, (performs.advances wellFormed leftLive rightLive).calls]

def Frame.Below (limit : Nat) : Frame → Prop
  | .disjunction undo _ _ _ => undo.callStack < limit
  | .deduction _ _ (some expansion) => expansion.undo.callStack < limit
  | .deduction _ _ none | .once _ | .delegate _ | .conjunction _ _ _ | .negation _ _ => True

structure Machine.Shallow (machine : Machine) : Prop where
  depth : machine.state.callDepth ≤ machine.depthLimit
  frames : ∀ (place : Nat) (entry : Entry), machine.frames[place]? = some entry →
    entry.frame.Below machine.depthLimit

namespace Machine

variable {machine later : Machine} {frame : Frame} {parent : Option Nat} {index : Nat}
  {next : Step × Machine}

theorem Shallow.state (shallow : machine.Shallow) {state : State}
    (depth : state.callDepth ≤ machine.depthLimit) : Shallow { machine with state } :=
  ⟨depth, shallow.frames⟩

theorem Shallow.restore (shallow : machine.Shallow) (undo : Snapshot) :
    (machine.restore undo).Shallow := by
  apply shallow.state
  rw [State.callDepth_restore]
  exact Nat.le_trans (Nat.min_le_right _ _) shallow.depth

theorem Shallow.push (shallow : machine.Shallow) (below : frame.Below machine.depthLimit) :
    (machine.push frame parent).Shallow := by
  refine ⟨shallow.depth, fun place entry held => ?_⟩
  change (machine.frames.push ⟨frame, parent⟩)[place]? = some entry at held
  rw [Array.getElem?_push] at held
  split at held
  · cases held
    exact below
  · exact shallow.frames place entry held

theorem Shallow.setFrame (shallow : machine.Shallow) (below : frame.Below machine.depthLimit) :
    (machine.setFrame index frame parent).Shallow := by
  refine ⟨shallow.depth, fun place entry held => ?_⟩
  change (machine.frames.setIfInBounds index ⟨frame, parent⟩)[place]? = some entry at held
  rw [Array.getElem?_setIfInBounds] at held
  split at held
  · split at held
    · cases held
      exact below
    · cases held
  · exact shallow.frames place entry held

theorem Shallow.popped {rest : Array Entry} {entry : Entry} (shallow : machine.Shallow)
    (top : machine.frames = rest.push entry) : Shallow { machine with frames := rest } := by
  refine ⟨shallow.depth, fun place other held => shallow.frames place other ?_⟩
  have inside : place < rest.size := (Array.getElem?_eq_some_iff.mp held).1
  rw [top, Array.getElem?_push_lt inside, ← Array.getElem?_eq_getElem inside]
  exact held

theorem Shallow.shrink (shallow : machine.Shallow) (height : Nat) (truncated : Bool) :
    Shallow { machine with frames := machine.frames.shrink height, truncated } := by
  refine ⟨shallow.depth, fun place entry held => shallow.frames place entry ?_⟩
  change (machine.frames.shrink height)[place]? = some entry at held
  rw [get_shrink] at held
  split at held
  · exact held
  · cases held

theorem Shallow.answer (shallow : machine.Shallow) (undo : Option Snapshot) :
    (machine.answer undo parent).2.Shallow :=
  shallow.push trivial

/-- Where there is room for one more goal a deduction puts its goal on the call stack. -/
theorem Shallow.expand (shallow : machine.Shallow)
    (room : machine.state.callDepth < machine.depthLimit) {goal : TermId} {clause : Nat}
    (expanded : machine.expand program index goal clause parent = .ok next) : next.2.Shallow := by
  obtain ⟨found, equation, names, state, -, matched, rfl⟩ := expand_cases expanded
  have depth := State.callDepth_matchHead matched
  rw [State.callDepth_register] at depth
  refine (shallow.state ?_).setFrame room
  rw [depth]
  exact room

theorem Shallow.nextClause (shallow : machine.Shallow)
    (room : machine.state.callDepth < machine.depthLimit)
    (sought : machine.nextClause program index = .ok next) : next.2.Shallow := by
  obtain ⟨_, _, _, _, _, held, -, ⟨clause, -, expanded⟩ | ⟨later, popped, rfl⟩⟩ :=
    nextClause_cases sought
  · exact shallow.expand room expanded
  · obtain ⟨rest, top, -, rfl⟩ := pop_cases held popped
    exact shallow.popped top

theorem Shallow.conclude (shallow : machine.Shallow) (undo : Snapshot) (parent : Option Nat)
    (reply : Reply) : (machine.conclude undo parent reply).2.Shallow := by
  cases reply with
  | fails => exact shallow.restore undo
  | answers => exact shallow.answer _
  | delegates goal => exact shallow.push trivial

theorem Shallow.dispatch (shallow : machine.Shallow)
    (room : machine.state.callDepth < machine.depthLimit) {ledger : Ledger} {counters : Counters}
    (same : machine.state = ledger.state counters) (wellFormed : ledger.WellFormed) {goal : TermId}
    {cell : Compound} (node : machine.state.arena.node goal = .compound cell)
    (inactive : cell.active = false)
    (started : machine.dispatch program goal cell parent = .ok next) : next.2.Shallow := by
  have registered (choice : Option Choice) :
      Shallow { machine with state := (machine.state.register goal choice).2 } := by
    apply shallow.state
    rw [State.callDepth_register]
    exact room
  rw [same] at node
  obtain ⟨shape, active⟩ := Ledger.shape_of_compound node
  have idle : goal ∉ ledger.calls := by simpa [inactive] using active
  cases dispatch_cases started with
  | negation => exact Shallow.push ⟨(registered none).depth, (registered none).frames⟩ trivial
  | conjunction => exact (registered none).push trivial
  | disjunction => exact (registered (some .left)).push room
  | @builtin builtin left right _ _ form performed =>
    refine Shallow.conclude (shallow.state ?_) _ _ _
    have operands := operands_args cell
    rw [form] at operands
    have live (operand : TermId) (member : operand ∈ [left, right]) :=
      wellFormed.live_args shape operand (operands operand member)
    rw [same, Ledger.register_state] at performed
    rw [Ledger.callDepth_perform (wellFormed.register none shape idle)
      ((ledger.register_extends goal none).live (live left (by simp)))
      ((ledger.register_extends goal none).live (live right (by simp))) performed]
    have deeper := State.callDepth_register (ledger.state counters) goal none
    rw [Ledger.register_state, ← same] at deeper
    rw [deeper]
    exact room
  | predicate _ sought =>
    have entered : (machine.push (.deduction goal 0 none) parent).Shallow := shallow.push trivial
    exact entered.nextClause room sought

theorem Shallow.call (shallow : machine.Shallow) {ledger : Ledger} {counters : Counters}
    (same : machine.state = ledger.state counters) (wellFormed : ledger.WellFormed) {goal : TermId}
    (called : machine.call program goal parent = .ok next) : next.2.Shallow := by
  have counted : (machine.record .goal).Shallow := ⟨shallow.depth, shallow.frames⟩
  have state := record_state same .goal
  cases (call_cases called).2 with
  | holds => exact counted.answer none
  | delays =>
    refine Shallow.answer (counted.state ?_) _
    exact counted.depth
  | cuts => exact ⟨counted.depth, counted.frames⟩
  | starts compound idle room started =>
    exact counted.dispatch room state wellFormed compound idle started

theorem Shallow.redo (shallow : machine.Shallow) (asked : machine.redo = .ok next) :
    next.2.Shallow := by
  cases redo_cases asked with
  | empty => exact shallow
  | ends top => exact shallow.popped top
  | undoes top => exact (shallow.popped top).restore _

theorem Shallow.yielded (shallow : machine.Shallow) {entry : Entry}
    (held : machine.frames[index]? = some entry)
    (heard : machine.yielded program index entry = .ok next) : next.2.Shallow := by
  have below := shallow.frames index entry held
  obtain ⟨frame, above⟩ := entry
  cases yielded_cases heard with
  | forwards => exact shallow
  | onward => exact shallow.setFrame trivial
  | @refutes undo => exact (shallow.shrink index _).restore undo
  | resolves _ _ _ copied =>
    refine (shallow.state ?_).setFrame below
    rw [State.callDepth_copyBody copied]
    exact shallow.depth

/-- A disjunction or a deduction that goes on puts its goal on the call stack again, for which there is
    room once its last change is undone. -/
theorem room_restore {undo : Snapshot} (low : undo.callStack < machine.depthLimit) :
    (machine.restore undo).state.callDepth < machine.depthLimit := by
  change (machine.state.restore undo).callDepth < machine.depthLimit
  rw [State.callDepth_restore]
  exact Nat.lt_of_le_of_lt (Nat.min_le_left _ _) low

theorem Shallow.turnRight (shallow : machine.Shallow) {undo : Snapshot} {goal right : TermId}
    (low : undo.callStack < machine.depthLimit)
    (turned : machine.turnRight index undo goal right parent = .ok next) : next.2.Shallow := by
  simp only [Machine.turnRight, Bind.bind, Except.bind] at turned
  split at turned
  · cases turned
  · cases turned
    refine Shallow.setFrame ((shallow.restore undo).state ?_) (room_restore low)
    rw [State.callDepth_register]
    exact room_restore low

theorem Shallow.exhausted (shallow : machine.Shallow) {entry : Entry}
    (held : machine.frames[index]? = some entry)
    (heard : machine.exhausted program index entry = .ok next) : next.2.Shallow := by
  have below := shallow.frames index entry held
  obtain ⟨frame, above⟩ := entry
  cases exhausted_cases held heard with
  | @closes _ _ undo top => exact (shallow.popped top).restore undo
  | retries => exact shallow.setFrame trivial
  | turns turned => exact shallow.turnRight below turned
  | @doubts _ undo _ top => exact (shallow.popped top).restore undo
  | @refutes rest _ aside top =>
    have told : Shallow { machine with frames := rest, truncated := aside } :=
      ⟨shallow.depth, (shallow.popped top).frames⟩
    exact told.answer _
  | reopens => exact shallow.setFrame below
  | @seeks _ start goal expansion _ outside sought =>
    have idle : (machine.setFrame index (.deduction goal start none) above).Shallow :=
      shallow.setFrame trivial
    exact (idle.restore expansion.undo).nextClause (@room_restore _ expansion.undo below) sought

theorem Shallow.advance (shallow : machine.Shallow) {step : Step} {ledger : Ledger}
    {counters : Counters} (same : machine.state = ledger.state counters)
    (wellFormed : ledger.WellFormed) (advances : machine.advance program step = .ok next) :
    next.2.Shallow := by
  cases step with
  | call goal parent => exact shallow.call same wellFormed advances
  | redo => exact shallow.redo advances
  | notify target signal =>
    cases target with
    | none =>
      cases advances
      exact shallow
    | some index =>
      obtain ⟨entry, held, ⟨rfl, heard⟩ | ⟨rfl, heard⟩⟩ := notify_cases advances
      · exact shallow.yielded held heard
      · exact shallow.exhausted held heard

end Machine

/-- Wherever a search stands that was started with nothing called, no more goals are on the call stack
    than its depth limit allows. -/
theorem Visited.shallow {state : State} {goal : TermId} (poised : Poised program state goal)
    (idle : state.callDepth = 0) {limit : Nat} {config : Config}
    (visited : Visited program (Search.opening goal limit state) config) :
    config.2.Shallow ∧ config.2.depthLimit = limit := by
  obtain ⟨base, ⟨counters, rfl⟩, wellFormed, fits, live⟩ := poised
  induction visited with
  | start =>
    refine ⟨⟨?_, by simp [Search.opening, Search.machine, Search.start]⟩, rfl⟩
    change (base.state counters).callDepth ≤ limit
    omega
  | @step config next visited advances ih =>
    obtain ⟨shallow, same⟩ := ih
    refine ⟨?_, (advance_depthLimit advances).trans same⟩
    rcases (visited.underway wellFormed fits live).orderly with ⟨ledger, orderly⟩ | ⟨signal, final⟩
    · obtain ⟨others, state⟩ := orderly.state
      exact shallow.advance state orderly.wellFormed advances
    · obtain ⟨step, machine⟩ := config
      obtain rfl : step = .notify none signal := final
      cases advances
      exact shallow
  | resume others _ ih => exact ⟨⟨ih.1.depth, ih.1.frames⟩, ih.2⟩

end Resolvent
