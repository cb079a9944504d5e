import Resolvent.Proofs.Search.Layers

namespace Resolvent

section

variable {program : Program} {called : Nat → Option Call} {floor : Floor}

section

variable {rest : List (Option Mark)} {base later : Ledger} {here : Call} {goal : TermId}

theorem Layers.fresh_inside (below : Layers program called floor rest base)
    (opening : Opening called rest.length base here) (wellFormed : later.WellFormed)
    (fresh : later.arena.Callable (builtSince base.size) goal) :
    later.arena.Callable (avoiding (ancestors called (rest.length + 1) (some rest.length))) goal := by
  refine Ledger.callable_imp wellFormed fresh fun other _ _ _ new member => ?_
  rw [ancestors_top opening.opened] at member
  have live : base.Live other := by
    rcases List.mem_cons.mp member with rfl | inner
    · obtain ⟨symbol, args, shape⟩ := opening.shape
      exact Ledger.live_of_shape shape
    · exact ancestors_live below inner
  exact absurd live (Nat.not_lt_of_le new)

theorem Layers.fresh (layers : Layers program called floor rest base)
    (wellFormed : later.WellFormed) (fresh : later.arena.Callable (builtSince base.size) goal)
    (target : Option Nat) :
    later.arena.Callable (avoiding (ancestors called rest.length target)) goal :=
  Ledger.callable_imp wellFormed fresh fun _ _ _ _ new member =>
    absurd (ancestors_live layers member) (Nat.not_lt_of_le new)

theorem Ledger.callable_inside (opened : called rest.length = some here)
    (wellFormed : base.WellFormed)
    (callable : base.arena.Callable (avoiding (ancestors called rest.length here.parent)) here.goal)
    {symbol : Symbol} {args : List TermId}
    (shape : base.shape? here.goal = some (.compound symbol args)) :
    ∀ goal ∈ (formOf symbol args).goals, base.arena.Callable
      (avoiding (ancestors called (rest.length + 1) (some rest.length))) goal := by
  intro goal member
  have inner := (Ledger.callable_goals callable shape).2 goal member
  have older := wellFormed.args_older shape goal (goals_args goal member)
  refine Ledger.callable_imp wellFormed inner fun other _ _ low avoids listed => ?_
  rw [ancestors_top opened] at listed
  rcases List.mem_cons.mp listed with rfl | above
  · exact absurd low (Nat.not_le_of_lt older)
  · exact avoids above

theorem Layers.enter (below : Layers program called floor rest base)
    (opening : Opening called rest.length base here) {mark : Mark}
    (suits : mark.Suits called rest.length base here) (low : floor.height ≤ rest.length)
    {choice : Option Choice} (advances : later.Advances (base.register here.goal choice)) :
    Layers program called floor (some mark :: rest) later := by
  obtain ⟨symbol, args, shape⟩ := opening.shape
  have grown := advances.grown.trans (base.register_extends here.goal choice)
  exact .noted below opening suits (advances.quiet (below.quiet.register shape opening.idle choice))
    grown advances.calls fun _ => grown.trans (below.bears low)

theorem Layers.top {mark : Mark} {ledger : Ledger}
    (layers : Layers program called floor (some mark :: rest) ledger) :
    ∃ base here, Layers program called floor rest base ∧ Opening called rest.length base here ∧
      mark.Suits called rest.length base here ∧ ledger.Extends base := by
  cases layers with
  | noted below opening suits _ grown => exact ⟨_, _, below, opening, suits, grown⟩

/-- What lies below the frame on top of the stack, which has put its goal on the call stack. -/
theorem Layers.last {frames rest : Array Entry} {entry : Entry} {mark : Mark} {ledger : Ledger}
    (layers : Layers program called floor (marks frames) ledger) (top : frames = rest.push entry)
    (marked : entry.frame.mark = some mark) :
    ∃ base here, Layers program called floor (marks rest) base ∧ Opening called rest.size base here ∧
      mark.Suits called rest.size base here ∧ ledger.Extends base := by
  rw [top, marks_push, marked] at layers
  obtain ⟨base, here, below, opening, suits, grown⟩ := layers.top
  rw [length_marks] at opening suits
  exact ⟨base, here, below, opening, suits, grown⟩

end

structure Recalls (program : Program) (called : Nat → Option Call) (floor : Floor)
    (config : Config) (ledger : Ledger) : Prop where
  state : ∃ counters, config.2.state = ledger.state counters
  layers : Layers program called floor (marks config.2.frames) ledger
  callable : ∀ goal parent, config.1 = .call goal parent → ledger.arena.Callable
    (avoiding (ancestors called config.2.frames.size parent)) goal

def Recalled (program : Program) (called : Nat → Option Call) (floor : Floor) (config : Config) :
    Prop := ∃ ledger, Recalls program called floor config ledger

section

variable {machine later : Machine} {ledger base : Ledger} {counters : Counters} {here : Call}
  {next : Config} {parent : Option Nat} {index : Nat} {frames : Array Entry}

theorem recalled_heard {target : Option Nat} {signal : Signal}
    (state : machine.state = ledger.state counters)
    (layers : Layers program called floor (marks machine.frames) ledger) :
    Recalled program called floor (.notify target signal, machine) :=
  ⟨ledger, ⟨counters, state⟩, layers, fun _ _ calls => nomatch calls⟩

theorem recalled_backtrack {undo : Snapshot} (state : machine.state = ledger.state counters)
    (wellFormed : ledger.WellFormed) (grown : ledger.Extends base) (same : undo = base.snapshot)
    (layers : Layers program called floor (marks machine.frames) base) :
    Recalled program called floor (machine.backtrack undo parent) :=
  recalled_heard (Machine.restore_state state wellFormed grown same) layers

theorem recalled_enter {frame : Frame} {goal : TermId}
    (state : machine.state = ledger.state counters)
    (layers : Layers program called floor (frame.mark :: marks machine.frames) ledger)
    (callable : ledger.arena.Callable (avoiding
      (ancestors called (machine.frames.size + 1) (some machine.frames.size))) goal) :
    Recalled program called floor (machine.enter frame parent goal) := by
  refine ⟨ledger, ⟨counters, state⟩, ?_, ?_⟩
  · simpa [Machine.enter, Machine.push] using layers
  · rintro _ _ ⟨⟩
    simpa [Machine.enter, Machine.push] using callable

theorem recalled_answer {undo : Option Snapshot} (state : machine.state = ledger.state counters)
    (layers : Layers program called floor ((Frame.once undo).mark :: marks machine.frames) ledger) :
    Recalled program called floor (machine.answer undo parent) :=
  recalled_heard state (by simpa [Machine.push] using layers)

theorem next?_le {start arity clause : Nat} {symbol : Symbol}
    (found : program.next? start symbol arity = some clause) : start ≤ clause := by
  simp only [Program.next?, Option.map_eq_some_iff] at found
  obtain ⟨offset, -, rfl⟩ := found
  exact Nat.le_add_right _ _

theorem recalled_expand {frame : Frame} {start clause : Nat}
    (below : Layers program called floor (marks frames) base)
    (opening : Opening called frames.size base here) (state : machine.state = base.state counters)
    (top : machine.frames = frames.push ⟨frame, parent⟩) (later : start ≤ clause)
    (high : floor.height ≤ frames.size ∨ ∃ other above,
      next.2.frames[frames.size]? = some ⟨.deduction here.goal start other, above⟩)
    (expanded : machine.expand program frames.size here.goal clause parent = .ok next) :
    Recalled program called floor next := by
  obtain ⟨symbol, args, shape⟩ := opening.shape
  have registered := below.quiet.register shape opening.idle (some (.clause clause))
  obtain ⟨found, equation, names, reached, listed, made, rfl⟩ := Machine.expand_cases expanded
  rw [Machine.record_state state, Ledger.register_state] at made
  obtain ⟨after, rfl, matched⟩ := Ledger.matchHead_ok registered.wellFormed
    (Ledger.live_of_shape shape) (registered.fits.headLive listed) made
  have grown := matched.grows registered.wellFormed
  have set (other : Frame) : machine.frames.setIfInBounds frames.size ⟨other, parent⟩ =
      frames.push ⟨other, parent⟩ := by rw [top, set_push]
  simp only [Machine.setFrame] at high ⊢
  -- A frame that was there before the step cannot have the number of the next clause.
  have low : floor.height ≤ frames.size := by
    rcases high with low | ⟨other, above, known⟩
    · exact low
    · simp only [set, Array.getElem?_push_size, Option.some.injEq, Entry.mk.injEq,
        Frame.deduction.injEq] at known
      omega
  have suits : Mark.Suits ⟨base.snapshot, some here.goal, none⟩ called (marks frames).length base
      here :=
    ⟨rfl, by simp, by simp⟩
  have inside : Opening called (marks frames).length base here := by simpa using opening
  have layers := below.enter inside suits (by simpa using low) grown.advances
  have callable := below.fresh_inside inside grown.wellFormed (matched.fresh registered.wellFormed)
  refine ⟨after, ⟨_, rfl⟩, ?_, ?_⟩
  · simpa [set, Frame.mark, Machine.record_state state] using layers
  · rintro _ _ ⟨⟩
    simpa [set] using callable

/-- A deduction puts its goal on the call stack again with its next clause, or ends. -/
theorem recalled_nextClause {start : Nat} {current : Option Expansion}
    (below : Layers program called floor (marks frames) base)
    (opening : Opening called frames.size base here) (state : machine.state = base.state counters)
    (top : machine.frames = frames.push ⟨.deduction here.goal start current, parent⟩)
    (high : floor.height ≤ frames.size ∨ ∃ other above,
      next.2.frames[frames.size]? = some ⟨.deduction here.goal start other, above⟩)
    (sought : machine.nextClause program frames.size = .ok next) :
    Recalled program called floor next := by
  have held : machine.frames[frames.size]? =
      some ⟨.deduction here.goal start current, parent⟩ := by simp [top]
  obtain ⟨_, _, _, _, cell, same, -, sought⟩ := Machine.nextClause_cases sought
  cases held.symm.trans same
  rcases sought with ⟨clause, listed, expanded⟩ | ⟨later, popped, rfl⟩
  · exact recalled_expand below opening state top (next?_le listed) high expanded
  · obtain ⟨rest, whole, -, rfl⟩ := Machine.pop_cases held popped
    obtain ⟨-, rfl⟩ := Array.push_eq_push.mp (top.symm.trans whole)
    exact @recalled_heard program called floor { machine with frames } base counters _ _ state below

theorem recalled_conclude {reached : Ledger} {others : Counters} {reply : Reply}
    (below : Layers program called floor (marks machine.frames) ledger)
    (opening : Opening called (marks machine.frames).length ledger here)
    (layers : Layers program called floor
      (some ⟨ledger.snapshot, none, none⟩ :: marks machine.frames) reached)
    (grown : reached.Extends ledger)
    (fresh : ∀ goal, reply = .delegates goal →
      reached.arena.Callable (builtSince ledger.size) goal) :
    Recalled program called floor
      ({ machine with state := reached.state others }.conclude ledger.snapshot parent reply) := by
  have wellFormed := layers.quiet.wellFormed
  cases reply with
  | fails =>
    exact @recalled_backtrack program called floor { machine with state := reached.state others }
      reached ledger others parent ledger.snapshot rfl wellFormed grown rfl below
  | answers =>
    exact @recalled_answer program called floor { machine with state := reached.state others }
      reached others parent (some ledger.snapshot) rfl layers
  | delegates goal =>
    have callable := below.fresh_inside opening wellFormed (fresh goal rfl)
    exact @recalled_enter program called floor { machine with state := reached.state others }
      reached others parent (.delegate ledger.snapshot) goal rfl layers (by simpa using callable)

theorem recalled_dispatch {cell : Compound}
    (below : Layers program called floor (marks machine.frames) ledger)
    (opening : Opening called machine.frames.size ledger here)
    (state : machine.state = ledger.state counters) (low : floor.height ≤ machine.frames.size)
    (callable : ledger.arena.Callable
      (avoiding (ancestors called machine.frames.size here.parent)) here.goal)
    (shape : ledger.shape? here.goal = some (.compound cell.symbol cell.args))
    (started : machine.dispatch program here.goal cell parent = .ok next) :
    Recalled program called floor next := by
  have inside : Opening called (marks machine.frames).length ledger here := by simpa using opening
  have beneath : floor.height ≤ (marks machine.frames).length := by simpa using low
  have registered (choice : Option Choice) := below.quiet.register shape opening.idle choice
  have inner : ∀ goal ∈ cell.form.goals, ledger.arena.Callable (avoiding
      (ancestors called (machine.frames.size + 1) (some machine.frames.size))) goal := by
    have goals := @Ledger.callable_inside called (marks machine.frames) ledger here inside.opened
      below.quiet.wellFormed (by simpa using callable) cell.symbol cell.args shape
    simp only [length_marks] at goals
    exact goals
  -- A frame is pushed that keeps where its goal was called.
  have entered {mark : Mark} {choice : Option Choice} {later : Ledger}
      (advances : later.Advances (ledger.register here.goal choice))
      (undo : mark.undo = ledger.snapshot)
      (again : ∀ goal, mark.again = some goal → goal = here.goal)
      (pending : ∀ goal, mark.pending = some goal → goal ∈ cell.form.goals) :
      Layers program called floor (some mark :: marks machine.frames) later := by
    have suits : mark.Suits called (marks machine.frames).length ledger here :=
      ⟨undo, again, fun goal same => by simpa using inner goal (pending goal same)⟩
    exact below.enter inside suits beneath advances
  have kept (choice : Option Choice) := Ledger.Advances.refl (registered choice).wellFormed
  have starts {goal : TermId} (choice : Option Choice) (member : goal ∈ cell.form.goals) :=
    Ledger.callable_later (ledger.register_extends here.goal choice) (inner goal member)
  cases Machine.dispatch_cases started with
  | @negation negated form =>
    simp only [form, Form.goals] at starts entered
    simp only [Machine.negation, state, Ledger.register_state]
    exact @recalled_enter program called floor
      { machine with
        state := (ledger.register here.goal none).state counters
        truncated := false } _ counters parent
      (.negation ledger.snapshot machine.truncated) negated rfl
      (entered (kept _) rfl (by simp) (by simp)) (starts none (by simp))
  | @conjunction left right form =>
    simp only [form, Form.goals] at starts entered
    simp only [state, Ledger.register_state, Ledger.snapshot_state]
    exact @recalled_enter program called floor
      { machine with state := (ledger.register here.goal none).state counters } _ counters parent
      (.conjunction ledger.snapshot right .left) left rfl
      (entered (kept _) rfl (by simp) (by simp)) (starts none (by simp))
  | @disjunction left right form =>
    simp only [form, Form.goals] at starts entered
    simp only [state, Ledger.register_state, Ledger.snapshot_state]
    exact @recalled_enter program called floor
      { machine with state := (ledger.register here.goal (some .left)).state counters } _ counters
      parent (.disjunction ledger.snapshot here.goal right .left) left rfl
      (entered (kept _) rfl (by simp) (by simp)) (starts _ (by simp))
  | @builtin builtin left right reply reached form performed =>
    rw [state, Ledger.register_state] at performed
    rw [state, Ledger.snapshot_state]
    have grown := ledger.register_extends here.goal none
    have form : formOf cell.symbol cell.args = .builtin builtin left right := form
    obtain ⟨leftLive, rightLive⟩ := below.quiet.wellFormed.live_sides shape form
    obtain ⟨later, others, rfl, advances, fresh⟩ := Ledger.perform_fresh form
      (registered none).wellFormed (registered none).undelayed (grown.live leftLive)
      (grown.live rightLive) performed
    exact recalled_conclude below inside (entered advances rfl (by simp) (by simp))
      (advances.grown.trans grown) fun goal same =>
        Ledger.callable_imp advances.wellFormed (fresh goal same) fun _ _ _ _ new =>
          Nat.le_trans grown.size_le new
  | predicate _ sought =>
    exact @recalled_nextClause program called floor
      (machine.push (.deduction here.goal 0 none) parent) ledger counters here next parent
      machine.frames 0 none below opening state rfl (.inl low) sought

theorem recalled_call {goal : TermId}
    (recalls : Recalls program called floor (.call goal parent, machine) ledger)
    (opened : called machine.frames.size =
      some ⟨parent, machine.state.arena.deref goal, machine.state.callDepth⟩)
    (low : floor.height ≤ machine.frames.size)
    (started : machine.call program goal parent = .ok next) :
    Recalled program called floor next := by
  obtain ⟨⟨counters, state⟩, layers, callable⟩ := recalls
  have state : machine.state = ledger.state counters := state
  have callable := callable goal parent rfl
  have quiet := layers.quiet
  have counted := Machine.record_state state .goal
  have same : ledger.arena.deref goal = goal := Ledger.callable_deref callable quiet.wellFormed
  have depth (counters : Counters) : (ledger.state counters).callDepth = ledger.calls.length := by
    simp [State.callDepth, Ledger.state]
  simp only [state, Ledger.arena_state, same, depth] at opened
  have outcome := (Machine.call_cases started).2
  rw [state, Ledger.arena_state, same] at outcome
  cases outcome with
  | holds =>
    have silent : Layers program called floor ((Frame.once none).mark :: marks machine.frames)
        ledger :=
      .silent layers (by simpa using opened) (Ledger.callable_live callable) quiet (.refl ledger) rfl
        fun _ => layers.bears (by simpa using low)
    exact recalled_answer counted silent
  | delays var =>
    rw [counted, Ledger.arena_state] at var
    rcases Ledger.callable_cases callable with ⟨value, shape⟩ | ⟨symbol, args, shape, -⟩
    · simp only [Ledger.node_number shape] at var
      cases var
    · simp only [Ledger.node_compound shape] at var
      cases var
  | cuts => exact recalled_heard (Machine.record_state counted .depthHit) layers
  | starts compound idle _ started =>
    rw [counted, Ledger.arena_state] at compound
    obtain ⟨shape, active⟩ := Ledger.shape_of_compound compound
    have opening : Opening called machine.frames.size ledger ⟨parent, goal, ledger.calls.length⟩ :=
      ⟨opened, ⟨_, _, shape⟩, by simpa [active] using idle, rfl⟩
    exact @recalled_dispatch program called floor (machine.record .goal) ledger _
      ⟨parent, goal, ledger.calls.length⟩ next parent _ layers opening counted low callable shape
      started

theorem recalled_redo (recalls : Recalls program called floor (.redo, machine) ledger)
    (asked : machine.redo = .ok next) : Recalled program called floor next := by
  obtain ⟨⟨counters, state⟩, layers, -⟩ := recalls
  have state : machine.state = ledger.state counters := state
  have layers : Layers program called floor (marks machine.frames) ledger := layers
  cases Machine.redo_cases asked with
  | empty => exact recalled_heard state layers
  | @ends rest parent top =>
    rw [top, marks_push] at layers
    cases layers with
    | silent below _ _ quiet grown calls =>
      exact @recalled_heard program called floor { machine with frames := rest } ledger counters parent
        .exhausted state (below.grow quiet grown calls)
  | @undoes rest undo parent top =>
    obtain ⟨base, here, below, -, suits, grown⟩ := layers.last top rfl
    exact @recalled_backtrack program called floor { machine with frames := rest } ledger base counters
      parent undo state layers.quiet.wellFormed grown suits.undo below

theorem Layers.at {entry : Entry} {mark : Mark}
    (layers : Layers program called floor (marks machine.frames) ledger)
    (held : machine.frames[index]? = some entry) (marked : entry.frame.mark = some mark) :
    ∃ base here, Layers program called floor (marks (machine.frames.shrink index)) base ∧
      Opening called index base here ∧ mark.Suits called index base here ∧ ledger.Extends base := by
  have low := (Array.getElem?_eq_some_iff.mp held).1
  obtain ⟨above, split⟩ := marks_split held
  rw [split, marked] at layers
  obtain ⟨middle, inner, grown⟩ := layers.drop
  obtain ⟨base, here, below, opening, suits, before⟩ := inner.top
  have height : (marks (machine.frames.shrink index)).length = index := by
    simp [Nat.le_of_lt low]
  rw [height] at opening suits
  exact ⟨base, here, below, opening, suits, grown.trans before⟩

theorem recalled_set {entry : Entry} {frame : Frame} {step : Step}
    (state : machine.state = ledger.state counters)
    (layers : Layers program called floor (marks machine.frames) ledger)
    (held : machine.frames[index]? = some entry) (same : frame.mark = entry.frame.mark)
    (callable : ∀ goal target, step = .call goal target → target = some index ∧
      ledger.arena.Callable (avoiding (ancestors called machine.frames.size (some index))) goal) :
    Recalled program called floor (step, machine.setFrame index frame parent) := by
  refine ⟨ledger, ⟨counters, state⟩, ?_, ?_⟩
  · simpa only [Machine.setFrame, marks_set held same] using layers
  · intro goal target calls
    obtain ⟨rfl, allowed⟩ := callable goal target calls
    simpa only [Machine.setFrame, Array.size_setIfInBounds] using allowed

theorem recalled_yielded {entry : Entry}
    (recalls : Recalls program called floor (.notify (some index) .yielded, machine) ledger)
    (held : machine.frames[index]? = some entry)
    (heard : machine.yielded program index entry = .ok next) :
    Recalled program called floor next := by
  obtain ⟨⟨counters, state⟩, layers, -⟩ := recalls
  have state : machine.state = ledger.state counters := state
  have quiet := layers.quiet
  have low := (Array.getElem?_eq_some_iff.mp held).1
  obtain ⟨frame, above⟩ := entry
  cases Machine.yielded_cases heard with
  | forwards => exact recalled_heard state layers
  | @onward undo right =>
    obtain ⟨base, here, -, -, suits, grown⟩ := layers.at held rfl
    refine recalled_set state layers held rfl ?_
    rintro _ _ ⟨⟩
    rw [ancestors_frame low]
    exact ⟨rfl, Ledger.callable_later grown (suits.pending right rfl)⟩
  | @refutes undo aside =>
    obtain ⟨base, here, below, -, suits, grown⟩ := layers.at held rfl
    exact @recalled_backtrack program called floor
      { machine with frames := machine.frames.shrink index, truncated := aside || machine.truncated }
      ledger base counters above undo state quiet.wellFormed grown suits.undo below
  | @resolves goal body copy start expansion clause names _ listed has _ made =>
    rw [state] at made
    obtain ⟨later, rfl, copied⟩ := Ledger.copyBody_ok quiet.wellFormed
      (quiet.fits.body listed has) made
    have grown := copied.grows quiet.wellFormed
    have further := grown.advances.quiet quiet
    have copies := (copied.copies quiet.wellFormed).2 (body, copy) (by simp)
    have fresh : later.arena.Callable (builtSince ledger.size) copy :=
      copies.callable (further.bodies clause (Array.mem_of_getElem? listed) body has)
        fun _ _ _ _ new _ => new
    refine @recalled_set program called floor { machine with state := later.state counters } later
      counters above index _ _ _ rfl (layers.grow further grown.extends grown.advances.calls) held rfl
      ?_
    rintro _ _ ⟨⟩
    exact ⟨rfl, by simpa using layers.fresh further.wellFormed fresh (some index)⟩

theorem recalled_turnRight {undo : Snapshot} {goal right : TermId}
    (state : machine.state = ledger.state counters)
    (layers : Layers program called floor (marks machine.frames) ledger)
    (top : machine.frames = frames.push ⟨.disjunction undo goal right .left, parent⟩)
    (low : floor.height ≤ frames.size ∨
      next.2.frames[frames.size]? = some ⟨.disjunction undo goal right .left, parent⟩)
    (turned : machine.turnRight frames.size undo goal right parent = .ok next) :
    Recalled program called floor next := by
  obtain ⟨base, here, below, opening, suits, grown⟩ := layers.last top rfl
  obtain rfl : goal = here.goal := suits.again goal rfl
  have restored := Machine.restore_state state layers.quiet.wellFormed grown suits.undo
  simp only [Machine.turnRight, restored, Ledger.register_state, Bind.bind, Except.bind] at turned
  split at turned
  · cases turned
  · cases turned
    have low : floor.height ≤ frames.size := by
      rcases low with low | same
      · exact low
      · simp [Machine.setFrame, Machine.restore, top, set_push] at same
    have inside : Opening called (marks frames).length base here := by simpa using opening
    have kept : Mark.Suits ⟨base.snapshot, some here.goal, some right⟩ called (marks frames).length
        base here :=
      ⟨rfl, by simp, by simpa using suits.pending⟩
    obtain ⟨symbol, args, shape⟩ := opening.shape
    have registered := below.quiet.register shape opening.idle (some .right)
    refine ⟨_, ⟨_, rfl⟩, ?_, ?_⟩
    · have entered := below.enter inside kept (by simpa using low) (.refl registered.wellFormed)
      simpa [Machine.setFrame, Machine.restore, top, set_push, Frame.mark] using entered
    · rintro _ _ ⟨⟩
      have pending := Ledger.callable_later (base.register_extends here.goal (some .right))
        (suits.pending right rfl)
      simpa [Machine.setFrame, Machine.restore, top, set_push] using pending

theorem recalled_exhausted {entry : Entry}
    (recalls : Recalls program called floor (.notify (some index) .exhausted, machine) ledger)
    (held : machine.frames[index]? = some entry)
    (last : entry.frame.branch? = some .left → machine.frames.size = index + 1)
    (high : floor.height ≤ machine.frames.size)
    (kept : ∀ place, place + 1 = floor.height → next.2.frames[place]? = machine.frames[place]?)
    (heard : machine.exhausted program index entry = .ok next) :
    Recalled program called floor next := by
  obtain ⟨⟨counters, state⟩, layers, -⟩ := recalls
  have state : machine.state = ledger.state counters := state
  have layers : Layers program called floor (marks machine.frames) ledger := layers
  have wellFormed := layers.quiet.wellFormed
  -- A frame on top that goes on lies above the floor, or is as it was.
  have lies {rest : Array Entry} (top : machine.frames = rest.push entry) :
      floor.height ≤ rest.size ∨ next.2.frames[rest.size]? = some entry := by
    rcases Nat.lt_or_eq_of_le high with lower | same
    · simp only [top, Array.size_push] at lower
      exact .inl (by omega)
    · refine .inr ((kept rest.size (by simp [same, top])).trans ?_)
      rw [top, Array.getElem?_push_size]
  obtain ⟨frame, above⟩ := entry
  cases Machine.exhausted_cases held heard with
  | @closes rest _ undo top takes =>
    obtain ⟨mark, marked, rfl⟩ := Frame.mark_of_undone takes
    obtain ⟨base, here, below, -, suits, grown⟩ := layers.last top marked
    exact @recalled_backtrack program called floor { machine with frames := rest } ledger base counters
      above _ state wellFormed grown suits.undo below
  | retries => exact recalled_set state layers held rfl (by simp)
  | turns turned =>
    obtain ⟨frames, top, rfl⟩ := Machine.push_of_last held (last rfl)
    exact recalled_turnRight state layers top (lies top) turned
  | @doubts rest undo _ top =>
    obtain ⟨base, here, below, -, suits, grown⟩ := layers.last top rfl
    exact @recalled_backtrack program called floor { machine with frames := rest } ledger base counters
      above undo state wellFormed grown suits.undo below
  | @refutes rest undo aside top =>
    rw [top, marks_push] at layers
    exact @recalled_answer program called floor { machine with frames := rest, truncated := aside }
      ledger counters above (some undo) state layers
  | reopens => exact recalled_set state layers held rfl (by simp)
  | @seeks _ start goal expansion _ outside sought =>
    obtain ⟨frames, top, rfl⟩ := Machine.push_of_last held (last (by simp [Frame.branch?, outside]))
    obtain ⟨base, here, below, opening, suits, grown⟩ := layers.last top rfl
    obtain rfl : goal = here.goal := suits.again goal rfl
    have restored := @Machine.restore_state
      (machine.setFrame frames.size (.deduction here.goal start none) above) _ _ _ _ state wellFormed
      grown suits.undo
    exact recalled_nextClause below opening restored (Machine.setFrame_top top _)
      ((lies top).imp_right fun held => ⟨_, _, held⟩) sought

/-- The stacks are so after every step that leaves the frame below the floor as it is. -/
theorem Recalls.advance {notes : Option Nat → Nat → Nat → Prop} {config : Config}
    (recalls : Recalls program called floor config ledger) (standing : Standing notes config)
    (opened : ∀ goal parent, config.1 = .call goal parent → called config.2.frames.size =
      some ⟨parent, config.2.state.arena.deref goal, config.2.state.callDepth⟩)
    (high : floor.height ≤ config.2.frames.size)
    (kept : ∀ place, place + 1 = floor.height → next.2.frames[place]? = config.2.frames[place]?)
    (advances : config.2.advance program config.1 = .ok next) :
    Recalled program called floor next := by
  obtain ⟨step, machine⟩ := config
  cases step with
  | call goal parent => exact recalled_call recalls (opened goal parent rfl) high advances
  | redo => exact recalled_redo recalls advances
  | notify target signal =>
    cases target with
    | none =>
      cases advances
      exact ⟨ledger, recalls⟩
    | some index =>
      obtain ⟨entry, held, ⟨rfl, heard⟩ | ⟨rfl, heard⟩⟩ := Machine.notify_cases advances
      · exact recalled_yielded recalls held heard
      · refine recalled_exhausted recalls held (fun left => ?_) high kept heard
        cases standing with
        | ended waiting => exact (waiting.first_of_left held left).1

end

end

end Resolvent
