import Resolvent.Proofs.Search.Layers

namespace Resolvent

structure Ledger.Startable (ledger : Ledger) (goal : TermId) : Prop where
  idle : goal ∉ ledger.calls
  shape : ∃ symbol args, ledger.shape? goal = some (.compound symbol args) ∧
    (formOf symbol args = .predicate → ∃ place, symbol = .user place)

structure Enduring (program : Program) (holds : Ledger → Prop) : Prop where
  wellFormed : ∀ {ledger}, holds ledger → ledger.WellFormed
  fits : ∀ {ledger}, holds ledger → program.Fits ledger
  advances : ∀ {later ledger : Ledger}, holds ledger → later.Advances ledger → holds later
  register : ∀ {ledger : Ledger} {goal : TermId} (choice : Option Choice), holds ledger →
    ledger.Startable goal → holds (ledger.register goal choice)

structure HandsOn (holds after : Ledger → Prop) (next : State) : Prop where
  keeps : ∀ {ledger}, holds ledger → after ledger
  delays : ∀ {ledger : Ledger} {var : TermId}, holds ledger → ledger.shape? var = some .var →
    ledger.binding? var = none → ledger.arena.isDelayed var = false →
    (∃ counters, next = (ledger.delay var).state counters) → after (ledger.delay var)

inductive Piles (holds : Ledger → Prop) : List (Option Mark) → Ledger → Prop where
  | ground {ledger : Ledger} (held : holds ledger) : Piles holds [] ledger
  | silent {rest : List (Option Mark)} {ledger : Ledger} (below : Piles holds rest ledger) :
      Piles holds (none :: rest) ledger
  | noted {rest : List (Option Mark)} {base ledger : Ledger} {mark : Mark}
      (below : Piles holds rest base) (undo : mark.undo = base.snapshot)
      (again : ∀ goal, mark.again = some goal → base.Startable goal) (held : holds ledger)
      (grown : ledger.Extends base) : Piles holds (some mark :: rest) ledger

def Piled (holds : Ledger → Prop) (machine : Machine) : Prop :=
  ∃ ledger, (∃ counters, machine.state = ledger.state counters) ∧
    Piles holds (marks machine.frames) ledger

section

variable {program : Program} {holds after : Ledger → Prop} {rest above : List (Option Mark)}
  {mark : Mark} {ledger later base : Ledger} {goal : TermId}

namespace Piles

theorem held (piles : Piles holds rest ledger) : holds ledger := by
  induction piles with
  | ground held | noted _ _ _ held => exact held
  | silent _ ih => exact ih

theorem grow (piles : Piles holds rest ledger) (held : holds later) (grown : later.Extends ledger) :
    Piles holds rest later := by
  induction piles with
  | ground => exact .ground held
  | silent _ ih => exact .silent (ih grown)
  | noted below undo again _ before => exact .noted below undo again held (grown.trans before)

theorem imp (piles : Piles holds rest ledger) (keeps : ∀ {ledger}, holds ledger → after ledger) :
    Piles after rest ledger := by
  induction piles with
  | ground held => exact .ground (keeps held)
  | silent _ ih => exact .silent ih
  | noted _ undo again held grown ih => exact .noted ih undo again (keeps held) grown

theorem unnoted (piles : Piles holds (none :: rest) ledger) : Piles holds rest ledger := by
  cases piles with
  | silent below => exact below

theorem drop (piles : Piles holds (above ++ rest) ledger) :
    ∃ base, Piles holds rest base ∧ ledger.Extends base := by
  induction above generalizing ledger with
  | nil => exact ⟨ledger, piles, .refl ledger⟩
  | cons mark above ih =>
    cases piles with
    | silent below => exact ih below
    | noted below _ _ _ grown =>
      obtain ⟨base, found, before⟩ := ih below
      exact ⟨base, found, grown.trans before⟩

theorem top (piles : Piles holds (some mark :: rest) ledger) :
    ∃ base, Piles holds rest base ∧ mark.undo = base.snapshot ∧
      (∀ goal, mark.again = some goal → base.Startable goal) ∧ ledger.Extends base := by
  cases piles with
  | noted below undo again _ grown => exact ⟨_, below, undo, again, grown⟩

theorem enter (piles : Piles holds rest base) (enduring : Enduring program holds)
    (startable : base.Startable goal) {choice : Option Choice} (undo : mark.undo = base.snapshot)
    (again : ∀ other, mark.again = some other → other = goal)
    (advances : later.Advances (base.register goal choice)) :
    Piles holds (some mark :: rest) later := by
  have held := enduring.advances (enduring.register choice piles.held startable) advances
  refine .noted piles undo (fun other same => ?_) held
    (advances.grown.trans (base.register_extends goal choice))
  rw [again other same]
  exact startable

end Piles

end

section

variable {program : Program} {holds : Ledger → Prop} {machine : Machine} {ledger base : Ledger}
  {counters : Counters} {goal : TermId} {next : Step × Machine} {parent : Option Nat}
  {index : Nat} {frames : Array Entry}

theorem Piled.imp {after : Ledger → Prop} (piled : Piled holds machine)
    (keeps : ∀ {ledger}, holds ledger → after ledger) : Piled after machine := by
  obtain ⟨ledger, same, piles⟩ := piled
  exact ⟨ledger, same, piles.imp keeps⟩

theorem piled_same (state : machine.state = ledger.state counters)
    (piles : Piles holds (marks machine.frames) ledger) : Piled holds machine :=
  ⟨ledger, ⟨counters, state⟩, piles⟩

theorem piled_push {frame : Frame} (state : machine.state = ledger.state counters)
    (piles : Piles holds (frame.mark :: marks machine.frames) ledger) :
    Piled holds (machine.push frame parent) :=
  ⟨ledger, ⟨counters, state⟩, by simpa [Machine.push] using piles⟩

theorem piled_restore {undo : Snapshot} (state : machine.state = ledger.state counters)
    (wellFormed : ledger.WellFormed) (grown : ledger.Extends base) (same : undo = base.snapshot)
    (piles : Piles holds (marks machine.frames) base) : Piled holds (machine.restore undo) :=
  ⟨base, ⟨_, Machine.restore_state state wellFormed grown same⟩, piles⟩

theorem piled_set {entry : Entry} {frame : Frame} (state : machine.state = ledger.state counters)
    (piles : Piles holds (marks machine.frames) ledger) (held : machine.frames[index]? = some entry)
    (same : frame.mark = entry.frame.mark) : Piled holds (machine.setFrame index frame parent) :=
  ⟨ledger, ⟨counters, state⟩, by simpa only [Machine.setFrame, marks_set held same] using piles⟩

theorem Piles.at {entry : Entry} {mark : Mark} (piles : Piles holds (marks machine.frames) ledger)
    (held : machine.frames[index]? = some entry) (marked : entry.frame.mark = some mark) :
    ∃ base, Piles holds (marks (machine.frames.shrink index)) base ∧
      mark.undo = base.snapshot ∧ ledger.Extends base := by
  obtain ⟨above, split⟩ := marks_split held
  rw [split, marked] at piles
  obtain ⟨middle, inner, grown⟩ := piles.drop
  obtain ⟨base, below, undo, -, before⟩ := inner.top
  exact ⟨base, below, undo, grown.trans before⟩

theorem piled_expand {frame : Frame} {clause : Nat} (enduring : Enduring program holds)
    (below : Piles holds (marks frames) base) (startable : base.Startable goal)
    (state : machine.state = base.state counters) (top : machine.frames = frames.push ⟨frame, parent⟩)
    (expanded : machine.expand program frames.size goal clause parent = .ok next) :
    Piled holds next.2 := by
  have registered := enduring.register (some (.clause clause)) below.held startable
  have formed := enduring.wellFormed registered
  obtain ⟨symbol, args, shape, -⟩ := startable.shape
  obtain ⟨found, equation, names, after, listed, made, rfl⟩ := Machine.expand_cases expanded
  rw [Machine.record_state state, Ledger.register_state] at made
  obtain ⟨later, rfl, matched⟩ := Ledger.matchHead_ok formed (Ledger.live_of_shape shape)
    ((enduring.fits registered).headLive listed) made
  have mark : Mark.undo ⟨base.snapshot, some goal, none⟩ = base.snapshot := rfl
  have piles := below.enter enduring startable mark (by simp) (matched.grows formed).advances
  refine ⟨later, ⟨_, rfl⟩, ?_⟩
  simpa [Machine.setFrame, Machine.record_state state, top, set_push, Frame.mark] using piles

/-- The clauses that a goal is tried with are those of its functor, which no reserved name is. -/
theorem user_of_next? (fits : program.Fits ledger) {start arity clause : Nat} {symbol : Symbol}
    (found : program.next? start symbol arity = some clause) : ∃ place, symbol = .user place := by
  rcases program.next?_candidates start symbol arity with ⟨missing, -⟩ | ⟨index, held, same, at', listed⟩
  · rw [missing] at found
    cases found
  · have among : (held, index) ∈ program.candidates start symbol arity := by simp [listed]
    have defines := (List.mem_filter.mp among).2
    simp only [Clause.defines, Bool.and_eq_true, decide_eq_true_eq] at defines
    rw [← defines.1]
    exact fits.user at'

theorem piled_nextClause {start : Nat} {current : Option Expansion}
    (enduring : Enduring program holds) (below : Piles holds (marks frames) base)
    (idle : goal ∉ base.calls) (state : machine.state = base.state counters)
    (top : machine.frames = frames.push ⟨.deduction goal start current, parent⟩)
    (sought : machine.nextClause program frames.size = .ok next) : Piled holds next.2 := by
  have held : machine.frames[frames.size]? = some ⟨.deduction goal start current, parent⟩ := by
    simp [top]
  obtain ⟨_, _, _, _, cell, same, found, sought⟩ := Machine.nextClause_cases sought
  cases held.symm.trans same
  rcases sought with ⟨clause, listed, expanded⟩ | ⟨later, popped, rfl⟩
  · rw [state, Ledger.arena_state] at found
    have startable : base.Startable goal :=
      ⟨idle, _, _, Ledger.shape_of_compound? found,
        fun _ => user_of_next? (enduring.fits below.held) listed⟩
    exact piled_expand enduring below startable state top expanded
  · obtain ⟨rest, whole, -, rfl⟩ := Machine.pop_cases held popped
    obtain ⟨-, rfl⟩ := Array.push_eq_push.mp (top.symm.trans whole)
    exact @piled_same holds { machine with frames } base counters state below

theorem piled_conclude {reached : Ledger} {others : Counters} {reply : Reply}
    (enduring : Enduring program holds) (below : Piles holds (marks machine.frames) ledger)
    (startable : ledger.Startable goal)
    (advances : reached.Advances (ledger.register goal none)) :
    Piled holds
      ({ machine with state := reached.state others }.conclude ledger.snapshot parent reply).2 := by
  have grown := advances.grown.trans (ledger.register_extends goal none)
  have mark : Mark.undo ⟨ledger.snapshot, none, none⟩ = ledger.snapshot := rfl
  have piles := below.enter enduring startable mark (by simp) advances
  cases reply with
  | fails =>
    exact @piled_restore holds { machine with state := reached.state others } reached ledger others
      ledger.snapshot rfl advances.wellFormed grown rfl below
  | answers =>
    exact @piled_push holds { machine with state := reached.state others } reached others parent
      (.once (some ledger.snapshot)) rfl piles
  | delegates other =>
    exact @piled_push holds { machine with state := reached.state others } reached others parent
      (.delegate ledger.snapshot) rfl piles

theorem piled_dispatch {cell : Compound} (enduring : Enduring program holds)
    (below : Piles holds (marks machine.frames) ledger)
    (state : machine.state = ledger.state counters)
    (shape : ledger.shape? goal = some (.compound cell.symbol cell.args)) (idle : goal ∉ ledger.calls)
    (started : machine.dispatch program goal cell parent = .ok next) : Piled holds next.2 := by
  have startable (interpreted : cell.form ≠ .predicate) : ledger.Startable goal :=
    ⟨idle, _, _, shape, fun predicate => absurd predicate interpreted⟩
  -- A frame is pushed for a goal that was put on the call stack.
  have entered (interpreted : cell.form ≠ .predicate) (choice : Option Choice) {mark : Mark}
      (undo : mark.undo = ledger.snapshot) (again : ∀ other, mark.again = some other → other = goal) :
      Piles holds (some mark :: marks machine.frames) (ledger.register goal choice) :=
    below.enter enduring (startable interpreted) undo again
      (.refl (enduring.wellFormed (enduring.register choice below.held (startable interpreted))))
  cases Machine.dispatch_cases started with
  | negation form =>
    simp only [Machine.negation, state, Ledger.register_state]
    exact @piled_push holds
      { machine with state := (ledger.register goal none).state counters, truncated := false } _
      counters parent (.negation ledger.snapshot machine.truncated) rfl
      (entered (by simp [form]) none rfl (by simp))
  | @conjunction left right form =>
    simp only [state, Ledger.register_state, Ledger.snapshot_state]
    exact @piled_push holds { machine with state := (ledger.register goal none).state counters } _
      counters parent (.conjunction ledger.snapshot right .left) rfl
      (entered (by simp [form]) none rfl (by simp))
  | @disjunction left right form =>
    simp only [state, Ledger.register_state, Ledger.snapshot_state]
    exact @piled_push holds
      { machine with state := (ledger.register goal (some .left)).state counters } _ counters parent
      (.disjunction ledger.snapshot goal right .left) rfl
      (entered (by simp [form]) _ rfl (by simp))
  | @builtin builtin left right reply reached form performed =>
    have interpreted : cell.form ≠ .predicate := by simp [form]
    rw [state, Ledger.register_state] at performed
    rw [state, Ledger.snapshot_state]
    have formed := enduring.wellFormed
      (enduring.register none below.held (startable interpreted))
    have grown := ledger.register_extends goal none
    obtain ⟨leftLive, rightLive⟩ := formed.live_sides (grown.shape shape)
      (form : formOf cell.symbol cell.args = .builtin builtin left right)
    obtain ⟨reply, reached, -, performs, run⟩ :=
      Ledger.perform_spec formed leftLive rightLive builtin
    obtain ⟨others, same⟩ := run counters
    cases same.symm.trans performed
    exact piled_conclude enduring below (startable interpreted)
      (performs.advances formed leftLive rightLive)
  | predicate _ sought =>
    exact @piled_nextClause program holds (machine.push (.deduction goal 0 none) parent) ledger
      counters goal next parent machine.frames 0 none enduring below idle state rfl sought

theorem piled_redo (enduring : Enduring program holds) (piled : Piled holds machine)
    (asked : machine.redo = .ok next) : Piled holds next.2 := by
  obtain ⟨ledger, ⟨counters, state⟩, piles⟩ := piled
  cases Machine.redo_cases asked with
  | empty => exact piled_same state piles
  | @ends rest parent top =>
    rw [top, marks_push] at piles
    exact @piled_same holds { machine with frames := rest } ledger counters state piles.unnoted
  | @undoes rest undo parent top =>
    rw [top, marks_push] at piles
    obtain ⟨base, below, same, -, grown⟩ := piles.top
    exact @piled_restore holds { machine with frames := rest } ledger base counters undo state
      (enduring.wellFormed piles.held) grown same below

theorem piled_yielded {entry : Entry} (enduring : Enduring program holds)
    (piled : Piled holds machine) (held : machine.frames[index]? = some entry)
    (heard : machine.yielded program index entry = .ok next) : Piled holds next.2 := by
  have kept := piled
  obtain ⟨ledger, ⟨counters, state⟩, piles⟩ := piled
  have wellFormed := enduring.wellFormed piles.held
  obtain ⟨frame, above⟩ := entry
  cases Machine.yielded_cases heard with
  | forwards => exact kept
  | onward => exact piled_set state piles held rfl
  | @refutes undo aside =>
    obtain ⟨base, below, same, grown⟩ := piles.at held rfl
    exact @piled_restore holds
      { machine with frames := machine.frames.shrink index, truncated := aside || machine.truncated }
      ledger base counters undo state wellFormed grown same below
  | resolves listed has _ made =>
    rw [state] at made
    obtain ⟨later, rfl, copied⟩ := Ledger.copyBody_ok wellFormed
      ((enduring.fits piles.held).body listed has) made
    have grown := copied.grows wellFormed
    exact @piled_set holds { machine with state := later.state counters } later counters above index
      _ _ rfl (piles.grow (enduring.advances piles.held grown.advances) grown.extends) held rfl

theorem piled_turnRight {undo : Snapshot} {right : TermId} (enduring : Enduring program holds)
    (state : machine.state = ledger.state counters)
    (piles : Piles holds (marks machine.frames) ledger)
    (top : machine.frames = frames.push ⟨.disjunction undo goal right .left, parent⟩)
    (turned : machine.turnRight frames.size undo goal right parent = .ok next) :
    Piled holds next.2 := by
  rw [top, marks_push] at piles
  obtain ⟨base, below, same, again, grown⟩ := piles.top
  obtain rfl : undo = base.snapshot := same
  have startable := again goal rfl
  have restored := Machine.restore_state state (enduring.wellFormed piles.held) grown rfl
  simp only [Machine.turnRight, restored, Ledger.register_state, Bind.bind, Except.bind] at turned
  split at turned
  · cases turned
  · cases turned
    have registered := enduring.register (some .right) below.held startable
    have mark : Mark.undo ⟨base.snapshot, some goal, some right⟩ = base.snapshot := rfl
    have entered := below.enter enduring startable mark (by simp)
      (.refl (enduring.wellFormed registered))
    refine ⟨_, ⟨_, rfl⟩, ?_⟩
    simpa [Machine.setFrame, Machine.restore, top, set_push, Frame.mark] using entered

theorem piled_exhausted {entry : Entry} (enduring : Enduring program holds)
    (piled : Piled holds machine) (held : machine.frames[index]? = some entry)
    (last : entry.frame.branch? = some .left → machine.frames.size = index + 1)
    (heard : machine.exhausted program index entry = .ok next) : Piled holds next.2 := by
  obtain ⟨ledger, ⟨counters, state⟩, piles⟩ := piled
  have wellFormed := enduring.wellFormed piles.held
  obtain ⟨frame, above⟩ := entry
  cases Machine.exhausted_cases held heard with
  | @closes rest _ undo top takes =>
    obtain ⟨mark, marked, rfl⟩ := Frame.mark_of_undone takes
    rw [top, marks_push, marked] at piles
    obtain ⟨base, below, noted, -, grown⟩ := piles.top
    exact @piled_restore holds { machine with frames := rest } ledger base counters _ state wellFormed
      grown noted below
  | retries => exact piled_set state piles held rfl
  | turns turned =>
    obtain ⟨frames, top, rfl⟩ := Machine.push_of_last held (last rfl)
    exact piled_turnRight enduring state piles top turned
  | @doubts rest undo _ top =>
    rw [top, marks_push] at piles
    obtain ⟨base, below, noted, -, grown⟩ := piles.top
    exact @piled_restore holds { machine with frames := rest } ledger base counters undo state
      wellFormed grown noted below
  | @refutes rest undo aside top =>
    rw [top, marks_push] at piles
    obtain ⟨base, below, noted, -, grown⟩ := piles.top
    exact @piled_push holds { machine with frames := rest, truncated := aside } ledger counters above
      (.once (some undo)) state (.noted below noted (by simp) piles.held grown)
  | reopens => exact piled_set state piles held rfl
  | @seeks _ start goal expansion _ outside sought =>
    obtain ⟨frames, top, rfl⟩ := Machine.push_of_last held (last (by simp [Frame.branch?, outside]))
    rw [top, marks_push] at piles
    obtain ⟨base, below, noted, again, grown⟩ := piles.top
    have restored := @Machine.restore_state
      (machine.setFrame frames.size (.deduction goal start none) above) _ _ _ _ state wellFormed grown
      noted
    exact piled_nextClause enduring below (again goal rfl).idle restored
      (Machine.setFrame_top top _) sought

theorem piled_call {after : Ledger → Prop} (enduring : Enduring program holds)
    (handsOn : HandsOn holds after next.2.state) (piled : Piled holds machine)
    (started : machine.call program goal parent = .ok next) : Piled after next.2 := by
  obtain ⟨ledger, ⟨counters, state⟩, piles⟩ := piled
  have wellFormed := enduring.wellFormed piles.held
  have counted := Machine.record_state state .goal
  obtain ⟨required, called⟩ := Machine.call_cases started
  simp only [state, Ledger.arena_state] at required called
  cases called with
  | holds =>
    exact (@piled_push holds (machine.record .goal) ledger _ parent (.once none) counted
      (.silent piles)).imp handsOn.keeps
  | delays var new =>
    simp only [counted, Ledger.arena_state, Ledger.delay_state] at var new handsOn ⊢
    have live : ledger.Live goal := by
      by_contra dead
      rw [require_dead dead] at required
      cases required
    have ends := wellFormed.binding?_deref goal
    rw [wellFormed.binding?_arena] at ends
    have isVar := Ledger.shape_of_var (wellFormed.live_deref live) var
    have held := handsOn.delays piles.held isVar ends new ⟨_, rfl⟩
    have piles : Piles after (some ⟨ledger.snapshot, none, none⟩ :: marks machine.frames)
        (ledger.delay (ledger.arena.deref goal)) :=
      .noted (piles.imp handsOn.keeps) rfl (by simp) held (ledger.delay_extends _)
    refine ⟨_, ⟨_, rfl⟩, ?_⟩
    simpa [Machine.answer, Machine.push, Machine.record, Frame.mark] using piles
  | cuts =>
    exact (@piled_same holds { (machine.record .goal).record .depthHit with truncated := true } ledger
      _ (Machine.record_state counted .depthHit) piles).imp handsOn.keeps
  | starts compound idle _ started =>
    simp only [counted, Ledger.arena_state] at compound
    obtain ⟨shape, active⟩ := Ledger.shape_of_compound compound
    rw [active] at idle
    exact (@piled_dispatch program holds (machine.record .goal) ledger _ _ next parent _
      enduring piles counted shape (by simpa using idle) started).imp handsOn.keeps

theorem Piled.advance {notes : Option Nat → Nat → Nat → Prop} {after : Ledger → Prop}
    {config : Config} (enduring : Enduring program holds) (handsOn : HandsOn holds after next.2.state)
    (piled : Piled holds config.2) (standing : Standing notes config)
    (advances : config.2.advance program config.1 = .ok next) : Piled after next.2 := by
  obtain ⟨step, machine⟩ := config
  cases step with
  | call goal parent => exact piled_call enduring handsOn piled advances
  | redo => exact (piled_redo enduring piled advances).imp handsOn.keeps
  | notify target signal =>
    cases target with
    | none =>
      cases advances
      exact piled.imp handsOn.keeps
    | some index =>
      obtain ⟨entry, held, ⟨rfl, heard⟩ | ⟨rfl, heard⟩⟩ := Machine.notify_cases advances
      · exact (piled_yielded enduring piled held heard).imp handsOn.keeps
      · -- A frame whose first branch failed is the last, so that its undo is that of the stacks.
        have last (left : entry.frame.branch? = some .left) :
            machine.frames.size = index + 1 := by
          cases standing with
          | ended waiting => exact (waiting.first_of_left held left).1
        exact (piled_exhausted enduring piled held last heard).imp handsOn.keeps

end

/-- A property of the stacks and of what a run went through so far holds wherever it stands, if it
    does at the start and each step hands it on. -/
theorem History.piled {program : Program} {goal : TermId} {limit : Nat} {state : State}
    {holds : List Config → Ledger → Prop}
    (start : Piled (holds [Search.opening goal limit state]) (Search.opening goal limit state).2)
    (enduring : ∀ past, Enduring program (holds past))
    (handsOn : ∀ past next, HandsOn (holds past) (holds (next :: past)) next.2.state)
    {config : Config} {past : List Config}
    (history : History program (Search.opening goal limit state) (config :: past)) :
    Piled (holds (config :: past)) config.2 := by
  generalize same : config :: past = configs at history
  induction history generalizing config past with
  | start =>
    cases same
    exact start
  | step history advances ih =>
    cases same
    exact (ih rfl).advance (enduring _) (handsOn _ _) history.standing advances
  | @resume machine past counters history ih =>
    cases same
    obtain ⟨ledger, ⟨others, state⟩, piles⟩ := @ih (.notify none .yielded, machine) past rfl
    have state : machine.state = ledger.state others := state
    refine ⟨ledger, ⟨counters, ?_⟩, piles.imp (handsOn _ _).keeps⟩
    simp only [state]
    rfl

theorem piled_opening {goal : TermId} {limit : Nat} {holds : Ledger → Prop} {ledger : Ledger}
    {counters : Counters} (held : holds ledger) :
    Piled holds (Search.opening goal limit (ledger.state counters)).2 :=
  ⟨ledger, ⟨counters, rfl⟩, .ground held⟩

end Resolvent
