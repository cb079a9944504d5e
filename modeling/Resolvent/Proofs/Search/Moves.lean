import Resolvent.Proofs.Search.Tally

namespace Resolvent

variable {program : Program}

def Frame.aside? : Frame → Option Bool
  | .negation _ truncated => some truncated
  | .once _ | .delegate _ | .conjunction _ _ _ | .disjunction _ _ _ _ | .deduction _ _ _ => none

def Frame.branch? : Frame → Option Branch
  | .once _ => none
  | .delegate _ => some .left
  | .conjunction _ _ branch => some branch
  | .disjunction _ _ _ _ => some .left
  | .negation _ _ => some .left
  | .deduction _ _ none => none
  | .deduction _ _ (some expansion) => some (if expansion.inBody then .right else .left)

def Frame.undone? : Frame → Option Snapshot
  | .delegate undo | .conjunction undo _ .left | .disjunction undo _ _ .right => some undo
  | .once _ | .conjunction _ _ .right | .disjunction _ _ _ .left | .negation _ _
  | .deduction _ _ _ => none

theorem Frame.first_of_undone {frame : Frame} {undo : Snapshot} (takes : frame.undone? = some undo) :
    frame.aside? = none ∧ frame.branch? = some .left := by
  cases frame with
  | delegate => exact ⟨rfl, rfl⟩
  | conjunction _ _ branch | disjunction _ _ _ branch =>
    cases branch
    all_goals first | exact ⟨rfl, rfl⟩ | cases takes
  | once | negation | deduction => cases takes

inductive Turn : Signal → Option Branch → Option Branch → Step → Prop where
  | onward {goal : TermId} {index : Nat} :
      Turn .yielded (some .left) (some .right) (.call goal (some index))
  | again {goal : TermId} {index : Nat} :
      Turn .exhausted (some .left) (some .left) (.call goal (some index))
  | back : Turn .exhausted (some .right) (some .left) .redo

structure Level (earlier later : Machine) : Prop where
  truncated : later.truncated = earlier.truncated
  hits : later.hits = earlier.hits

theorem Level.refl (machine : Machine) : Level machine machine := ⟨rfl, rfl⟩

theorem Level.trans {first middle last : Machine} (later : Level middle last)
    (earlier : Level first middle) : Level first last :=
  ⟨later.truncated.trans earlier.truncated, later.hits.trans earlier.hits⟩

theorem level_state {machine : Machine} {state : State} (hits : state.hits = machine.state.hits) :
    Level machine { machine with state } := ⟨rfl, hits⟩

theorem level_frames (machine : Machine) (frames : Array Entry) :
    Level machine { machine with frames } := ⟨rfl, rfl⟩

theorem level_restore (machine : Machine) (undo : Snapshot) :
    Level machine (machine.restore undo) := level_state (State.hits_restore undo)

/-- What one step can do: which frame is pushed, changed or removed, what comes next, and whether a goal
    is cut off. Negations are told from all other frames. -/
inductive Moves : Step × Machine → Step × Machine → Prop where
  | answers {goal : TermId} {parent : Option Nat} {undo : Option Snapshot}
      {machine later : Machine} (frames : later.frames = machine.frames.push ⟨.once undo, parent⟩)
      (level : Level machine later) :
      Moves (.call goal parent, machine) (.notify parent .yielded, later)
  | enters {goal called : TermId} {parent : Option Nat} {frame : Frame} {machine later : Machine}
      (frames : later.frames = machine.frames.push ⟨frame, parent⟩) (plain : frame.aside? = none)
      (level : Level machine later) (branch : frame.branch? = some .left) :
      Moves (.call goal parent, machine) (.call called (some machine.frames.size), later)
  | probes {goal called : TermId} {parent : Option Nat} {undo : Snapshot} {machine later : Machine}
      (frames : later.frames = machine.frames.push ⟨.negation undo machine.truncated, parent⟩)
      (truncated : later.truncated = false) (hits : later.hits = machine.hits) :
      Moves (.call goal parent, machine) (.call called (some machine.frames.size), later)
  | fails {goal : TermId} {parent : Option Nat} {machine later : Machine}
      (frames : later.frames = machine.frames) (level : Level machine later) :
      Moves (.call goal parent, machine) (.notify parent .exhausted, later)
  | cuts {goal : TermId} {parent : Option Nat} {machine later : Machine}
      (frames : later.frames = machine.frames) (truncated : later.truncated = true)
      (hits : later.hits = machine.hits + 1) :
      Moves (.call goal parent, machine) (.notify parent .exhausted, later)
  | ends {parent : Option Nat} {undo : Option Snapshot} {machine later : Machine}
      (frames : machine.frames = later.frames.push ⟨.once undo, parent⟩)
      (level : Level machine later) : Moves (.redo, machine) (.notify parent .exhausted, later)
  | empty {machine : Machine} (frames : machine.frames = #[]) :
      Moves (.redo, machine) (.notify none .exhausted, machine)
  | forwards {index : Nat} {entry : Entry} {machine : Machine}
      (held : machine.frames[index]? = some entry) (plain : entry.frame.aside? = none)
      (waits : entry.frame.branch?.isSome = true) :
      Moves (.notify (some index) .yielded, machine) (.notify entry.parent .yielded, machine)
  | turns {index : Nat} {signal : Signal} {entry : Entry} {frame : Frame} {step : Step}
      {machine later : Machine} (held : machine.frames[index]? = some entry)
      (plain : entry.frame.aside? = none)
      (frames : later.frames = machine.frames.setIfInBounds index ⟨frame, entry.parent⟩)
      (plainToo : frame.aside? = none) (next : step = .redo ∨ ∃ goal, step = .call goal (some index))
      (level : Level machine later)
      (turn : Turn signal entry.frame.branch? frame.branch? step) :
      Moves (.notify (some index) signal, machine) (step, later)
  | closes {entry : Entry} {machine later : Machine}
      (frames : machine.frames = later.frames.push entry) (plain : entry.frame.aside? = none)
      (level : Level machine later) (branch : entry.frame.branch? = some .left) :
      Moves (.notify (some later.frames.size) .exhausted, machine)
        (.notify entry.parent .exhausted, later)
  | finds {index : Nat} {undo : Snapshot} {aside : Bool} {parent : Option Nat}
      {machine later : Machine}
      (held : machine.frames[index]? = some ⟨.negation undo aside, parent⟩)
      (frames : later.frames = machine.frames.shrink index)
      (truncated : later.truncated = (aside || machine.truncated))
      (hits : later.hits = machine.hits) :
      Moves (.notify (some index) .yielded, machine) (.notify parent .exhausted, later)
  | misses {rest : Array Entry} {undo : Snapshot} {aside : Bool} {parent : Option Nat}
      {machine later : Machine} (frames : machine.frames = rest.push ⟨.negation undo aside, parent⟩)
      (complete : machine.truncated = false)
      (after : later.frames = rest.push ⟨.once (some undo), parent⟩)
      (truncated : later.truncated = aside) (hits : later.hits = machine.hits) :
      Moves (.notify (some rest.size) .exhausted, machine) (.notify parent .yielded, later)
  | doubts {undo : Snapshot} {aside : Bool} {parent : Option Nat} {machine later : Machine}
      (frames : machine.frames = later.frames.push ⟨.negation undo aside, parent⟩)
      (cut : machine.truncated = true) (level : Level machine later) :
      Moves (.notify (some later.frames.size) .exhausted, machine)
        (.notify parent .exhausted, later)
  | rests {signal : Signal} {machine : Machine} :
      Moves (.notify none signal, machine) (.notify none signal, machine)

theorem set_push (frames : Array Entry) (entry other : Entry) :
    (frames.push entry).setIfInBounds frames.size other = frames.push other := by
  apply Array.ext'
  simp

namespace Machine

variable {machine later : Machine} {parent : Option Nat} {index : Nat} {next : Step × Machine}

theorem push_of_back? {frames : Array Entry} {entry : Entry} (top : frames.back? = some entry) :
    frames = frames.pop.push entry := by
  have busy : frames.size ≠ 0 := by
    intro none
    simp [Array.eq_empty_of_size_eq_zero none] at top
  obtain ⟨rest, last, same⟩ := Array.eq_push_of_size_ne_zero busy
  rw [same, Array.back?_push, Option.some.injEq] at top
  rw [same, top, Array.pop_push]

theorem push_of_last {frames : Array Entry} {entry : Entry} (held : frames[index]? = some entry)
    (last : frames.size = index + 1) :
    ∃ rest : Array Entry, frames = rest.push entry ∧ rest.size = index := by
  have top : frames.back? = some entry := by
    rw [Array.back?_eq_getElem?, last]
    exact held
  exact ⟨frames.pop, push_of_back? top, by simp [last]⟩

theorem setFrame_top {rest : Array Entry} {entry : Entry} (top : machine.frames = rest.push entry)
    (frame : Frame) :
    (machine.setFrame rest.size frame parent).frames = rest.push ⟨frame, parent⟩ := by
  rw [setFrame, top, set_push]

theorem pop_cases {entry : Entry} (held : machine.frames[index]? = some entry)
    (popped : machine.pop index = .ok later) : ∃ rest : Array Entry,
      machine.frames = rest.push entry ∧ rest.size = index ∧
        later = { machine with frames := rest } := by
  rw [pop] at popped
  split at popped
  · next last =>
    cases popped
    obtain ⟨rest, same, size⟩ := push_of_last held last.symm
    exact ⟨rest, same, size, by rw [same, Array.pop_push]⟩
  · cases popped

/-- The goal of a deduction is put on the call stack, and its equation with the head of a clause is
    called. -/
theorem expand_cases {goal : TermId} {clause : Nat}
    (expanded : machine.expand program index goal clause parent = .ok next) :
    ∃ found equation names state, program.clauses[clause]? = some found ∧
      ((machine.record .expansion).state.register goal (some (.clause clause))).2.matchHead goal
        found.head = .ok (equation, names, state) ∧
      next = (.call equation (some index), { machine with state }.setFrame index
        (.deduction goal (clause + 1)
          (some { undo := (machine.record .expansion).state.snapshot, clause, names })) parent) := by
  rw [expand] at expanded
  split at expanded
  · cases expanded
  · next found =>
    simp only [Bind.bind, Except.bind] at expanded
    split at expanded
    · cases expanded
    · next matched =>
      cases expanded
      exact ⟨_, _, _, _, found, matched, rfl⟩

theorem nextClause_cases (sought : machine.nextClause program index = .ok next) :
    ∃ goal start current parent cell,
      machine.frames[index]? = some ⟨.deduction goal start current, parent⟩ ∧
      machine.state.arena.compound? goal = some cell ∧
      ((∃ clause, program.next? start cell.symbol cell.args.length = some clause ∧
          machine.expand program index goal clause parent = .ok next) ∨
        ∃ rest, machine.pop index = .ok rest ∧ next = rest.fail parent) := by
  rw [nextClause] at sought
  split at sought
  · next held =>
    simp only [Bind.bind, Except.bind] at sought
    split at sought
    · cases sought
    · split at sought
      · cases sought
      · next compound =>
        refine ⟨_, _, _, _, _, held, compound, ?_⟩
        split at sought
        · cases sought
        · simp only [pure, Except.pure] at sought
          split at sought
          · next listed => exact .inl ⟨_, listed, sought⟩
          · split at sought
            · cases sought
            · next popped =>
              cases sought
              exact .inr ⟨_, popped, rfl⟩
  · cases sought
  · cases sought

inductive OnDispatch (program : Program) (machine : Machine) (goal : TermId) (parent : Option Nat)
    (form : Form) : Step × Machine → Prop where
  | negation {inner : TermId} (same : form = .negation inner) :
      OnDispatch program machine goal parent form (machine.negation goal inner parent)
  | conjunction {left right : TermId} (same : form = .conjunction left right) :
      OnDispatch program machine goal parent form
        ({ machine with state := (machine.state.register goal none).2 }.enter
          (.conjunction machine.state.snapshot right .left) parent left)
  | disjunction {left right : TermId} (same : form = .disjunction left right) :
      OnDispatch program machine goal parent form
        ({ machine with state := (machine.state.register goal (some .left)).2 }.enter
          (.disjunction machine.state.snapshot goal right .left) parent left)
  | builtin {builtin : Builtin} {left right : TermId} {reply : Reply} {state : State}
      (same : form = .builtin builtin left right)
      (performed : (machine.state.register goal none).2.perform left right builtin =
        .ok (reply, state)) :
      OnDispatch program machine goal parent form
        ({ machine with state }.conclude machine.state.snapshot parent reply)
  | predicate {next : Step × Machine} (same : form = .predicate)
      (sought : (machine.push (.deduction goal 0 none) parent).nextClause program
        machine.frames.size = .ok next) :
      OnDispatch program machine goal parent form next

theorem dispatch_cases {goal : TermId} {cell : Compound}
    (started : machine.dispatch program goal cell parent = .ok next) :
    OnDispatch program machine goal parent cell.form next := by
  rw [dispatch] at started
  split at started
  · next same =>
    cases started
    exact .negation same
  · next same =>
    cases started
    exact .conjunction same
  · next same =>
    cases started
    exact .disjunction same
  · next same =>
    simp only [Bind.bind, Except.bind] at started
    split at started
    · cases started
    · next performed =>
      cases started
      exact .builtin same performed
  · next same => exact .predicate same started

inductive OnCall (program : Program) (machine : Machine) (goal : TermId) (parent : Option Nat) :
    Step × Machine → Prop where
  | holds : OnCall program machine goal parent (machine.answer none parent)
  | delays {name : Variable} (var : machine.state.arena.node goal = .var name)
      (new : machine.state.arena.isDelayed goal = false) :
      OnCall program machine goal parent ({ machine with state := (machine.state.delay goal).2 }.answer
        (some machine.state.snapshot) parent)
  | cuts : OnCall program machine goal parent
      ({ machine.record .depthHit with truncated := true }.fail parent)
  | starts {cell : Compound} {next : Step × Machine}
      (compound : machine.state.arena.node goal = .compound cell) (idle : cell.active = false)
      (room : machine.state.callDepth < machine.depthLimit)
      (started : machine.dispatch program goal cell parent = .ok next) :
      OnCall program machine goal parent next

theorem call_cases {goal : TermId} (called : machine.call program goal parent = .ok next) :
    machine.state.arena.require goal = .ok () ∧
      OnCall program (machine.record .goal) (machine.state.arena.deref goal) parent next := by
  rw [call] at called
  simp only [Bind.bind, Except.bind] at called
  split at called
  · cases called
  · next required =>
    refine ⟨required, ?_⟩
    split at called
    · cases called
      exact .holds
    · next name var =>
      split at called
      · cases called
        exact .holds
      · next new =>
        cases called
        exact .delays var (Bool.eq_false_iff.mpr new)
    · next cell compound =>
      split at called
      · cases called
        exact .holds
      · next idle =>
        split at called
        · cases called
          exact .cuts
        · next room =>
          exact .starts compound (by simpa using idle) (Nat.lt_of_not_le room) called

inductive OnRedo (machine : Machine) : Step × Machine → Prop where
  | empty (bare : machine.frames = #[]) : OnRedo machine (machine.fail none)
  | ends {rest : Array Entry} {parent : Option Nat}
      (top : machine.frames = rest.push ⟨.once none, parent⟩) :
      OnRedo machine ({ machine with frames := rest }.fail parent)
  | undoes {rest : Array Entry} {undo : Snapshot} {parent : Option Nat}
      (top : machine.frames = rest.push ⟨.once (some undo), parent⟩) :
      OnRedo machine ({ machine with frames := rest }.backtrack undo parent)

theorem redo_cases (asked : machine.redo = .ok next) : OnRedo machine next := by
  rw [redo] at asked
  split at asked
  · next none =>
    cases asked
    exact .empty (Array.back?_eq_none_iff.mp none)
  · next undo above top =>
    have same := push_of_back? top
    split at asked
    · cases asked
      exact .undoes same
    · cases asked
      exact .ends same
  · cases asked

inductive OnAnswer (program : Program) (machine : Machine) (index : Nat) (parent : Option Nat) :
    Frame → Step × Machine → Prop where
  | forwards {frame : Frame} (plain : frame.aside? = none) (waits : frame.branch?.isSome = true) :
      OnAnswer program machine index parent frame (.notify parent .yielded, machine)
  | onward {undo : Snapshot} {right : TermId} :
      OnAnswer program machine index parent (.conjunction undo right .left) (.call right (some index),
        machine.setFrame index (.conjunction undo right .right) parent)
  | refutes {undo : Snapshot} {aside : Bool} :
      OnAnswer program machine index parent (.negation undo aside)
        ({ machine with
          frames := machine.frames.shrink index
          truncated := aside || machine.truncated }.backtrack undo parent)
  | resolves {goal body copy : TermId} {start : Nat} {expansion : Expansion} {clause : Clause}
      {names : Renaming} {state : State} (listed : program.clauses[expansion.clause]? = some clause)
      (has : clause.body = some body) (outside : expansion.inBody = false)
      (copied : machine.state.copyBody expansion.names body = .ok (copy, names, state)) :
      OnAnswer program machine index parent (.deduction goal start (some expansion))
        (.call copy (some index), { machine with state }.setFrame index
          (.deduction goal start (some { expansion with names, inBody := true })) parent)

theorem yielded_cases {frame : Frame}
    (heard : machine.yielded program index ⟨frame, parent⟩ = .ok next) :
    OnAnswer program machine index parent frame next := by
  rw [yielded] at heard
  cases frame with
  | once => cases heard
  | delegate | disjunction =>
    cases heard
    exact .forwards rfl rfl
  | conjunction undo right branch =>
    cases branch with
    | left =>
      cases heard
      exact .onward
    | right =>
      cases heard
      exact .forwards rfl rfl
  | negation =>
    cases heard
    exact .refutes
  | deduction goal start current =>
    cases current with
    | none => cases heard
    | some expansion =>
      simp only at heard
      split at heard
      · cases heard
      · next listed =>
        split at heard
        · next has outside =>
          rw [enterBody] at heard
          simp only [Bind.bind, Except.bind] at heard
          split at heard
          · cases heard
          · next copied =>
            cases heard
            exact .resolves listed has outside copied
        · cases heard
          exact .forwards rfl rfl

inductive OnEnd (program : Program) (machine : Machine) (parent : Option Nat) :
    Nat → Frame → Step × Machine → Prop where
  | closes {rest : Array Entry} {frame : Frame} {undo : Snapshot}
      (top : machine.frames = rest.push ⟨frame, parent⟩) (takes : frame.undone? = some undo) :
      OnEnd program machine parent rest.size frame
        ({ machine with frames := rest }.backtrack undo parent)
  | retries {index : Nat} {undo : Snapshot} {right : TermId} :
      OnEnd program machine parent index (.conjunction undo right .right)
        (.redo, machine.setFrame index (.conjunction undo right .left) parent)
  | turns {index : Nat} {undo : Snapshot} {goal right : TermId} {next : Step × Machine}
      (turned : machine.turnRight index undo goal right parent = .ok next) :
      OnEnd program machine parent index (.disjunction undo goal right .left) next
  | doubts {rest : Array Entry} {undo : Snapshot} {aside : Bool}
      (top : machine.frames = rest.push ⟨.negation undo aside, parent⟩)
      (cut : machine.truncated = true) :
      OnEnd program machine parent rest.size (.negation undo aside)
        ({ machine with frames := rest }.backtrack undo parent)
  | refutes {rest : Array Entry} {undo : Snapshot} {aside : Bool}
      (top : machine.frames = rest.push ⟨.negation undo aside, parent⟩)
      (complete : machine.truncated = false) :
      OnEnd program machine parent rest.size (.negation undo aside)
        ({ machine with frames := rest, truncated := aside }.answer (some undo) parent)
  | reopens {index start : Nat} {goal : TermId} {expansion : Expansion}
      (inside : expansion.inBody = true) :
      OnEnd program machine parent index (.deduction goal start (some expansion)) (.redo,
        machine.setFrame index (.deduction goal start (some { expansion with inBody := false }))
          parent)
  | seeks {index start : Nat} {goal : TermId} {expansion : Expansion} {next : Step × Machine}
      (outside : expansion.inBody = false)
      (sought : ((machine.setFrame index (.deduction goal start none) parent).restore
        expansion.undo).nextClause program index = .ok next) :
      OnEnd program machine parent index (.deduction goal start (some expansion)) next

theorem exhausted_cases {frame : Frame} (held : machine.frames[index]? = some ⟨frame, parent⟩)
    (heard : machine.exhausted program index ⟨frame, parent⟩ = .ok next) :
    OnEnd program machine parent index frame next := by
  rw [exhausted] at heard
  have closes {undo : Snapshot} (takes : Frame.undone? frame = some undo)
      (ended : (machine.pop index).bind (fun rest => .ok (rest.backtrack undo parent)) = .ok next) :
      OnEnd program machine parent index frame next := by
    cases popped : machine.pop index with
    | error reason => simp [popped, Except.bind] at ended
    | ok later =>
      rw [popped] at ended
      cases ended
      obtain ⟨rest, top, rfl, rfl⟩ := pop_cases held popped
      exact .closes top takes
  cases frame with
  | once => cases heard
  | delegate => exact closes rfl heard
  | conjunction undo right branch =>
    cases branch with
    | left => exact closes rfl heard
    | right =>
      cases heard
      exact .retries
  | disjunction undo goal right branch =>
    cases branch with
    | left => exact .turns heard
    | right => exact closes rfl heard
  | negation undo aside =>
    simp only [Bind.bind, Except.bind] at heard
    split at heard
    · cases heard
    · next popped =>
      obtain ⟨rest, top, rfl, rfl⟩ := pop_cases held popped
      split at heard
      · next cut =>
        cases heard
        exact .doubts top cut
      · next complete =>
        cases heard
        exact .refutes top (by simpa using complete)
  | deduction goal start current =>
    cases current with
    | none => cases heard
    | some expansion =>
      simp only at heard
      split at heard
      · next inside =>
        cases heard
        exact .reopens inside
      · next outside => exact .seeks (by simpa using outside) heard

theorem notify_cases {signal : Signal}
    (advances : machine.advance program (.notify (some index) signal) = .ok next) :
    ∃ entry, machine.frames[index]? = some entry ∧
      (signal = .yielded ∧ machine.yielded program index entry = .ok next ∨
        signal = .exhausted ∧ machine.exhausted program index entry = .ok next) := by
  simp only [advance] at advances
  cases held : machine.frames[index]? with
  | none => simp [held] at advances
  | some entry =>
    simp only [held] at advances
    cases signal with
    | yielded => exact ⟨entry, rfl, .inl ⟨rfl, advances⟩⟩
    | exhausted => exact ⟨entry, rfl, .inr ⟨rfl, advances⟩⟩

theorem answer_moves {goal : TermId} {undo : Option Snapshot} (frames : later.frames = machine.frames)
    (level : Level machine later) :
    Moves (.call goal parent, machine) (later.answer undo parent) := by
  refine @Moves.answers goal parent undo machine _ ?_ ((level_frames _ _).trans level)
  simp [push, frames]

theorem enter_moves {goal called : TermId} {frame : Frame} (frames : later.frames = machine.frames)
    (plain : frame.aside? = none) (branch : frame.branch? = some .left)
    (level : Level machine later) :
    Moves (.call goal parent, machine) (later.enter frame parent called) := by
  rw [enter, frames]
  exact .enters (by simp [push, frames]) plain ((level_frames _ _).trans level) branch

theorem conclude_moves {goal : TermId} {undo : Snapshot} (reply : Reply)
    (frames : later.frames = machine.frames) (level : Level machine later) :
    Moves (.call goal parent, machine) (later.conclude undo parent reply) := by
  cases reply with
  | fails => exact .fails frames ((level_restore _ undo).trans level)
  | answers => exact answer_moves frames level
  | delegates called => exact enter_moves frames rfl rfl level

/-- A deduction calls the equation of its goal with a head, or is removed from the top. -/
theorem nextClause_moves {entry : Entry} (held : machine.frames[index]? = some entry)
    (sought : machine.nextClause program index = .ok next) :
    (∃ equation frame, next.1 = .call equation (some index) ∧ Frame.aside? frame = none ∧
      Frame.branch? frame = some .left ∧
      next.2.frames = machine.frames.setIfInBounds index ⟨frame, entry.parent⟩ ∧
      Level machine next.2) ∨
    ∃ rest, machine.frames = rest.push entry ∧ rest.size = index ∧
      next = (.notify entry.parent .exhausted, { machine with frames := rest }) := by
  obtain ⟨_, _, _, _, _, same, -, sought⟩ := nextClause_cases sought
  cases held.symm.trans same
  rcases sought with ⟨clause, -, expanded⟩ | ⟨later, popped, rfl⟩
  · obtain ⟨_, _, _, _, -, matched, rfl⟩ := expand_cases expanded
    have hits := (State.hits_matchHead matched).trans (State.hits_register _ _)
    exact .inl ⟨_, _, rfl, rfl, rfl, rfl, (level_frames _ _).trans (level_state hits)⟩
  · obtain ⟨rest, top, size, rfl⟩ := pop_cases held popped
    exact .inr ⟨rest, top, size, rfl⟩

theorem dispatch_moves {goal called : TermId} {cell : Compound}
    (frames : later.frames = machine.frames) (level : Level machine later)
    (started : later.dispatch program called cell parent = .ok next) :
    Moves (.call goal parent, machine) next := by
  have registered (choice : Option Choice) :
      Level machine { later with state := (later.state.register called choice).2 } :=
    (level_state (State.hits_register called choice)).trans level
  cases dispatch_cases started with
  | @negation inner =>
    simp only [negation, enter, frames]
    refine @Moves.probes goal inner parent later.state.snapshot machine _ ?_ rfl
      (registered none).hits
    simp [push, level.truncated, State.register]
  | conjunction => exact enter_moves frames rfl rfl (registered none)
  | disjunction => exact enter_moves frames rfl rfl (registered (some .left))
  | builtin _ performed =>
    exact conclude_moves _ frames
      ((level_state ((State.hits_perform performed).trans (State.hits_register called none))).trans
        level)
  | predicate _ sought =>
    have held : (later.push (.deduction called 0 none) parent).frames[later.frames.size]? =
        some ⟨.deduction called 0 none, parent⟩ := by simp [push]
    have pushed := (level_frames later (later.push (.deduction called 0 none) parent).frames).trans
      level
    rcases nextClause_moves held sought with ⟨equation, frame, calls, plain, branch, same, kept⟩ |
      ⟨rest, top, -, rfl⟩
    · obtain ⟨step, after⟩ := next
      obtain rfl : step = .call equation (some later.frames.size) := calls
      rw [frames]
      refine .enters ?_ plain (kept.trans pushed) branch
      rw [same, ← frames]
      apply Array.ext'
      simp [push]
    · have below : rest = machine.frames := by
        rw [← frames]
        exact (Array.push_eq_push.mp top).2.symm
      exact .fails below ((level_frames _ _).trans pushed)

theorem call_moves {goal : TermId} (called : machine.call program goal parent = .ok next) :
    Moves (.call goal parent, machine) next := by
  have counted : Level machine (machine.record .goal) := ⟨rfl, rfl⟩
  cases (call_cases called).2 with
  | holds => exact answer_moves rfl counted
  | delays => exact answer_moves rfl ((level_state (State.hits_delay _)).trans counted)
  | cuts => exact .cuts rfl rfl rfl
  | starts _ _ _ started =>
    exact @dispatch_moves program machine (machine.record .goal) _ _ _ _ _ rfl counted started

theorem redo_moves (asked : machine.redo = .ok next) : Moves (.redo, machine) next := by
  cases redo_cases asked with
  | empty bare => exact .empty bare
  | ends top => exact .ends top ⟨rfl, rfl⟩
  | undoes top => exact .ends top ⟨rfl, rfl⟩

theorem turn_moves {signal : Signal} {entry : Entry} {frame : Frame} {step : Step}
    (held : machine.frames[index]? = some entry) (plain : entry.frame.aside? = none)
    (frames : later.frames = machine.frames) (plainToo : frame.aside? = none)
    (step_next : step = .redo ∨ ∃ goal, step = .call goal (some index))
    (level : Level machine later) (turn : Turn signal entry.frame.branch? frame.branch? step) :
    Moves (.notify (some index) signal, machine)
      (step, later.setFrame index frame entry.parent) :=
  .turns held plain (by simp [setFrame, frames]) plainToo step_next
    ((level_frames _ _).trans level) turn

theorem yielded_moves {entry : Entry} (held : machine.frames[index]? = some entry)
    (heard : machine.yielded program index entry = .ok next) :
    Moves (.notify (some index) .yielded, machine) next := by
  obtain ⟨frame, above⟩ := entry
  cases yielded_cases heard with
  | forwards plain waits => exact .forwards held plain waits
  | @onward undo right => exact turn_moves held rfl rfl rfl (.inr ⟨right, rfl⟩) (.refl machine) .onward
  | refutes => exact .finds held rfl rfl rfl
  | resolves _ _ outside copied =>
    refine turn_moves held rfl rfl rfl (.inr ⟨_, rfl⟩) (level_state (State.hits_copyBody copied)) ?_
    simp only [Frame.branch?, outside, Bool.false_eq_true, if_false, if_true]
    exact .onward

theorem push_of_set {frames rest : Array Entry} {held changed top : Entry}
    (found : frames[rest.size]? = some held)
    (same : frames.setIfInBounds rest.size changed = rest.push top) : frames = rest.push held := by
  have size : frames.size = rest.size + 1 := by simpa using congrArg Array.size same
  have busy : frames.size ≠ 0 := by omega
  obtain ⟨below, last, rfl⟩ := Array.eq_push_of_size_ne_zero busy
  have height : below.size = rest.size := by simpa using size
  rw [← height] at found same
  obtain rfl : last = held := by simpa using found
  have set : (below.push last).setIfInBounds below.size changed = below.push changed := by
    rw [← Array.toList_inj]
    simp [Array.toList_setIfInBounds, List.set_append_right]
  rw [set, Array.push_eq_push] at same
  rw [same.2]

theorem exhausted_moves {entry : Entry} (held : machine.frames[index]? = some entry)
    (heard : machine.exhausted program index entry = .ok next) :
    Moves (.notify (some index) .exhausted, machine) next := by
  obtain ⟨frame, above⟩ := entry
  cases exhausted_cases held heard with
  | @closes rest frame undo top takes =>
    obtain ⟨plain, branch⟩ := Frame.first_of_undone takes
    exact @Moves.closes ⟨frame, above⟩ machine ({ machine with frames := rest }.restore undo) top
      plain ⟨rfl, rfl⟩ branch
  | retries => exact turn_moves held rfl rfl rfl (.inl rfl) (.refl machine) .back
  | @turns _ _ goal right _ turned =>
    simp only [turnRight, Bind.bind, Except.bind] at turned
    split at turned
    · cases turned
    · cases turned
      exact turn_moves held rfl rfl rfl (.inr ⟨right, rfl⟩)
        (level_state (State.hits_register goal _)) .again
  | @doubts rest undo aside top cut =>
    exact @Moves.doubts undo aside above machine ({ machine with frames := rest }.restore undo) top cut
      ⟨rfl, rfl⟩
  | refutes top complete => exact .misses top complete rfl rfl rfl
  | reopens inside =>
    refine turn_moves held rfl rfl rfl (.inl rfl) (.refl machine) ?_
    simp only [Frame.branch?, inside, Bool.false_eq_true, if_false, if_true]
    exact .back
  | @seeks _ start goal expansion _ outside sought =>
    have branch : Frame.branch? (.deduction goal start (some expansion)) = some .left := by
      simp [Frame.branch?, outside]
    have inside : index < machine.frames.size := (Array.getElem?_eq_some_iff.mp held).1
    have found : ((machine.setFrame index (.deduction goal start none) above).restore
        expansion.undo).frames[index]? = some ⟨.deduction goal start none, above⟩ := by
      simp [setFrame, restore, inside]
    have level : Level machine ((machine.setFrame index (.deduction goal start none)
        above).restore expansion.undo) := ⟨rfl, rfl⟩
    rcases nextClause_moves found sought with ⟨equation, frame, calls, plain, again, same, kept⟩ |
      ⟨rest, top, rfl, rfl⟩
    · obtain ⟨step, later⟩ := next
      obtain rfl : step = .call equation (some index) := calls
      refine .turns held rfl ?_ plain (.inr ⟨equation, rfl⟩) (kept.trans level) ?_
      · rw [same]
        simp [setFrame, restore]
      · rw [branch, again]
        exact .again
    · exact @Moves.closes ⟨.deduction goal start (some expansion), above⟩ machine
        { (machine.setFrame rest.size (.deduction goal start none) above).restore expansion.undo with
          frames := rest } (push_of_set held top) rfl ⟨rfl, rfl⟩ branch

theorem advance_moves {step : Step} (advances : machine.advance program step = .ok next) :
    Moves (step, machine) next := by
  cases step with
  | call goal parent => exact call_moves advances
  | redo => exact redo_moves advances
  | notify target signal =>
    cases target with
    | none =>
      cases advances
      exact .rests
    | some index =>
      obtain ⟨entry, held, ⟨rfl, heard⟩ | ⟨rfl, heard⟩⟩ := notify_cases advances
      · exact yielded_moves held heard
      · exact exhausted_moves held heard

end Machine

end Resolvent
