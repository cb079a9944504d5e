import Resolvent.Proofs.Search.Recalls

namespace Resolvent

def calledAt (history : List Config) (place : Nat) : Option Call :=
  (openedAt history place).bind called?

section

variable {program : Program} {called : Nat → Option Call} {floor : Floor}
  {config next first : Config} {past before later : List Config} {ledger : Ledger}

theorem Recalls.congr {others : Nat → Option Call}
    (recalls : Recalls program called floor config ledger)
    (same : ∀ place < config.2.frames.size, called place = others place) :
    Recalls program others floor config ledger where
  state := recalls.state
  layers := recalls.layers.congr (by simpa using same)
  callable goal parent calls := by
    rw [← ancestors_congr same]
    exact recalls.callable goal parent calls

theorem Recalled.congr {others : Nat → Option Call}
    (recalled : Recalled program called floor config)
    (same : ∀ place < config.2.frames.size, called place = others place) :
    Recalled program others floor config := by
  obtain ⟨ledger, recalls⟩ := recalled
  exact ⟨ledger, recalls.congr same⟩

theorem calledAt_later {place : Nat} (low : place < next.2.frames.size) :
    calledAt past place = calledAt (next :: past) place := by
  rw [calledAt, calledAt, openedAt_later low]

/-- While the frame below a floor stays as it is, the stacks are so wherever a run goes on. -/
theorem History.recalled {goal : TermId} {limit : Nat} {state : State}
    (history : History program (Search.opening goal limit state) (later ++ first :: before))
    (recalled : Recalled program (calledAt (first :: before)) floor first)
    (high : floor.height ≤ first.2.frames.size)
    (kept : ∀ config ∈ later, floor.height ≤ config.2.frames.size ∧ ∀ place,
      place + 1 = floor.height → config.2.frames[place]? = first.2.frames[place]?) :
    ∃ config past, later ++ first :: before = config :: past ∧
      Recalled program (calledAt (config :: past)) floor config := by
  induction later with
  | nil => exact ⟨first, before, rfl, recalled⟩
  | cons next later ih =>
    have previous : History program (Search.opening goal limit state) (later ++ first :: before) := by
      cases later <;> exact @History.earlier program _ _ _ [next] history
    obtain ⟨config, past, same, so⟩ := ih previous (List.forall_mem_cons.mp kept).2
    have stays : floor.height ≤ config.2.frames.size ∧ ∀ place, place + 1 = floor.height →
        config.2.frames[place]? = first.2.frames[place]? := by
      cases later with
      | nil =>
        cases same
        exact ⟨high, fun _ _ => rfl⟩
      | cons head rest =>
        cases same
        exact kept config (by simp)
    refine ⟨next, config :: past, by rw [List.cons_append, same], ?_⟩
    rw [List.cons_append, same] at history
    cases history with
    | step history advances =>
      obtain ⟨ledger, recalls⟩ := so
      refine (recalls.advance history.standing ?_ stays.1 (fun place top => ?_) advances).congr
        fun place low => calledAt_later low
      · intro goal parent calls
        rw [calledAt, openedAt_here (Nat.le_refl _), Option.bind_some, called?, calls]
      · rw [stays.2 place top, (kept next (by simp)).2 place top]
    | @resume machine _ counters history =>
      obtain ⟨ledger, ⟨others, state⟩, layers, -⟩ := so
      have state : { machine.state with counters } = ledger.state counters := by
        rw [show machine.state = ledger.state others from state]
        rfl
      have recalled : Recalled program (calledAt ((.notify none .yielded, machine) :: past)) floor
          (.redo, { machine with state := { machine.state with counters } }) :=
        ⟨ledger, ⟨counters, state⟩, layers, nofun⟩
      exact recalled.congr fun place low => calledAt_later low

def Floor.none : Floor := ⟨0, {}⟩

theorem Floor.none_bears (height : Nat) (ledger : Ledger) : Floor.none.Bears height ledger := by
  intro _
  constructor <;> exact List.nil_prefix

structure Grounded (program : Program) (state : State) (query : TermId) : Prop where
  idle : state.callStack = #[]
  undelayed : state.delayed = #[]
  query : state.arena.Callable anywhere query
  bodies : ∀ clause ∈ program.clauses, ∀ body, clause.body = some body →
    state.arena.Callable anywhere body

theorem Grounded.recalled {state : State} {query : TermId} (grounded : Grounded program state query)
    (poised : Poised program state query) (limit : Nat) :
    Recalled program (calledAt [Search.opening query limit state]) .none
      (Search.opening query limit state) := by
  obtain ⟨base, ⟨counters, rfl⟩, wellFormed, fits, live⟩ := poised
  have quiet : Quiet program base :=
    ⟨wellFormed, fits, by simpa [Ledger.state] using grounded.undelayed, grounded.bodies⟩
  have idle : base.calls = [] := by simpa [Ledger.state] using grounded.idle
  refine ⟨base, ⟨counters, rfl⟩, .ground quiet idle (Floor.none_bears 0 base), ?_⟩
  rintro _ _ ⟨⟩
  exact Ledger.callable_imp wellFormed grounded.query fun _ _ _ _ _ => List.not_mem_nil

theorem History.recalls {state : State} {query : TermId} {limit : Nat}
    (history : History program (Search.opening query limit state) (config :: past))
    (grounded : Grounded program state query) (poised : Poised program state query) :
    Recalled program (calledAt (config :: past)) .none config := by
  obtain ⟨later, same⟩ := history.first
  rw [same] at history
  obtain ⟨_, _, whole, recalled⟩ := history.recalled (grounded.recalled poised limit)
    (Nat.zero_le _) fun _ _ => ⟨Nat.zero_le _, fun _ top => nomatch top⟩
  cases same.trans whole
  exact recalled

theorem Ancestor.mem {frames : Array Entry} {called : Nat → Option Call} {parent : Option Nat}
    {place height : Nat} {here : Call} (ancestor : Ancestor frames parent place)
    (attended : Attended frames)
    (opened : ∀ place entry, frames[place]? = some entry →
      ∃ goal depth, called place = some ⟨entry.parent, goal, depth⟩)
    (below : ∀ index, parent = some index → index < height) (known : called place = some here) :
    here.goal ∈ ancestors called height parent := by
  induction ancestor generalizing height with
  | here held =>
    rw [ancestors_frame (below _ rfl), ancestors_top known]
    exact List.mem_cons_self
  | above held _ ih =>
    obtain ⟨goal, depth, found⟩ := opened _ _ held
    rw [ancestors_frame (below _ rfl), ancestors_top found]
    exact List.mem_cons_of_mem _
      (ih (fun index same => (attended _ _ held index same).1) known)

/-- A goal was called before at a node and has answered, and nothing of its answer was undone. Its
    frames are what they were when it told of the answer, the stacks have all that they had, and the
    goal is still where it was put on the call stack. -/
structure Proven (past : List Config) (machine : Machine) (id : TermId) (called answered : Config)
    (later before : List Config) : Prop where
  split : past = later ++ answered :: before
  opened : openedAt before called.2.frames.size = some called
  node : ∃ goal parent frame, called.1 = .call goal parent ∧
    called.2.state.arena.deref goal = id ∧ answered.1 = .notify parent .yielded ∧
    answered.2.frames[called.2.frames.size]? = some ⟨frame, parent⟩
  owned : Owned answered.2.frames called.2.frames.size
  kept : ∀ place, called.2.frames.size ≤ place → place < answered.2.frames.size →
    machine.frames[place]? = answered.2.frames[place]? ∧
      ∀ config ∈ later, config.2.frames[place]? = answered.2.frames[place]?
  grown : machine.state.ledger.Extends answered.2.state.ledger
  listed : machine.state.callStack[called.2.state.callDepth]? = some id

theorem Lasts.grown {state : State} {query : TermId} {limit place height : Nat}
    {parent : Option Nat} {answered : Config}
    (lasts : Lasts (config :: past) parent place height later answered before)
    (history : History program (Search.opening query limit state) (config :: past))
    (grounded : Grounded program state query) (poised : Poised program state query) :
    config.2.state.ledger.Extends answered.2.state.ledger := by
  have low : place < height := by
    obtain ⟨frame, held⟩ := lasts.held
    exact lasts.size ▸ (Array.getElem?_eq_some_iff.mp held).1
  have whole := history
  rw [lasts.split] at history
  obtain ⟨base, ⟨counters, state⟩, layers, -⟩ := history.earlier.recalls grounded poised
  have floored : Recalled program (calledAt (answered :: before)) ⟨height, base⟩ answered := by
    have laid := layers.floored
    rw [length_marks, lasts.size] at laid
    refine ⟨base, ⟨counters, state⟩, laid, ?_⟩
    intro goal target calls
    simp [lasts.yielded] at calls
  have stays (config : Config) (member : config ∈ later) : height ≤ config.2.frames.size ∧
      ∀ place, place + 1 = height → config.2.frames[place]? = answered.2.frames[place]? := by
    have top : height - 1 < answered.2.frames.size := by
      have := lasts.size
      omega
    have held := lasts.same config member (height - 1) (by omega) (by omega)
    rw [Array.getElem?_eq_getElem top] at held
    have inside := (Array.getElem?_eq_some_iff.mp held).1
    exact ⟨by omega, fun index last => lasts.same config member index (by omega) (by omega)⟩
  obtain ⟨_, _, same, reached, ⟨others, final⟩, upper, -⟩ :=
    history.recalled floored (Nat.le_of_eq lasts.size.symm) stays
  cases lasts.split.trans same
  have high : height ≤ config.2.frames.size := by
    cases later with
    | nil =>
      cases lasts.split
      exact Nat.le_of_eq lasts.size.symm
    | cons head rest =>
      cases lasts.split
      exact (stays config (by simp)).1
  have grown := upper.bears (by simpa using high)
  rw [final, state, Ledger.ledger_state upper.quiet.wellFormed,
    Ledger.ledger_state layers.quiet.wellFormed]
  exact grown

/-- The frame at a place is that of the goal that was called last at its height. -/
theorem History.framed {state : State} {query : TermId} {limit place : Nat} {entry : Entry}
    (history : History program (Search.opening query limit state) (config :: past))
    (held : config.2.frames[place]? = some entry) :
    ∃ goal machine, openedAt past place = some (.call goal entry.parent, machine) ∧
      machine.frames.size = place ∧ calledAt (config :: past) place =
        some ⟨entry.parent, machine.state.arena.deref goal, machine.state.callDepth⟩ := by
  obtain ⟨goal, machine, opened, size⟩ := history.opened rfl held
  refine ⟨goal, machine, ?_, size, by rw [calledAt, opened]; rfl⟩
  rwa [openedAt_later (Array.getElem?_eq_some_iff.mp held).1] at opened

theorem Lasts.proven {state : State} {query : TermId} {limit place height : Nat}
    {parent above : Option Nat} {goal : TermId} {machine : Machine} {answered : Config}
    {here : Call}
    (lasts : Lasts ((.call goal parent, machine) :: past) above place height later answered before)
    (history : History program (Search.opening query limit state)
      ((.call goal parent, machine) :: past))
    (grounded : Grounded program state query) (poised : Poised program state query)
    (opened : calledAt ((.call goal parent, machine) :: past) place = some here)
    (listed : machine.state.callStack[here.depth]? = some here.goal) :
    ∃ called answered later before,
      Proven past machine here.goal called answered later before := by
  have grown := lasts.grown history grounded poised
  cases later with
  | nil =>
    cases lasts.split
    cases lasts.yielded
  | cons head later =>
    have split := lasts.split
    rw [List.cons_append, List.cons.injEq] at split
    obtain ⟨rfl, rfl⟩ := split
    obtain ⟨frame, held⟩ := lasts.held
    have low : place < answered.2.frames.size := (Array.getElem?_eq_some_iff.mp held).1
    have earlier := @History.earlier _ _ _ _ (_ :: later) history
    obtain ⟨other, caller, calls, rfl, -⟩ := earlier.framed held
    have same := lasts.same
    simp only [List.mem_cons, forall_eq_or_imp] at same
    have between (config : Config) (member : config ∈ later) :
        caller.frames.size < config.2.frames.size := by
      have kept := same.2 config member caller.frames.size (Nat.le_refl _) (lasts.size ▸ low)
      rw [held] at kept
      exact (Array.getElem?_eq_some_iff.mp kept).1
    have here_eq : here = ⟨above, caller.state.arena.deref other, caller.state.callDepth⟩ := by
      have top : caller.frames.size < machine.frames.size := by
        have kept := same.1 caller.frames.size (Nat.le_refl _) (lasts.size ▸ low)
        rw [held] at kept
        exact (Array.getElem?_eq_some_iff.mp kept).1
      rw [calledAt, openedAt_later top, openedAt_skip between, openedAt_later low, calls] at opened
      exact (Option.some.inj opened).symm
    subst here_eq
    refine ⟨(.call other above, caller), answered, later, before, rfl, calls,
      ⟨other, above, frame, rfl, rfl, lasts.yielded, held⟩, lasts.owned, fun index first last => ?_,
      grown, listed⟩
    rw [lasts.size] at last
    exact ⟨same.1 index first last, fun config member => same.2 config member index first last⟩

/-- A goal that is called and already on the call stack is no goal in progress. It was called before,
    has answered, and nothing of its answer was undone. -/
theorem already_called_answered {state : State} {query : TermId}
    (poised : Poised program state query) (grounded : Grounded program state query) {limit : Nat}
    {goal : TermId} {parent : Option Nat} {machine : Machine} {cell : Compound}
    (history : History program (Search.opening query limit state)
      ((.call goal parent, machine) :: past))
    (node : machine.state.arena.node (machine.state.arena.deref goal) = .compound cell)
    (active : cell.active = true) :
    (∀ place, Ancestor machine.frames parent place → ∃ called other above,
      openedAt past place = some called ∧ called.1 = .call other above ∧
        called.2.state.arena.deref other ≠ machine.state.arena.deref goal) ∧
    ∃ called answered later before,
      Proven past machine (machine.state.arena.deref goal) called answered later before := by
  obtain ⟨ledger, ⟨counters, state⟩, layers, callable⟩ := history.recalls grounded poised
  have state : machine.state = ledger.state counters := state
  have callable := callable goal parent rfl
  have standing := history.standing
  have target := standing.call goal parent rfl
  simp only [state, Ledger.arena_state] at node ⊢
  have same : ledger.arena.deref goal = goal :=
    Ledger.callable_deref callable layers.quiet.wellFormed
  rw [same] at node ⊢
  obtain ⟨shape, known⟩ := Ledger.shape_of_compound node
  have listed : goal ∈ ledger.calls := by simpa [active] using known
  have avoids := (Ledger.callable_goals callable shape).1
  have waits {place : Nat} {here : Call} (ancestor : Ancestor machine.frames parent place)
      (opened : calledAt ((.call goal parent, machine) :: past) place = some here) :
      here.goal ≠ goal := by
    rintro rfl
    refine avoids (ancestor.mem standing.attended (fun place entry held => ?_)
      (fun index same => (target index same).1) opened)
    obtain ⟨other, caller, -, -, known⟩ := history.framed held
    exact ⟨_, _, known⟩
  constructor
  · intro place ancestor
    obtain ⟨entry, held⟩ := ancestor.held
    obtain ⟨other, caller, opened, -, known⟩ := history.framed held
    exact ⟨_, other, entry.parent, opened, rfl, waits ancestor known⟩
  · obtain ⟨place, here, low, opened, rfl, kept⟩ := layers.mem_calls listed
    rw [length_marks] at low
    cases standing with
    | called waiting =>
      rcases waiting.split low with ancestor | ⟨above, last, -, later, answered, before, lasts⟩
      · exact absurd rfl (waits ancestor opened)
      · refine lasts.proven history grounded poised opened ?_
        rw [state]
        simpa [Ledger.state] using kept

end

namespace Repeated

def terms : List Shape := [.compound (.user 0) []]

def queryTerms : List Shape :=
  [.compound (.user 0) [], .compound (.reserved .conjunction) [⟨1⟩, ⟨1⟩]]

def program : Program where
  clauses := #[⟨⟨0⟩, none, .user 0, 0⟩]

def state : State where
  arena := (Arena.build? {} (terms ++ queryTerms)).getD {}

theorem ready : Ready program state where
  accepted :=
    ⟨terms, queryTerms, [⟨0⟩], (Arena.build? {} terms).getD {}, by decide +kernel, by rfl,
      by decide +kernel⟩
  untouched := rfl

theorem grounded : Grounded program state ⟨2⟩ where
  idle := rfl
  undelayed := rfl
  query := Arena.callable_of_within 3 (by decide +kernel)
  bodies := by simp [program]

def run : List Config := historyFrom program 5 [Search.opening ⟨2⟩ 4 state]

def again : Machine := (run.headD (Search.opening ⟨2⟩ 4 state)).2

theorem called_again : Poised program state ⟨2⟩ ∧ Grounded program state ⟨2⟩ ∧
    again.state.arena.deref ⟨1⟩ = ⟨1⟩ ∧
    again.state.arena.node ⟨1⟩ = .compound ⟨.user 0, [], true⟩ ∧
    (∀ place, Ancestor again.frames (some 0) place → ∃ called other above,
      openedAt run.tail place = some called ∧ called.1 = .call other above ∧
        called.2.state.arena.deref other ≠ ⟨1⟩) ∧
    ∃ called answered later before,
      Proven run.tail again ⟨1⟩ called answered later before := by
  have poised : Poised program state ⟨2⟩ := ready.poised (by decide +kernel)
  have history : History program (Search.opening ⟨2⟩ 4 state) run := History.start.steps 5
  have calls : run = (.call ⟨1⟩ (some 0), again) :: run.tail := by decide +kernel
  have same : again.state.arena.deref ⟨1⟩ = ⟨1⟩ := by decide +kernel
  have node : again.state.arena.node ⟨1⟩ = .compound ⟨.user 0, [], true⟩ := by decide +kernel
  rw [calls] at history
  have proven := already_called_answered poised grounded history (same.symm ▸ node) rfl
  rw [same] at proven
  exact ⟨poised, grounded, same, node, proven⟩

end Repeated

end Resolvent
