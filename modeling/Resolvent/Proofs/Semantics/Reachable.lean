import Resolvent.Proofs.Semantics.Upheld

namespace Resolvent

variable {program : Program}

/-- A goal can be called where a search starts. It can be called after that once a term was built, a
    compound was put on the call stack, a builtin goal was reduced to another, or a goal was proven. -/
inductive Reachable (program : Program) : State → Prop where
  | starts {state : State} (ready : Ready program state) : Reachable program state
  | builds {state : State} {shape : Shape} (before : Reachable program state)
      (inside : shape.args.all state.arena.contains = true) :
      Reachable program { state with arena := (state.arena.place shape).2 }
  | enters {state : State} {goal : TermId} {cell : Compound} (before : Reachable program state)
      (held : state.arena.compound? goal = some cell) (idle : cell.active = false)
      (choice : Option Choice) : Reachable program (state.register goal choice).2
  | reduces {state later : State} {goal left right next : TermId} {cell : Compound}
      {builtin : Builtin} (before : Reachable program state)
      (held : state.arena.compound? goal = some cell) (form : cell.form = .builtin builtin left right)
      (performs : state.perform left right builtin = .ok (.delegates next, later)) :
      Reachable program later
  | proves {state answer : State} {goal : TermId} {limit : Nat} (before : Reachable program state)
      (live : state.arena.contains goal = true)
      (yields : (Search.start goal limit).Yields program state answer) : Reachable program answer

structure Ledger.Accounts (program : Program) (ledger : Ledger) (state : State) : Prop where
  holds : Holds state ledger
  wellFormed : ledger.WellFormed
  fits : program.Fits ledger
  upheld : ledger.Upheld

theorem Ledger.idle_of_compound? {ledger : Ledger} {goal : TermId} {cell : Compound}
    (held : ledger.arena.compound? goal = some cell) (idle : cell.active = false) :
    goal ∉ ledger.calls := by
  rw [Arena.compound?, Ledger.node_compound (Ledger.shape_of_compound? held)] at held
  rw [← Option.some.inj held] at idle
  simpa using idle

theorem Ledger.Accounts.builds {ledger : Ledger} {state : State} {shape : Shape}
    (accounts : ledger.Accounts program state)
    (inside : shape.args.all state.arena.contains = true) :
    (ledger.allocate shape).Accounts program { state with arena := (state.arena.place shape).2 } := by
  obtain ⟨⟨counters, rfl⟩, wellFormed, fits, upheld⟩ := accounts
  have admits : ledger.Admits shape := by
    rintro symbol args rfl arg member
    rw [List.all_eq_true, Ledger.arena_state] at inside
    exact (Ledger.contains_arena ledger arg).mp (inside arg member)
  have grown := Ledger.allocate_allocates wellFormed admits
  refine ⟨⟨counters, ?_⟩, grown.wellFormed, fits.later grown.extends,
    upheld.allocates wellFormed grown⟩
  rw [Ledger.arena_state, Ledger.arena_place wellFormed.toConsistent admits]
  exact grown.state counters

theorem Ledger.Accounts.enters {ledger : Ledger} {state : State} {goal : TermId} {cell : Compound}
    (accounts : ledger.Accounts program state) (held : state.arena.compound? goal = some cell)
    (idle : cell.active = false) (choice : Option Choice) :
    (ledger.register goal choice).Accounts program (state.register goal choice).2 := by
  obtain ⟨⟨counters, rfl⟩, wellFormed, fits, upheld⟩ := accounts
  rw [Ledger.arena_state] at held
  have entered := wellFormed.register choice (Ledger.shape_of_compound? held)
    (Ledger.idle_of_compound? held idle)
  have grown := ledger.register_extends goal choice
  refine ⟨⟨counters, ?_⟩, entered, fits.later grown,
    upheld.stays wellFormed (.marks entered grown rfl rfl) rfl rfl⟩
  rw [Ledger.register_state]

theorem Ledger.Accounts.reduces {ledger : Ledger} {state later : State}
    {goal left right next : TermId} {cell : Compound} {builtin : Builtin}
    (accounts : ledger.Accounts program state) (held : state.arena.compound? goal = some cell)
    (form : cell.form = .builtin builtin left right)
    (performs : state.perform left right builtin = .ok (.delegates next, later)) :
    ∃ last : Ledger, last.Accounts program later := by
  obtain ⟨⟨counters, rfl⟩, wellFormed, fits, upheld⟩ := accounts
  rw [Ledger.arena_state] at held
  have form : formOf cell.symbol cell.args = .builtin builtin left right := form
  obtain ⟨leftLive, rightLive⟩ := wellFormed.live_sides (Ledger.shape_of_compound? held) form
  obtain ⟨reply, last, comes, run⟩ := Ledger.perform_state wellFormed leftLive rightLive builtin
  obtain ⟨others, ran⟩ := run counters
  rw [performs] at ran
  obtain ⟨rfl, rfl⟩ := Prod.mk.inj (Except.ok.inj ran)
  have advances := comes.advances wellFormed leftLive rightLive
  exact ⟨last, ⟨others, rfl⟩, advances.wellFormed, fits.later advances.grown,
    comes.upheld_of_form upheld wellFormed leftLive rightLive form (by simp)⟩

/-- What a goal is proven by, on the stacks of the state in which it is called. -/
theorem Ledger.Accounts.derives {ledger : Ledger} {state answer : State} {goal : TermId}
    {limit : Nat} (accounts : ledger.Accounts program state)
    (live : state.arena.contains goal = true)
    (yields : (Search.start goal limit).Yields program state answer) :
    ∃ last, Derives program goal ledger last ∧ last.Accounts program answer := by
  obtain ⟨⟨counters, rfl⟩, wellFormed, fits, upheld⟩ := accounts
  rw [Ledger.arena_state] at live
  obtain ⟨last, derives, holds⟩ :=
    yields.derives ⟨wellFormed, fits, (Ledger.contains_arena ledger goal).mp live⟩
  exact ⟨last, derives, holds, derives.grows.1, fits.later derives.grows.2, derives.upheld upheld⟩

theorem Reachable.ledger {state : State} (reachable : Reachable program state) :
    ∃ ledger : Ledger, ledger.Accounts program state := by
  induction reachable with
  | starts ready =>
    obtain ⟨base, same, untouched, wellFormed, fits⟩ := ready.ledger
    exact ⟨base, ⟨_, same⟩, wellFormed, fits, untouched.upheld wellFormed⟩
  | builds _ inside ih =>
    obtain ⟨ledger, accounts⟩ := ih
    exact ⟨_, accounts.builds inside⟩
  | enters _ held idle choice ih =>
    obtain ⟨ledger, accounts⟩ := ih
    exact ⟨_, accounts.enters held idle choice⟩
  | reduces _ held form performs ih =>
    obtain ⟨ledger, accounts⟩ := ih
    exact accounts.reduces held form performs
  | proves _ live yields ih =>
    obtain ⟨ledger, accounts⟩ := ih
    obtain ⟨last, -, answered⟩ := accounts.derives live yields
    exact ⟨last, answered⟩

end Resolvent
