import Resolvent.Proofs.Search.Ready

namespace Resolvent

variable {program : Program} {limit : Nat}

/-- The places where a run can stand. After an answer it may be asked for the next one, what is
    counted in between being left open. -/
inductive Visited (program : Program) (start : Config) : Config → Prop where
  | start : Visited program start start
  | step {config next : Config} (visited : Visited program start config)
      (advances : config.2.advance program config.1 = .ok next) : Visited program start next
  | resume {machine : Machine} (counters : Counters)
      (visited : Visited program start (.notify none .yielded, machine)) :
      Visited program start (.redo, { machine with state := { machine.state with counters } })

def stepsFrom (program : Program) : Nat → Config → Config
  | 0, config => config
  | count + 1, config =>
    match config.2.advance program config.1 with
    | .ok next => stepsFrom program count next
    | .error _ => config

theorem Visited.steps {start config : Config} (visited : Visited program start config)
    (count : Nat) : Visited program start (stepsFrom program count config) := by
  induction count generalizing config with
  | zero => exact visited
  | succ count ih =>
    rw [stepsFrom]
    split
    · next next advances => exact ih (visited.step advances)
    · exact visited

theorem Visited.again {start config : Config} (visited : Visited program start config)
    (answered : config.1 = .notify none .yielded) : Visited program start (.redo, config.2) := by
  obtain ⟨step, machine⟩ := config
  subst answered
  exact visited.resume machine.state.counters

def Search.opening (goal : TermId) (limit : Nat) (state : State) : Config :=
  (.call goal none, (Search.start goal limit).machine state)

inductive Rests (program : Program) (limit : Nat) (base : Ledger) : Config → Prop where
  | yields {events : List Emission} {ledger : Ledger} {above : Array Entry} {truncated : Bool}
      (counters : Counters) (wellFormed : ledger.WellFormed)
      (plays : Plays program limit (top base) events false ⟨.redo, above, ledger, true⟩) :
      Rests program limit base (.notify none .yielded,
        { frames := above, depthLimit := limit, truncated, state := ledger.state counters })
  | ends {machine : Machine} {ledger : Ledger} (wellFormed : ledger.WellFormed)
      (state : ∃ counters, machine.state = ledger.state counters) :
      Rests program limit base (.notify none .exhausted, machine)
  | stops {config : Config} {reason : Fault} (stops : Stops program reason config) :
      Rests program limit base config

def Underway (program : Program) (limit : Nat) (base : Ledger) (config : Config) : Prop :=
  ∃ last, Reaches program config last ∧ Rests program limit base last

theorem Plays.underway {base : Ledger} {events : List Emission} {hit : Bool} {position : Position}
    (plays : Plays program limit (top base) events hit position) {ledger : Ledger}
    (admits : position.Admits ledger) (truncated : Bool) (counters : Counters) :
    Underway program limit base (position.config limit #[] ledger truncated counters) := by
  induction events generalizing hit with
  | nil =>
    obtain ⟨config, way, final, others, wellFormed, -, -, rfl⟩ :=
      plays #[] ledger truncated counters rfl admits
    exact ⟨_, way, .ends wellFormed ⟨others, rfl⟩⟩
  | cons event rest ih =>
    cases event with
    | cut => exact ih plays
    | fault reason =>
      obtain ⟨config, way, stops⟩ := plays #[] ledger truncated counters rfl admits
      exact ⟨config, way, .stops stops⟩
    | answer answer =>
      obtain ⟨wellFormed, grown, above, leads, onward⟩ := plays
      obtain ⟨config, way, final, rfl⟩ := leads #[] ledger truncated counters rfl admits
      refine ⟨_, way, ?_⟩
      simpa [top] using Rests.yields final wellFormed onward

theorem Underway.step {base : Ledger} {config next : Config}
    (underway : Underway program limit base config)
    (advances : config.2.advance program config.1 = .ok next) :
    Underway program limit base next := by
  obtain ⟨last, way, rests⟩ := underway
  cases way with
  | refl =>
    cases rests with
    | yields counters wellFormed plays =>
      cases advances
      exact ⟨_, .refl, .yields counters wellFormed plays⟩
    | ends wellFormed state =>
      cases advances
      exact ⟨_, .refl, .ends wellFormed state⟩
    | stops stops =>
      rw [stops.fails] at advances
      cases advances
  | step orderly running moves onward =>
    cases moves.symm.trans advances
    exact ⟨last, onward, rests⟩

theorem Underway.resume {base : Ledger} {machine : Machine}
    (underway : Underway program limit base (.notify none .yielded, machine))
    (counters : Counters) : Underway program limit base
      (.redo, { machine with state := { machine.state with counters } }) := by
  obtain ⟨last, way, rests⟩ := underway
  cases way with
  | refl =>
    cases rests with
    | @yields events ledger above truncated others wellFormed plays =>
      have onward := plays.underway ⟨wellFormed, .refl _, by simp⟩ truncated counters
      simp only [Position.config, Array.empty_append] at onward
      exact onward
    | stops stops => cases stops.fails
  | step orderly running => exact absurd rfl (running _)

theorem Visited.underway {base : Ledger} (wellFormed : base.WellFormed)
    (fits : program.Fits base) {goal : TermId} (live : base.Live goal) (counters : Counters)
    {config : Config}
    (visited : Visited program (Search.opening goal limit (base.state counters)) config) :
    Underway program limit base config := by
  induction visited with
  | start =>
    have plays := solve_faithful program limit limit goal base none 0 false wellFormed fits live
      (by simp) (by simp)
    have underway := plays.underway ⟨wellFormed, .refl base, fun _ => rfl⟩ false counters
    simpa [Position.config, Search.opening, Search.machine, Search.start] using underway
  | step _ advances ih => exact ih.step advances
  | resume counters _ ih => exact ih.resume counters

theorem Ready.underway {state : State} {goal : TermId} (ready : Ready program state)
    (live : state.arena.contains goal = true) {config : Config}
    (visited : Visited program (Search.opening goal limit state) config) :
    ∃ base, Underway program limit base config := by
  obtain ⟨base, same, -, wellFormed, fits⟩ := ready.ledger
  rw [same] at live visited
  exact ⟨base, visited.underway wellFormed fits ((Ledger.contains_arena base goal).mp live) _⟩

theorem Underway.orderly {base : Ledger} {config : Config}
    (underway : Underway program limit base config) :
    (∃ ledger, Orderly program ledger config) ∨ ∃ signal, config.1 = .notify none signal := by
  obtain ⟨last, way, rests⟩ := underway
  cases way with
  | refl =>
    cases rests with
    | yields | ends => exact .inr ⟨_, rfl⟩
    | stops stops =>
      obtain ⟨ledger, orderly, -⟩ := stops.stale
      exact .inl ⟨ledger, orderly⟩
  | step orderly => exact .inl ⟨_, orderly⟩

theorem Underway.held {base : Ledger} {config : Config}
    (underway : Underway program limit base config) :
    ∃ ledger : Ledger, ledger.WellFormed ∧ ∃ counters, config.2.state = ledger.state counters := by
  obtain ⟨last, way, rests⟩ := underway
  cases way with
  | refl =>
    cases rests with
    | yields counters wellFormed plays => exact ⟨_, wellFormed, counters, rfl⟩
    | ends wellFormed state => exact ⟨_, wellFormed, state⟩
    | stops stops =>
      obtain ⟨ledger, orderly, -⟩ := stops.stale
      exact ⟨ledger, orderly.wellFormed, orderly.state⟩
  | step orderly => exact ⟨_, orderly.wellFormed, orderly.state⟩

theorem Underway.stacked {base : Ledger} {config : Config}
    (underway : Underway program limit base config) :
    ∃ ledger : Ledger, ledger.WellFormed ∧ config.2.state.ledger = ledger := by
  obtain ⟨ledger, wellFormed, counters, same⟩ := underway.held
  exact ⟨ledger, wellFormed, by rw [same, Ledger.ledger_state wellFormed]⟩

theorem Underway.stale {base : Ledger} {config : Config}
    (underway : Underway program limit base config) {reason : Fault}
    (fails : config.2.advance program config.1 = .error reason) :
    ∃ ledger, Orderly program ledger config ∧ Stale program ledger config := by
  obtain ⟨last, way, rests⟩ := underway
  cases way with
  | refl =>
    cases rests with
    | yields | ends => cases fails
    | stops stops => exact stops.stale
  | step orderly running moves onward =>
    rw [moves] at fails
    cases fails

end Resolvent
