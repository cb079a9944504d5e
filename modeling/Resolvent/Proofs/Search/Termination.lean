import Resolvent.Proofs.Search.BodyStart
import Resolvent.Proofs.Search.Depth

namespace Resolvent

variable {program : Program}

def Fault.Outside (reason : Fault) : Prop := ∃ size index, reason = .outOfRange size index

namespace Arena

variable {arena : Arena} {reason : Fault}

theorem require_error {id : TermId} (failed : arena.require id = .error reason) : reason.Outside := by
  rw [require] at failed
  split at failed
  · cases failed
  · cases failed
    exact ⟨_, _, rfl⟩

theorem requireAll_error {ids : List TermId} (failed : arena.requireAll ids = .error reason) :
    reason.Outside := by
  induction ids with
  | nil => cases failed
  | cons id ids ih =>
    simp only [requireAll, Bind.bind, Except.bind] at failed
    split at failed
    · next error first =>
      cases failed
      exact require_error first
    · exact ih failed

theorem copyAll_error
    {copy : Arena → Renaming → TermId → Except Fault (TermId × Arena × Renaming)}
    (each : ∀ {arena names term reason}, copy arena names term = .error reason → reason.Outside)
    {names : Renaming} {terms : List TermId}
    (failed : copyAll copy arena names terms = .error reason) : reason.Outside := by
  induction terms generalizing arena names with
  | nil => cases failed
  | cons term terms ih =>
    simp only [copyAll, Bind.bind, Except.bind] at failed
    split at failed
    · next error first =>
      cases failed
      exact each first
    · split at failed
      · next error rest =>
        cases failed
        exact ih rest
      · cases failed

theorem instantiateWithin_error {fuel : Nat} {names : Renaming} {term : TermId}
    (failed : arena.instantiateWithin fuel names term = .error reason) : reason.Outside := by
  induction fuel generalizing arena names term reason with
  | zero => cases failed
  | succ fuel ih =>
    simp only [instantiateWithin, Bind.bind, Except.bind] at failed
    split at failed
    · next error required =>
      cases failed
      exact require_error required
    · split at failed
      · cases failed
      · split at failed <;> cases failed
      · split at failed
        · next error copied =>
          cases failed
          exact copyAll_error ih copied
        · split at failed
          · next error required =>
            cases failed
            exact requireAll_error required
          · cases failed

end Arena

inductive Astray (program : Program) (config : Config) (reason : Fault) : Prop where
  | called {goal : TermId} {parent : Option Nat} (calls : config.1 = .call goal parent)
      (absent : config.2.state.arena.contains goal = false)
      (same : reason = .outOfRange config.2.state.arena.size goal.index) :
      Astray program config reason
  | copied {index : Nat} {goal : TermId} {expansion : Expansion} {clause : Clause} {body : TermId}
      (start : BodyStart program config index goal expansion clause body)
      (failed : config.2.state.copyBody expansion.names body = .error reason) :
      Astray program config reason

theorem Astray.outside {config : Config} {reason : Fault} (astray : Astray program config reason) :
    reason.Outside := by
  cases astray with
  | called _ _ same => exact ⟨_, _, same⟩
  | copied _ failed =>
    simp only [State.copyBody, Bind.bind, Except.bind] at failed
    split at failed
    · next error copied =>
      cases failed
      exact Arena.instantiateWithin_error copied
    · cases failed

theorem Stops.astray {reason : Fault} {config : Config} (stops : Stops program reason config) :
    Astray program config reason := by
  obtain ⟨⟨ledger, orderly, stale⟩, fails⟩ := stops
  obtain ⟨counters, same⟩ := orderly.state
  cases stale with
  | start start dead =>
    obtain ⟨next, parent, advances⟩ := start.advance
    refine .copied start ?_
    rw [advances _ rfl] at fails
    cases copied : config.2.state.copyBody _ _ with
    | error error =>
      rw [copied] at fails
      cases fails
      rfl
    | ok made =>
      rw [copied] at fails
      cases fails
  | @called goal parent clause body calls stray =>
    have absent : config.2.state.arena.contains goal = false := by
      rw [same, ← Bool.not_eq_true]
      exact fun inside => stray.dead ((Ledger.contains_arena ledger goal).mp inside)
    rw [calls, Machine.advance, Machine.call] at fails
    have required : (config.2.record .goal).state.arena.require goal =
        .error (.outOfRange config.2.state.arena.size goal.index) := by
      change config.2.state.arena.require goal = _
      rw [Arena.require, absent]
      rfl
    simp only [required, Bind.bind, Except.bind, Except.error.injEq] at fails
    exact .called calls absent fails.symm

theorem Stops.outside {reason : Fault} {config : Config} (stops : Stops program reason config) :
    reason.Outside := stops.astray.outside

section

variable {α : Type}

def Settles (run : Nat → Outcome α) (outcome : Outcome α) : Prop :=
  ∃ fuel, ∀ more, fuel ≤ more → run more = outcome

theorem Settles.succ {run later : Nat → Outcome α} {outcome : Outcome α}
    (settles : Settles later outcome) (fuel : Nat)
    (first : ∀ more, fuel ≤ more → run (more + 1) = later more) :
    Settles run outcome := by
  obtain ⟨enough, came⟩ := settles
  refine ⟨max fuel enough + 1, fun more above => ?_⟩
  obtain ⟨more, rfl⟩ : ∃ less, more = less + 1 := ⟨more - 1, by omega⟩
  rw [first more (by omega), came more (by omega)]

theorem settles_at (outcome : Outcome α) : Settles (fun _ => outcome) outcome := ⟨0, fun _ _ => rfl⟩

inductive Returns (run : Nat → Outcome α) : Prop where
  | done {value : α} (settles : Settles run (.done value)) : Returns run
  | fault {reason : Fault} (outside : reason.Outside) (settles : Settles run (.fault reason)) :
      Returns run

theorem Returns.succ {run later : Nat → Outcome α} (returns : Returns later) (fuel : Nat)
    (first : ∀ more, fuel ≤ more → run (more + 1) = later more) : Returns run := by
  cases returns with
  | done settles => exact .done (settles.succ fuel first)
  | fault outside settles => exact .fault outside (settles.succ fuel first)

theorem Returns.map {β : Type} {run : Nat → Outcome α} (returns : Returns run) (change : α → β) :
    Returns fun fuel => (run fuel).map change := by
  cases returns with
  | done settles =>
    obtain ⟨fuel, came⟩ := settles
    exact .done ⟨fuel, fun more enough => congrArg (Outcome.map change) (came more enough)⟩
  | fault outside settles =>
    obtain ⟨fuel, came⟩ := settles
    exact .fault outside ⟨fuel, fun more enough => congrArg (Outcome.map change) (came more enough)⟩

end

theorem Reaches.run_fault {config last : Config} (reaches : Reaches program config last)
    {reason : Fault} (stops : Stops program reason last) :
    Settles (fun fuel => Machine.run program fuel config.1 config.2) (.fault reason) := by
  induction reaches with
  | @refl config =>
    refine (settles_at _).succ 0 fun more _ => ?_
    rw [run_succ stops.running, stops.fails]
  | step orderly running advances rest ih =>
    refine (ih stops).succ 0 fun more _ => ?_
    rw [run_succ running, advances]

theorem Search.Comes.returns {search : Search} {state : State} {result : Bool × Search × State}
    (comes : search.Comes program state result) :
    Returns fun fuel => search.next program fuel state := by
  obtain ⟨⟨fuel, next⟩, -⟩ := comes
  exact .done ⟨fuel, fun more enough => Search.next_mono enough next⟩

/-- A search that stands before something returns when it is asked for its next answer. -/
theorem Stands.returns {base : Ledger} {search : Search} {state : State} {events : List Emission}
    {hit exact : Bool} (stands : Stands program base search state events hit exact) :
    Returns fun fuel => search.next program fuel state := by
  induction events generalizing hit with
  | nil =>
    obtain ⟨last, counters, later, comes, -⟩ := stands.ended
    exact comes.returns
  | cons event rest ih =>
    cases event with
    | cut => exact ih stands.cut
    | answer ledger =>
      obtain ⟨-, -, later, counters, comes, -⟩ := stands.answered
      exact comes.returns
    | fault reason =>
      obtain ⟨position, ledger, counters, plays, admits, same, frames, phase⟩ := stands
      obtain ⟨config, way, stops⟩ := Leads.onward plays admits same frames
      obtain ⟨fuel, ran⟩ := way.run_fault stops
      refine .fault stops.outside ⟨fuel, fun more enough => ?_⟩
      have faulted : Machine.run program more position.step (search.machine state) = .fault reason :=
        ran more enough
      simp only [Search.next_run more phase, faulted]

end Resolvent
