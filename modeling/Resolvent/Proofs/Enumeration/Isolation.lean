import Resolvent.Proofs.Enumeration.Running
import Resolvent.Proofs.Search.Asking

namespace Resolvent

section

variable {program : Program} {base : Ledger} {goal : TermId}

structure Undoable (program : Program) (base : Ledger) (goal : TermId) (enumeration : Enumeration) :
    Prop where
  same_query : enumeration.query = goal
  same_root : enumeration.root = base.snapshot
  running : ∃ events, Running program base enumeration events

section

variable {enumeration later : Enumeration}

theorem Undoable.close (undoable : Undoable program base goal enumeration) :
    Holds enumeration.close base := by
  obtain ⟨events, running⟩ := undoable.running
  obtain ⟨ledger, ⟨counters, same⟩, wellFormed, grown⟩ := running.held
  rw [Enumeration.close, undoable.same_root, same, Ledger.restore_state wellFormed.toConsistent grown]
  exact ⟨_, rfl⟩

theorem Undoable.round {findings : List Finding} (wellFormed : base.WellFormed)
    (fits : program.Fits base) (live : base.Live goal)
    (undoable : Undoable program base goal enumeration)
    (round : enumeration.Round findings later) : Undoable program base goal later := by
  obtain ⟨rfl, same_root, events, running⟩ := undoable
  have restored {search : Search} {state : State} {fuel : Nat} (next : enumeration.currentPass.1.next
        enumeration.program fuel enumeration.currentPass.2 = .done (false, search, state)) :
      Holds (state.restore enumeration.root) base := by
    rw [same_root]
    exact running.ended next
  cases round with
  | reports going next new =>
    obtain ⟨ledger, rest, -, -, onward⟩ := running.answered next
    exact ⟨rfl, same_root, rest, onward _ _⟩
  | suppresses going next old =>
    obtain ⟨ledger, rest, -, -, onward⟩ := running.answered next
    exact ⟨rfl, same_root, rest, onward _ _⟩
  | finishes going next last =>
    exact ⟨rfl, same_root, _,
      running_idle wellFormed fits live running.same_program rfl (restored next)⟩
  | widens going next cut low =>
    exact ⟨rfl, same_root, _,
      running_idle wellFormed fits live running.same_program rfl (restored next)⟩

theorem Undoable.rounds {findings : List Finding} (wellFormed : base.WellFormed)
    (fits : program.Fits base) (live : base.Live goal)
    (undoable : Undoable program base goal enumeration)
    (rounds : enumeration.Rounds findings later) : Undoable program base goal later := by
  induction rounds with
  | none => exact undoable
  | more round _ ih => exact ih (undoable.round wellFormed fits live round)

end

namespace Enumeration

inductive Calls : Enumeration → List (Option Solution) → Enumeration → Prop where
  | none {enumeration : Enumeration} : Calls enumeration [] enumeration
  | next {enumeration middle last : Enumeration} {result : Option Solution}
      {results : List (Option Solution)} {fuel : Nat}
      (next : enumeration.next fuel = .done (result, middle)) (rest : Calls middle results last) :
      Calls enumeration (result :: results) last

def callsWithin (fuel : Nat) : Nat → Enumeration → Option (List (Option Solution) × Enumeration)
  | 0, enumeration => some ([], enumeration)
  | count + 1, enumeration =>
    match enumeration.next fuel with
    | .done (result, later) =>
      (callsWithin fuel count later).map fun rest => (result :: rest.1, rest.2)
    | .fault _ | .unfinished => none

theorem calls_of_within (fuel count : Nat) {enumeration last : Enumeration}
    {results : List (Option Solution)}
    (called : callsWithin fuel count enumeration = some (results, last)) :
    enumeration.Calls results last := by
  induction count generalizing enumeration results with
  | zero =>
    cases called
    exact .none
  | succ count ih =>
    rw [callsWithin] at called
    split at called
    · next result later next =>
      obtain ⟨⟨others, final⟩, onward, same⟩ := Option.map_eq_some_iff.mp called
      cases same
      exact .next next (ih onward)
    all_goals cases called

theorem Calls.rounds {enumeration last : Enumeration} {results : List (Option Solution)}
    (calls : enumeration.Calls results last) : ∃ findings, enumeration.Rounds findings last := by
  induction calls with
  | none => exact ⟨[], .none⟩
  | next next _ ih =>
    obtain ⟨findings, rounds, -⟩ := next_rounds next
    obtain ⟨others, onward⟩ := ih
    exact ⟨findings ++ others, rounds.trans onward⟩

end Enumeration

namespace Engine

/-- Two engines differ at most in what was counted. -/
def Alike (first second : Engine) : Prop :=
  ∃ counters, first = { second with state := { second.state with counters } }

theorem Alike.query {first second : Engine} (alike : first.Alike second) (goal : TermId) :
    first.query goal = second.query goal := by
  obtain ⟨counters, rfl⟩ := alike
  rfl

end Engine

/-- Queries do not interfere. However often an enumeration was asked for its next answer, closing it
    leaves the engine as it was before the query, but for what was counted. So whatever is done with
    the engine next, as long as it does not go by what was counted, any later query is the same
    enumeration that it is on an engine where the first was never asked. -/
theorem queries_do_not_interfere {engine : Engine} {goal : TermId}
    (poised : Poised engine.program engine.state goal) {results : List (Option Solution)}
    {last : Enumeration} (calls : (engine.query goal).Calls results last) :
    (engine.close last).Alike engine ∧
    ∀ change : Engine → Engine,
      (∀ first second : Engine, first.Alike second → (change first).Alike (change second)) →
      ∀ later, (change (engine.close last)).query later = (change engine).query later := by
  obtain ⟨base, ⟨counters, same⟩, wellFormed, fits, live⟩ := poised
  obtain ⟨findings, rounds⟩ := calls.rounds
  have root : (engine.query goal).root = base.snapshot := by
    rw [Engine.query, Enumeration.start, same]
    exact Ledger.snapshot_state base counters
  have holds : Holds (engine.query goal).state base := by
    rw [Engine.query, Enumeration.start, same]
    exact ⟨{}, rfl⟩
  have start : Undoable engine.program base goal (engine.query goal) :=
    ⟨rfl, root, _, running_idle wellFormed fits live rfl rfl holds⟩
  obtain ⟨others, closed⟩ := (start.rounds wellFormed fits live rounds).close
  have alike : (engine.close last).Alike engine := by
    refine ⟨others, ?_⟩
    rw [Engine.close, closed, same]
    rfl
  exact ⟨alike, fun change blind later => Engine.Alike.query (blind _ _ alike) later⟩

end

namespace Surfaced

def engine : Engine where
  program := program
  policy := { initial := 7, maximum := 30 }
  state := state

def extended (engine : Engine) : Engine :=
  { engine with state :=
      { engine.state with arena := (engine.state.arena.place (.compound (.user 1) [])).2 } }

theorem extended_alike {first second : Engine} (alike : first.Alike second) :
    (extended first).Alike (extended second) := by
  obtain ⟨counters, rfl⟩ := alike
  exact ⟨counters, rfl⟩

/-- A query is dropped after its second answer, which is found in the second pass. -/
theorem dropped_after_two : Poised engine.program engine.state ⟨15⟩ ∧
    ∃ results last, (engine.query ⟨15⟩).Calls results last ∧ results.length = 2 ∧
      last.depthLimit ≠ engine.policy.first ∧ (engine.close last).Alike engine ∧
      (extended (engine.close last)).query ⟨16⟩ = (extended engine).query ⟨16⟩ := by
  have seen : (Enumeration.callsWithin 200 2 (engine.query ⟨15⟩)).map (fun result =>
      (result.1.map Option.isSome, result.2.depthLimit)) = some ([true, true], 14) := by
    decide +kernel
  obtain ⟨⟨results, last⟩, called, same⟩ := Option.map_eq_some_iff.mp seen
  simp only [Prod.mk.injEq] at same
  have calls := Enumeration.calls_of_within 200 2 called
  obtain ⟨alike, later⟩ := @queries_do_not_interfere engine _ poised _ _ calls
  have length : results.length = 2 := by simpa using congrArg List.length same.1
  have wider : last.depthLimit ≠ engine.policy.first := by
    rw [same.2]
    decide
  exact ⟨poised, results, last, calls, length, wider, alike,
    later extended (fun _ _ => extended_alike) ⟨16⟩⟩

end Surfaced

end Resolvent
