import Resolvent.Proofs.Enumeration.Rounds
import Resolvent.Proofs.Search.Pass

namespace Resolvent

variable {program : Program} {base : Ledger} {enumeration : Enumeration} {events : List Emission}

structure Running (program : Program) (base : Ledger) (enumeration : Enumeration)
    (events : List Emission) : Prop where
  same_program : enumeration.program = program
  held : ∃ ledger, Holds enumeration.state ledger ∧ ledger.WellFormed ∧ ledger.Extends base
  stands : ∃ hit, Stands program base enumeration.currentPass.1 enumeration.currentPass.2 events hit

/-- A pass that is yet to be started has all before it that its goal comes to. -/
theorem running_idle (wellFormed : base.WellFormed) (fits : program.Fits base)
    (live : base.Live enumeration.query) (same_program : enumeration.program = program)
    (idle : enumeration.pass = none) (holds : Holds enumeration.state base) :
    Running program base enumeration
      (solve program enumeration.depthLimit.toNat (enumeration.depthLimit.toNat + 1)
        enumeration.query base) := by
  obtain ⟨counters, same⟩ := holds
  have pass : enumeration.currentPass = (.start enumeration.query enumeration.depthLimit.toNat,
      base.state (counters.record .pass 1)) := by
    simp only [Enumeration.currentPass, idle, same]
    rfl
  have stands := stands_start wellFormed fits live enumeration.depthLimit.toNat
    (counters.record .pass 1)
  refine ⟨same_program, ⟨base, ⟨counters, same⟩, wellFormed, .refl base⟩, false, ?_⟩
  rw [pass]
  exact stands

/-- A pass that has an answer goes on to what is left, whatever is done with the answer. -/
theorem Running.answered {search : Search} {state : State} {fuel : Nat}
    (running : Running program base enumeration events)
    (next : enumeration.currentPass.1.next enumeration.program fuel enumeration.currentPass.2 =
      .done (true, search, state)) :
    ∃ ledger rest, answersOf events = ledger :: answersOf rest ∧ Holds state ledger ∧
      ∀ (event : Event) (seen : List (Array Choice)), Running program base
        { enumeration with pass := some search, seen, state := state.record event } rest := by
  obtain ⟨hit, stands⟩ := running.stands
  rw [running.same_program] at next
  obtain ⟨ledger, rest, listed, ⟨counters, rfl⟩, wellFormed, grown, onward⟩ :=
    stands.next_answer next
  refine ⟨ledger, rest, listed, ⟨counters, rfl⟩, fun event seen => ⟨running.same_program, ?_, ?_⟩⟩
  · exact ⟨ledger, ⟨_, rfl⟩, wellFormed, grown⟩
  · exact ⟨false, onward (counters.record event 1)⟩

theorem Running.ended {search : Search} {state : State} {fuel : Nat}
    (running : Running program base enumeration events)
    (next : enumeration.currentPass.1.next enumeration.program fuel enumeration.currentPass.2 =
      .done (false, search, state)) : Holds (state.restore base.snapshot) base := by
  obtain ⟨hit, stands⟩ := running.stands
  rw [running.same_program] at next
  obtain ⟨-, ledger, ⟨counters, rfl⟩, wellFormed, grown, -⟩ := stands.next_end next
  rw [Ledger.restore_state wellFormed.toConsistent grown]
  exact ⟨_, rfl⟩

end Resolvent
