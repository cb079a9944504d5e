import Resolvent.Proofs.Search.Placement
import Resolvent.Proofs.Search.Truncation

namespace Resolvent

section

variable {program : Program} {limit wider : Nat}

theorem run_mono {fuel more : Nat} (enough : fuel ≤ more) {step : Step} {machine : Machine}
    {result : Signal × Machine} (ran : Machine.run program fuel step machine = .done result) :
    Machine.run program more step machine = .done result := by
  induction fuel generalizing more step machine with
  | zero => cases ran
  | succ fuel ih =>
    obtain ⟨more, rfl⟩ : ∃ less, more = less + 1 := ⟨more - 1, by omega⟩
    obtain ⟨_, ⟨⟩, ⟨signal, rfl, rfl⟩ | ⟨running, next, advances, goesOn⟩⟩ := run_done ran
    · rfl
    · rw [run_succ running, advances]
      exact ih (by omega) goesOn

namespace Search

theorem next_mono {fuel more : Nat} (enough : fuel ≤ more) {search : Search} {state : State}
    {result : Bool × Search × State} (next : search.next program fuel state = .done result) :
    search.next program more state = .done result := by
  obtain ⟨found, later, answer⟩ := result
  rcases next_done next with ⟨finished, rfl, rfl, rfl⟩ | ⟨step, signal, machine, phase, ran, rfl, rfl, rfl⟩
  · simp [Search.next, finished]
  · rw [next_run more phase, run_mono enough ran]

theorem next_alike {fuel other : Nat} {search : Search} {state : State}
    {result also : Bool × Search × State} (next : search.next program fuel state = .done result)
    (again : search.next program other state = .done also) : result = also := by
  have first := next_mono (Nat.le_max_left fuel other) next
  have second := next_mono (Nat.le_max_right fuel other) again
  exact Outcome.done.inj (first.symm.trans second)

theorem Pass.alike {search : Search} {state : State} {answers others : List State}
    {truncated also : Bool} (pass : search.Pass program state answers truncated)
    (again : search.Pass program state others also) : answers = others ∧ truncated = also := by
  induction pass generalizing others with
  | ended next =>
    cases again with
    | ended again =>
      cases next_alike next again
      exact ⟨rfl, rfl⟩
    | answered again _ => cases next_alike next again
  | answered next _ ih =>
    cases again with
    | ended again => cases next_alike next again
    | answered again rest =>
      cases next_alike next again
      obtain ⟨rfl, same⟩ := ih rest
      exact ⟨rfl, same⟩

end Search

namespace Machine

def within (machine : Machine) (limit : Nat) : Machine := { machine with depthLimit := limit }

end Machine

def alone (limit : Nat) : Placement where
  outer := #[]
  root := none
  limit := limit

theorem alone_parent (parent : Option Nat) : (alone limit).parent parent = parent := by
  cases parent <;> simp [alone, Placement.parent]

theorem alone_step (step : Step) : (alone limit).step step = step := by
  cases step <;> simp [Placement.step, alone_parent]

theorem alone_machine (machine : Machine) : (alone limit).machine machine = machine.within limit := by
  have entry : (alone limit).entry = id := by
    funext entry
    simp [Placement.entry, alone_parent]
  simp only [Placement.machine, entry, Array.map_id, Machine.within, Machine.mk.injEq, and_true]
  exact ⟨Array.empty_append, rfl⟩

theorem alone_advance {step : Step} {machine : Machine} {next : Step × Machine}
    (calm : (alone limit).Calm program (step, machine))
    (advances : machine.advance program step = .ok next) :
    (machine.within limit).advance program step = .ok (next.1, next.2.within limit) := by
  by_cases ends : ∃ signal, step = .notify none signal
  · obtain ⟨signal, rfl⟩ := ends
    cases advances
    rfl
  · have same := Placement.advance_machine (fun signal same => ends ⟨signal, same⟩)
      (fun _ => .inr ⟨rfl, rfl⟩) calm
    rw [alone_step, alone_machine, advances] at same
    simp only [Except.map, Placement.config, alone_step, alone_machine] at same
    cases made : (machine.within limit).advance program step with
    | error reason => simp [made, Except.toOption] at same
    | ok other => simpa [made, Except.toOption] using same

theorem advance_depthLimit {step : Step} {machine : Machine} {next : Step × Machine}
    (advances : machine.advance program step = .ok next) :
    next.2.depthLimit = machine.depthLimit := by
  have same := @alone_advance program machine.depthLimit step machine next (.inl rfl) advances
  have kept : machine.within machine.depthLimit = machine := rfl
  rw [kept, advances] at same
  exact congrArg (fun config => config.2.depthLimit) (Except.ok.inj same)

theorem run_within {fuel : Nat} {step : Step} {machine last : Machine} {signal : Signal}
    (more : machine.depthLimit ≤ wider) (uncut : last.hits ≤ machine.hits)
    (ran : Machine.run program fuel step machine = .done (signal, last)) :
    Machine.run program fuel step (machine.within wider) = .done (signal, last.within wider) := by
  induction fuel generalizing step machine with
  | zero => cases ran
  | succ fuel ih =>
    obtain ⟨_, ⟨⟩, ⟨heard, rfl, same⟩ | ⟨running, next, advances, goesOn⟩⟩ := run_done ran
    · cases same
      rfl
    · have up := (Machine.advance_moves advances).hits_le
      have on := run_hits_le goesOn
      simp only at up on
      have calm : (alone wider).Calm program (step, machine) := by
        refine .inr ⟨more, fun other also => ?_⟩
        cases advances.symm.trans also
        exact Nat.le_antisymm (Nat.le_trans on uncut) up
      rw [run_succ running, alone_advance calm advances]
      exact ih (advance_depthLimit advances ▸ more) (Nat.le_trans uncut up) goesOn

namespace Search

def within (search : Search) (limit : Nat) : Search := { search with depthLimit := limit }

variable {search later : Search} {state answer : State} {fuel : Nat} {found : Bool}

theorem next_hits_le (next : search.next program fuel state = .done (found, later, answer)) :
    state.hits ≤ answer.hits := by
  rcases next_done next with ⟨-, -, -, rfl⟩ | ⟨step, signal, machine, -, ran, -, -, rfl⟩
  · exact Nat.le_refl _
  · exact run_hits_le ran

theorem next_depthLimit (next : search.next program fuel state = .done (found, later, answer)) :
    later.depthLimit = search.depthLimit := by
  rcases next_done next with ⟨-, -, rfl, -⟩ | ⟨step, signal, machine, -, -, -, rfl, -⟩ <;> rfl

/-- As long as no goal is cut off, a search goes on alike within a wider depth limit. -/
theorem next_within (more : search.depthLimit ≤ wider) (uncut : answer.hits ≤ state.hits)
    (next : search.next program fuel state = .done (found, later, answer)) :
    (search.within wider).next program fuel state = .done (found, later.within wider, answer) := by
  rcases next_done next with ⟨finished, rfl, rfl, rfl⟩ | ⟨step, signal, machine, phase, ran, rfl, rfl, rfl⟩
  · simp [Search.next, within, finished]
  · have phase : (search.within wider).phase.step? = some step := phase
    have ran : Machine.run program fuel step ((search.within wider).machine state) =
        .done (signal, machine.within wider) :=
      @run_within program wider fuel step (search.machine state) machine signal more uncut ran
    rw [next_run fuel phase, ran]
    rfl

theorem Pass.within {count : Nat} {answers : List State} {truncated : Bool}
    (pass : search.Pass program state answers truncated) (complete : truncated = false)
    (settled : Settled count search state) (more : search.depthLimit ≤ wider) :
    state.hits ≤ count ∧ (search.within wider).Pass program state answers false := by
  induction pass with
  | @ended search last state after fuel next =>
    have exact := (settled.next next).exact
    have quiet : after.hits ≤ count := by simpa [complete] using exact
    have uncut := Nat.le_trans quiet settled.low
    have onward := @Pass.ended program (search.within wider) (last.within wider) state after fuel
      (next_within more uncut next)
    exact ⟨Nat.le_trans (next_hits_le next) quiet, complete ▸ onward⟩
  | answered next _ ih =>
    obtain ⟨quiet, onward⟩ := ih complete (settled.next next) (next_depthLimit next ▸ more)
    have uncut := Nat.le_trans quiet settled.low
    exact ⟨Nat.le_trans (next_hits_le next) quiet, .answered (next_within more uncut next) onward⟩

end Search

/-- The flag for goals cut off is exact. Wherever a pass returns, it is set just if the count of such
    goals has grown since the start, also by goals under a negation. A pass that ends without it has
    the same answers in the same order within every wider limit, and ends without it there too. -/
theorem truncation_exact (program : Program) (state : State) (goal : TermId) (limit : Nat) :
    (∀ answers later last, (Search.start goal limit).Asks program state answers later last →
      (later.truncated = true ↔ state.counters.depthHits < last.counters.depthHits) ∧
      ∀ fuel found further after, later.next program fuel last = .done (found, further, after) →
        (further.truncated = true ↔ state.counters.depthHits < after.counters.depthHits)) ∧
    ∀ answers, (Search.start goal limit).Pass program state answers false → ∀ wider, limit ≤ wider →
      ∀ others truncated, (Search.start goal wider).Pass program state others truncated ↔
        others = answers ∧ truncated = false := by
  have start := settled_start goal limit state
  constructor
  · intro answers later last asks
    have settled := start.asks asks
    exact ⟨settled.exact, fun fuel found further after next => (settled.next next).exact⟩
  · intro answers pass wider more others truncated
    have onward : (Search.start goal wider).Pass program state answers false :=
      (pass.within rfl start more).2
    constructor
    · intro also
      obtain ⟨same, complete⟩ := also.alike onward
      exact ⟨same, complete⟩
    · rintro ⟨rfl, rfl⟩
      exact onward

end

namespace Surfaced

def cutEnd : Search × State := (asked 7 1).2.1.after program 100 (asked 7 1).2.2

/-- Within a limit of 7 only the goal under the negation is cut off, after an answer. Within 11 no goal
    is, and there are two answers within every wider limit. -/
theorem cut_under_negation :
    (∃ answer later last after, ∃ final : Search,
      (Search.start ⟨15⟩ 7).Asks program state [answer] later last ∧
      later.next program 100 last = .done (false, final, after) ∧
      final.truncated = true ∧ state.counters.depthHits < after.counters.depthHits) ∧
    ∃ answers, answers.length = 2 ∧ (Search.start ⟨15⟩ 11).Pass program state answers false ∧
      ∀ others truncated, (Search.start ⟨15⟩ 50).Pass program state others truncated ↔
        others = answers ∧ truncated = false := by
  constructor
  · obtain ⟨answer, one⟩ : ∃ answer, (asked 7 1).1 = [answer] :=
      List.length_eq_one_iff.mp (by decide +kernel)
    have asks := asks_one
    rw [one] at asks
    have ends : (asked 7 1).2.1.next program 100 (asked 7 1).2.2 = .done (false, cutEnd.1, cutEnd.2) := by
      decide +kernel
    have flag : cutEnd.1.truncated = true := by decide +kernel
    have exact := ((truncation_exact program state ⟨15⟩ 7).1 _ _ _ asks).2 100 false _ _ ends
    exact ⟨answer, _, _, _, _, asks, ends, flag, exact.mp flag⟩
  · have played : Search.passWithin program 100 3 (.start ⟨15⟩ 11) state =
        some ((asked 11 2).1, false) := by decide +kernel
    have pass := Search.pass_of_within 100 3 played
    exact ⟨_, by decide +kernel, pass,
      (truncation_exact program state ⟨15⟩ 11).2 _ pass 50 (by decide)⟩

end Surfaced

end Resolvent
