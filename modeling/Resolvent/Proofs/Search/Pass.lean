import Resolvent.Search
import Resolvent.Proofs.Search.Adequacy

namespace Resolvent

variable {program : Program}

namespace Search

inductive Pass (program : Program) : Search → State → List State → Bool → Prop where
  | ended {search last : Search} {state after : State} {fuel : Nat}
      (next : search.next program fuel state = .done (false, last, after)) :
      Pass program search state [] last.truncated
  | answered {search later : Search} {state answer : State} {answers : List State}
      {truncated : Bool} {fuel : Nat}
      (next : search.next program fuel state = .done (true, later, answer))
      (rest : Pass program later answer answers truncated) :
      Pass program search state (answer :: answers) truncated

inductive Yields (program : Program) : Search → State → State → Prop where
  | here {search later : Search} {state answer : State} {fuel : Nat}
      (next : search.next program fuel state = .done (true, later, answer)) :
      Yields program search state answer
  | later {search later : Search} {state first answer : State} {fuel : Nat}
      (next : search.next program fuel state = .done (true, later, first))
      (rest : Yields program later first answer) : Yields program search state answer

theorem Pass.yields {search : Search} {state answer : State} {answers : List State}
    {truncated : Bool} (pass : search.Pass program state answers truncated)
    (member : answer ∈ answers) : search.Yields program state answer := by
  induction pass with
  | ended => cases member
  | answered next _ ih =>
    rcases List.mem_cons.mp member with rfl | rest
    · exact .here next
    · exact .later next (ih rest)

def passWithin (program : Program) (fuel : Nat) : Nat → Search → State → Option (List State × Bool)
  | 0, _, _ => none
  | count + 1, search, state =>
    match search.next program fuel state with
    | .done (true, later, answer) =>
      (passWithin program fuel count later answer).map fun rest => (answer :: rest.1, rest.2)
    | .done (false, last, _) => some ([], last.truncated)
    | .fault _ | .unfinished => none

theorem pass_of_within (fuel count : Nat) {search : Search} {state : State} {answers : List State}
    {truncated : Bool} (played : passWithin program fuel count search state = some (answers, truncated)) :
    search.Pass program state answers truncated := by
  induction count generalizing search state answers with
  | zero => cases played
  | succ count ih =>
    rw [passWithin] at played
    split at played
    · next later answer next =>
      obtain ⟨⟨others, flag⟩, rest, same⟩ := Option.map_eq_some_iff.mp played
      cases same
      exact .answered next (ih rest)
    · next last after next =>
      cases played
      exact .ended next
    · cases played
    · cases played

end Search

theorem run_succ {fuel : Nat} {step : Step} {machine : Machine}
    (running : ∀ signal, step ≠ .notify none signal) :
    Machine.run program (fuel + 1) step machine =
      match machine.advance program step with
      | .ok (step, machine) => Machine.run program fuel step machine
      | .error reason => .fault reason := by
  cases step with
  | notify target signal =>
    cases target with
    | none => exact absurd rfl (running signal)
    | some index => rfl
  | call | redo => rfl

/-- A run that ends stands at the signal that ends it, or makes a step and ends after it. -/
theorem run_done {fuel : Nat} {step : Step} {machine : Machine} {result : Signal × Machine}
    (ran : Machine.run program fuel step machine = .done result) :
    ∃ less, fuel = less + 1 ∧
      ((∃ signal, step = .notify none signal ∧ result = (signal, machine)) ∨
        (∀ signal, step ≠ .notify none signal) ∧ ∃ next, machine.advance program step = .ok next ∧
          Machine.run program less next.1 next.2 = .done result) := by
  cases fuel with
  | zero => cases ran
  | succ less =>
    refine ⟨less, rfl, ?_⟩
    by_cases ends : ∃ signal, step = .notify none signal
    · obtain ⟨signal, rfl⟩ := ends
      exact .inl ⟨signal, rfl, (Outcome.done.inj ran).symm⟩
    · have running (signal : Signal) (same : step = .notify none signal) := ends ⟨signal, same⟩
      rw [run_succ running] at ran
      cases advances : machine.advance program step with
      | error reason => simp [advances] at ran
      | ok next => exact .inr ⟨running, next, rfl, by simpa only [advances] using ran⟩

theorem Reaches.run {config last : Config} (reaches : Reaches program config last)
    {signal : Signal} (final : last.1 = .notify none signal) :
    ∃ fuel, Machine.run program fuel config.1 config.2 = .done (signal, last.2) := by
  induction reaches with
  | @refl config =>
    obtain ⟨step, machine⟩ := config
    simp only at final
    subst final
    exact ⟨1, rfl⟩
  | step orderly running advances rest ih =>
    obtain ⟨fuel, ran⟩ := ih final
    refine ⟨fuel + 1, ?_⟩
    rw [run_succ running, advances]
    exact ran

theorem Reaches.run_eq {config last : Config} (reaches : Reaches program config last)
    {signal : Signal} (final : last.1 = .notify none signal) {fuel : Nat}
    {result : Signal × Machine}
    (ran : Machine.run program fuel config.1 config.2 = .done result) :
    result = (signal, last.2) := by
  induction reaches generalizing fuel with
  | refl =>
    obtain ⟨_, -, ⟨heard, same, rfl⟩ | ⟨running, -⟩⟩ := run_done ran
    · cases same.symm.trans final
      rfl
    · exact absurd final (running signal)
  | step orderly running advances rest ih =>
    obtain ⟨_, -, ⟨heard, same, -⟩ | ⟨-, next, moved, goesOn⟩⟩ := run_done ran
    · exact absurd same (running heard)
    · cases advances.symm.trans moved
      exact ih final goesOn

theorem Reaches.run_stops {config last : Config} (reaches : Reaches program config last)
    {reason : Fault} (stops : Stops program reason last) (fuel : Nat)
    (result : Signal × Machine) :
    Machine.run program fuel config.1 config.2 ≠ .done result := by
  induction reaches generalizing fuel with
  | refl =>
    intro ran
    obtain ⟨_, -, ⟨heard, same, -⟩ | ⟨-, next, moved, -⟩⟩ := run_done ran
    · exact stops.running heard same
    · cases stops.fails.symm.trans moved
  | step orderly running advances rest ih =>
    intro ran
    obtain ⟨less, -, ⟨heard, same, -⟩ | ⟨-, next, moved, goesOn⟩⟩ := run_done ran
    · exact running heard same
    · cases advances.symm.trans moved
      exact ih stops less goesOn

def Phase.step? : Phase → Option Step
  | .unstarted goal => some (.call goal none)
  | .suspended => some .redo
  | .finished => none

namespace Search

def machine (search : Search) (state : State) : Machine where
  frames := search.frames
  depthLimit := search.depthLimit
  truncated := search.truncated
  state := state

def heard (search : Search) (signal : Signal) (machine : Machine) : Search where
  phase := if signal = .yielded then .suspended else .finished
  frames := machine.frames
  depthLimit := search.depthLimit
  truncated := machine.truncated

def Comes (program : Program) (search : Search) (state : State)
    (result : Bool × Search × State) : Prop :=
  (∃ fuel, search.next program fuel state = .done result) ∧
    ∀ fuel other, search.next program fuel state = .done other → other = result

variable {search : Search} {state : State} {step : Step}

theorem next_run (fuel : Nat) (phase : search.phase.step? = some step) :
    search.next program fuel state =
      match Machine.run program fuel step (search.machine state) with
      | .fault fault => .fault fault
      | .unfinished => .unfinished
      | .done (signal, machine) =>
        .done (signal = .yielded, search.heard signal machine, machine.state) := by
  rw [next]
  cases held : search.phase with
  | unstarted goal | suspended =>
    rw [held] at phase
    cases phase
    rfl
  | finished =>
    rw [held] at phase
    cases phase

theorem comes_of_reaches {last : Config} {signal : Signal}
    (phase : search.phase.step? = some step)
    (way : Reaches program (step, search.machine state) last)
    (final : last.1 = .notify none signal) :
    search.Comes program state
      (signal = .yielded, search.heard signal last.2, last.2.state) := by
  refine ⟨?_, fun fuel other got => ?_⟩
  · obtain ⟨fuel, ran⟩ := way.run final
    refine ⟨fuel, ?_⟩
    rw [next_run fuel phase, ran]
  · rw [next_run fuel phase] at got
    cases ran : Machine.run program fuel step (search.machine state) with
    | fault reason => simp [ran] at got
    | unfinished => simp [ran] at got
    | done ended =>
      obtain rfl := way.run_eq final ran
      simp only [ran, Outcome.done.injEq] at got
      exact got.symm

end Search

def top (base : Ledger) (exact : Bool := false) : Site where
  target := none
  size := 0
  base := base
  exact := exact

/-- A search will come to some emissions, goals having been cut off since its last answer or not. If
    it is exact its end leaves just the stacks it started with. -/
def Stands (program : Program) (base : Ledger) (search : Search) (state : State)
    (events : List Emission) (hit : Bool) (exact : Bool := false) : Prop :=
  ∃ position ledger counters, Plays program search.depthLimit (top base exact) events hit position ∧
    position.Admits ledger ∧ state = ledger.state counters ∧ search.frames = position.above ∧
    search.phase.step? = some position.step

section

variable {base : Ledger} {search : Search} {state : State} {rest : List Emission} {hit exact : Bool}

theorem Leads.onward {position : Position} {found : Array Entry → Bool → Config → Prop}
    {ledger : Ledger} {counters : Counters}
    (leads : Leads program search.depthLimit (top base exact) position found)
    (admits : position.Admits ledger) (same : state = ledger.state counters)
    (frames : search.frames = position.above) :
    ∃ config, Reaches program (position.step, search.machine state) config ∧
      found #[] search.truncated config := by
  obtain ⟨config, way, holds⟩ := leads #[] ledger search.truncated counters rfl admits
  refine ⟨config, ?_, holds⟩
  simpa [Position.config, Search.machine, frames, same] using way

theorem Stands.ended (stands : Stands program base search state [] hit exact) :
    ∃ last counters, ∃ later : Ledger,
      search.Comes program state (false, last, later.state counters) ∧
        last.truncated = (search.truncated || hit) ∧ later.WellFormed ∧ later.Extends base ∧
        (exact = true → later = base) := by
  obtain ⟨position, ledger, counters, plays, admits, same, frames, phase⟩ := stands
  obtain ⟨config, way, final, others, wellFormed, grown, whole, rfl⟩ :=
    Leads.onward plays admits same frames
  exact ⟨_, others, final, Search.comes_of_reaches phase way rfl, rfl, wellFormed, grown, whole⟩

/-- A search that comes to an answer gives it, and stands before what is left. -/
theorem Stands.answered {ledger : Ledger}
    (stands : Stands program base search state (.answer ledger :: rest) hit exact) :
    ledger.WellFormed ∧ ledger.Extends base ∧
      ∃ later counters, search.Comes program state (true, later, ledger.state counters) ∧
        later.truncated = (search.truncated || hit) ∧
        ∀ others, Stands program base later (ledger.state others) rest false exact := by
  obtain ⟨position, earlier, counters, plays, admits, same, frames, phase⟩ := stands
  obtain ⟨wellFormed, grown, above, leads, onward⟩ := plays
  obtain ⟨config, way, final, rfl⟩ := Leads.onward leads admits same frames
  refine ⟨wellFormed, grown, _, final, Search.comes_of_reaches phase way rfl, rfl,
    fun others => ?_⟩
  exact ⟨_, ledger, others, onward, ⟨wellFormed, .refl ledger, by simp⟩, rfl,
    by simp [Search.heard], rfl⟩

theorem Stands.stops {reason : Fault}
    (stands : Stands program base search state (.fault reason :: rest) hit exact) (fuel : Nat)
    (result : Bool × Search × State) : search.next program fuel state ≠ .done result := by
  obtain ⟨position, ledger, counters, plays, admits, same, frames, phase⟩ := stands
  obtain ⟨config, way, stops⟩ := Leads.onward plays admits same frames
  intro got
  rw [Search.next_run fuel phase] at got
  cases ran : Machine.run program fuel position.step (search.machine state) with
  | fault reason => simp [ran] at got
  | unfinished => simp [ran] at got
  | done ended => exact way.run_stops stops fuel ended ran

theorem Stands.cut (stands : Stands program base search state (.cut :: rest) hit exact) :
    Stands program base search state rest true exact := stands

end

def Holds (state : State) (ledger : Ledger) : Prop := ∃ counters, state = ledger.state counters

theorem Holds.among {answers : List State} {ledgers : List Ledger}
    (held : List.Forall₂ Holds answers ledgers) {ledger : Ledger} (member : ledger ∈ ledgers) :
    ∃ answer ∈ answers, Holds answer ledger := by
  induction held with
  | nil => cases member
  | @cons answer _ answers _ holds _ ih =>
    rcases List.mem_cons.mp member with rfl | later
    · exact ⟨answer, by simp, holds⟩
    · obtain ⟨other, listed, also⟩ := ih later
      exact ⟨other, by simp [listed], also⟩

section

variable {base : Ledger} {search : Search} {state : State} {events : List Emission} {hit : Bool}

/-- The states that a pass answers with are just the answers of its goal, and it was cut off just if
    its goal was. -/
theorem Stands.pass {answers : List State} {truncated : Bool}
    (stands : Stands program base search state events hit)
    (pass : search.Pass program state answers truncated) :
    (∀ reason, .fault reason ∉ events) ∧ List.Forall₂ Holds answers (answersOf events) ∧
      (truncated = true ↔ search.truncated = true ∨ hit = true ∨ .cut ∈ events) := by
  induction events generalizing search state answers hit with
  | nil =>
    obtain ⟨last, after, counters, ⟨-, only⟩, flag, -⟩ := stands.ended
    cases pass with
    | ended next =>
      cases only _ _ next
      exact ⟨by simp, .nil, by simp [flag]⟩
    | answered next _ => cases only _ _ next
  | cons event rest ih =>
    cases event with
    | cut =>
      obtain ⟨faultless, held, flags⟩ := ih stands.cut pass
      exact ⟨by simpa using faultless, held, by simp [flags]⟩
    | fault reason =>
      cases pass with
      | ended next | answered next _ => exact absurd next (stands.stops _ _)
    | answer ledger =>
      obtain ⟨-, -, later, counters, ⟨-, only⟩, flag, onward⟩ := stands.answered
      cases pass with
      | ended next => cases only _ _ next
      | answered next remaining =>
        cases only _ _ next
        obtain ⟨faultless, held, flags⟩ := ih (onward counters) remaining
        exact ⟨by simpa using faultless, .cons ⟨counters, rfl⟩ held,
          by simp [flags, flag, or_assoc]⟩

theorem Stands.pass_exists (stands : Stands program base search state events hit)
    (faultless : ∀ reason, .fault reason ∉ events) :
    ∃ answers truncated, search.Pass program state answers truncated := by
  induction events generalizing search state hit with
  | nil =>
    obtain ⟨last, after, counters, ⟨⟨fuel, next⟩, -⟩, -⟩ := stands.ended
    exact ⟨_, _, .ended next⟩
  | cons event rest ih =>
    have quiet : ∀ reason, .fault reason ∉ rest := fun reason member =>
      faultless reason (by simp [member])
    cases event with
    | cut => exact ih stands.cut quiet
    | fault reason => exact absurd (by simp) (faultless reason)
    | answer ledger =>
      obtain ⟨-, -, later, counters, ⟨⟨fuel, next⟩, -⟩, -, onward⟩ := stands.answered
      obtain ⟨answers, truncated, remaining⟩ := ih (onward counters) quiet
      exact ⟨_, _, .answered next remaining⟩

theorem Stands.yields {answer : State} (stands : Stands program base search state events hit)
    (yields : search.Yields program state answer) :
    ∃ ledger, .answer ledger ∈ events ∧ Holds answer ledger := by
  induction events generalizing search state hit with
  | nil =>
    obtain ⟨last, after, counters, ⟨-, only⟩, -⟩ := stands.ended
    cases yields with
    | here next | later next _ => cases only _ _ next
  | cons event rest ih =>
    cases event with
    | cut =>
      obtain ⟨ledger, member, holds⟩ := ih stands.cut yields
      exact ⟨ledger, by simp [member], holds⟩
    | fault reason =>
      cases yields with
      | here next | later next _ => exact absurd next (stands.stops _ _)
    | answer ledger =>
      obtain ⟨-, -, later, counters, ⟨-, only⟩, -, onward⟩ := stands.answered
      cases yields with
      | here next =>
        cases only _ _ next
        exact ⟨ledger, by simp, counters, rfl⟩
      | later next remaining =>
        cases only _ _ next
        obtain ⟨other, member, holds⟩ := ih (onward counters) remaining
        exact ⟨other, by simp [member], holds⟩

end

theorem Stands.next_answer {base : Ledger} {search later : Search} {state answer : State}
    {events : List Emission} {hit exact : Bool} {fuel : Nat}
    (stands : Stands program base search state events hit exact)
    (next : search.next program fuel state = .done (true, later, answer)) :
    ∃ ledger rest, answersOf events = ledger :: answersOf rest ∧ Holds answer ledger ∧
      ledger.WellFormed ∧ ledger.Extends base ∧
      ∀ counters, Stands program base later (ledger.state counters) rest false exact := by
  induction events generalizing hit with
  | nil =>
    obtain ⟨last, counters, after, ⟨-, only⟩, -⟩ := stands.ended
    cases only _ _ next
  | cons event rest ih =>
    cases event with
    | cut => exact ih stands.cut
    | fault reason => exact absurd next (stands.stops _ _)
    | answer ledger =>
      obtain ⟨wellFormed, grown, found, counters, ⟨-, only⟩, -, onward⟩ := stands.answered
      cases only _ _ next
      exact ⟨ledger, rest, rfl, ⟨counters, rfl⟩, wellFormed, grown, onward⟩

theorem Stands.next_end {base : Ledger} {search last : Search} {state after : State}
    {events : List Emission} {hit exact : Bool} {fuel : Nat}
    (stands : Stands program base search state events hit exact)
    (next : search.next program fuel state = .done (false, last, after)) :
    answersOf events = [] ∧ ∃ ledger : Ledger, Holds after ledger ∧ ledger.WellFormed ∧
      ledger.Extends base ∧ (exact = true → ledger = base) := by
  induction events generalizing hit with
  | nil =>
    obtain ⟨found, counters, ledger, ⟨-, only⟩, -, wellFormed, grown, whole⟩ := stands.ended
    cases only _ _ next
    exact ⟨rfl, ledger, ⟨counters, rfl⟩, wellFormed, grown, whole⟩
  | cons event rest ih =>
    cases event with
    | cut => exact ih stands.cut
    | fault reason => exact absurd next (stands.stops _ _)
    | answer ledger =>
      obtain ⟨-, -, found, counters, ⟨-, only⟩, -⟩ := stands.answered
      cases only _ _ next

theorem stands_start {base : Ledger} (wellFormed : base.WellFormed) (fits : program.Fits base)
    {goal : TermId} (live : base.Live goal) (limit : Nat) (counters : Counters) :
    Stands program base (.start goal limit) (base.state counters)
      (solve program limit (limit + 1) goal base) false := by
  have plays := solve_faithful program limit limit goal base none 0 false wellFormed fits live
    (by simp) (by simp)
  exact ⟨_, base, counters, plays, ⟨wellFormed, .refl base, fun _ => rfl⟩, rfl, rfl, rfl⟩

theorem stands_exact {base : Ledger} (wellFormed : base.WellFormed) (fits : program.Fits base)
    {goal : TermId} (live : base.Live goal) (changes : ¬ base.arena.Grants goal) (limit : Nat)
    (counters : Counters) :
    Stands program base (.start goal limit) (base.state counters)
      (solve program limit (limit + 1) goal base) false true := by
  have faithful (shallow : base.calls.length < limit) :
      Faithful program limit (solve program limit limit) (base.calls.length + 1) := by
    obtain ⟨level, rfl⟩ : ∃ level, limit = level + 1 := ⟨limit - 1, by omega⟩
    intro inner later target size exact formed fitting innerLive deep silent
    exact solve_faithful program (level + 1) level inner later target size exact formed fitting
      innerLive (by omega) silent
  have plays := @call_plays program limit goal base none 0 true limit wellFormed fits live faithful
    fun _ => changes
  exact ⟨_, base, counters, plays, ⟨wellFormed, .refl base, fun _ => rfl⟩, rfl, rfl, rfl⟩

end Resolvent
