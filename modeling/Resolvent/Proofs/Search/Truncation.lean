import Resolvent.Proofs.Search.Asking
import Resolvent.Proofs.Search.Moves

namespace Resolvent

variable {program : Program} {frames : Array Entry} {entry : Entry} {index height : Nat}
  {aside : Bool}

def Probes (frames : Array Entry) (index : Nat) (aside : Bool) : Prop :=
  ∃ entry, frames[index]? = some entry ∧ entry.frame.aside? = some aside

theorem get_shrink (frames : Array Entry) (height index : Nat) :
    (frames.shrink height)[index]? = if index < height then frames[index]? else none := by
  rw [← Array.getElem?_toList, Array.toList_shrink, List.getElem?_take, Array.getElem?_toList]

theorem get_push {place : Nat} {held : Entry} (found : frames[place]? = some held) :
    (frames.push entry)[place]? = some held := by
  rw [Array.getElem?_push, if_neg (Nat.ne_of_lt (Array.getElem?_eq_some_iff.mp found).1), found]

theorem get_set {place other : Nat} {held found : Entry} {frame : Frame}
    (old : frames[place]? = some held)
    (new : (frames.setIfInBounds place ⟨frame, held.parent⟩)[other]? = some found) :
    ∃ before, frames[other]? = some before ∧ before.parent = found.parent ∧
      (before = found ∨ other = place ∧ before = held ∧ found.frame = frame) := by
  rw [Array.getElem?_setIfInBounds] at new
  split at new
  · next same =>
    subst same
    rw [if_pos (Array.getElem?_eq_some_iff.mp old).1] at new
    cases new
    exact ⟨held, old, rfl, .inr ⟨rfl, rfl, rfl⟩⟩
  · exact ⟨found, new, rfl, .inl rfl⟩

theorem Probes.inside (probes : Probes frames index aside) : index < frames.size := by
  obtain ⟨entry, held, -⟩ := probes
  exact (Array.getElem?_eq_some_iff.mp held).1

theorem probes_push : Probes (frames.push entry) index aside ↔
    Probes frames index aside ∨ index = frames.size ∧ entry.frame.aside? = some aside := by
  simp only [Probes, Array.getElem?_push]
  by_cases top : index = frames.size
  · subst top
    simp
  · simp [top]

theorem probes_plain (plain : entry.frame.aside? = none) :
    Probes (frames.push entry) index aside ↔ Probes frames index aside := by
  simp [probes_push, plain]

theorem probes_set {place : Nat} {frame : Frame} (held : frames[place]? = some entry)
    (plain : entry.frame.aside? = none) (plainToo : frame.aside? = none) :
    Probes (frames.setIfInBounds place ⟨frame, entry.parent⟩) index aside ↔
      Probes frames index aside := by
  have inside := (Array.getElem?_eq_some_iff.mp held).1
  simp only [Probes, Array.getElem?_setIfInBounds]
  by_cases same : place = index
  · subst same
    simp only [inside, if_true, held, Option.some.injEq, exists_eq_left', plain, plainToo]
  · simp [same]

theorem probes_shrink : Probes (frames.shrink height) index aside ↔
    Probes frames index aside ∧ index < height := by
  simp only [Probes, get_shrink]
  by_cases low : index < height <;> simp [low]

def Within (height : Nat) (target : Option Nat) : Prop :=
  ∃ index, target = some index ∧ height ≤ index

def Owned (frames : Array Entry) (index : Nat) : Prop :=
  ∀ place entry, frames[place]? = some entry → index < place → Within index entry.parent

theorem Owned.push (owned : Owned frames index)
    (above : index < frames.size → Within index entry.parent) :
    Owned (frames.push entry) index := by
  intro place other held higher
  rw [Array.getElem?_push] at held
  split at held
  · next top =>
    cases held
    exact above (top ▸ higher)
  · exact owned place other held higher

theorem Owned.pop (owned : Owned (frames.push entry) index) : Owned frames index :=
  fun place other held => owned place other (get_push held)

theorem Owned.shrink (owned : Owned frames index) (height : Nat) :
    Owned (frames.shrink height) index := by
  intro place other held
  rw [get_shrink] at held
  split at held
  · exact owned place other held
  · cases held

theorem Owned.set {place : Nat} {frame : Frame} (owned : Owned frames index)
    (held : frames[place]? = some entry) :
    Owned (frames.setIfInBounds place ⟨frame, entry.parent⟩) index := by
  intro other found new higher
  obtain ⟨before, old, parent, -⟩ := get_set held new
  rw [← parent]
  exact owned other before old higher

def Step.Within (height : Nat) (frames : Array Entry) : Step → Prop
  | .call _ parent => Resolvent.Within height parent
  | .redo => height + 1 < frames.size
  | .notify target _ => Resolvent.Within height target

/-- Each negation that waits encloses all that runs above it. -/
def Nested (config : Step × Machine) : Prop :=
  ∀ index aside, Probes config.2.frames index aside →
    config.1.Within index config.2.frames ∧ Owned config.2.frames index

section

variable {step : Step} {machine : Machine}

/-- What hears of a goal, and is no negation, was called for the negations that wait. -/
theorem Nested.caller {place : Nat} {signal : Signal}
    (nested : Nested (.notify (some place) signal, machine))
    (held : machine.frames[place]? = some entry) (plain : entry.frame.aside? = none)
    (probes : Probes machine.frames index aside) : index < place ∧ Within index entry.parent := by
  obtain ⟨⟨_, heard, low⟩, owned⟩ := nested index aside probes
  obtain rfl := Option.some.inj heard
  have other : index ≠ place := by
    rintro rfl
    obtain ⟨found, same, negation⟩ := probes
    rw [held] at same
    cases same
    rw [plain] at negation
    cases negation
  exact ⟨by omega, owned place entry held (by omega)⟩

theorem Nested.top {rest : Array Entry} (nested : Nested (step, machine))
    (frames : machine.frames = rest.push entry) (probes : Probes rest index aside) :
    Within index entry.parent ∧ Owned rest index := by
  obtain ⟨-, owned⟩ := nested index aside (by
    rw [frames]
    exact probes_push.mpr (.inl probes))
  rw [frames] at owned
  exact ⟨owned rest.size entry (by simp) probes.inside, owned.pop⟩

end

theorem Nested.moves {config next : Step × Machine} (nested : Nested config)
    (moves : Moves config next) : Nested next := by
  intro index aside probes
  cases moves with
  | answers frames level =>
    simp only [frames] at probes ⊢
    obtain ⟨next, owned⟩ := nested index aside ((probes_plain rfl).mp probes)
    exact ⟨next, owned.push fun _ => next⟩
  | enters frames plain level =>
    simp only [frames] at probes ⊢
    have probes := (probes_plain plain).mp probes
    obtain ⟨next, owned⟩ := nested index aside probes
    exact ⟨⟨_, rfl, Nat.le_of_lt probes.inside⟩, owned.push fun _ => next⟩
  | probes frames truncated hits =>
    simp only [frames] at probes ⊢
    rcases probes_push.mp probes with probes | ⟨rfl, -⟩
    · obtain ⟨next, owned⟩ := nested index aside probes
      exact ⟨⟨_, rfl, Nat.le_of_lt probes.inside⟩, owned.push fun _ => next⟩
    · refine ⟨⟨_, rfl, Nat.le_refl _⟩, fun place entry held higher => ?_⟩
      have := (Array.getElem?_eq_some_iff.mp held).1
      rw [Array.size_push] at this
      omega
  | fails frames level =>
    simp only [frames] at probes ⊢
    exact nested index aside probes
  | cuts frames truncated hits =>
    simp only [frames] at probes ⊢
    exact nested index aside probes
  | ends frames level => exact nested.top frames probes
  | empty frames => simp [Probes, frames] at probes
  | forwards held plain => exact ⟨(nested.caller held plain probes).2, (nested index aside probes).2⟩
  | @turns place signal entry frame step machine later held plain frames plainToo next level =>
    simp only [frames] at probes ⊢
    have probes := (probes_set held plain plainToo).mp probes
    have low := (nested.caller held plain probes).1
    refine ⟨?_, (nested index aside probes).2.set held⟩
    rcases next with rfl | ⟨goal, rfl⟩
    · have := (Array.getElem?_eq_some_iff.mp held).1
      change index + 1 < _
      rw [Array.size_setIfInBounds]
      omega
    · exact ⟨place, rfl, Nat.le_of_lt low⟩
  | closes frames plain level => exact nested.top frames probes
  | finds held frames truncated hits =>
    simp only [frames] at probes ⊢
    obtain ⟨probes, low⟩ := probes_shrink.mp probes
    have owned := (nested index aside probes).2
    exact ⟨owned _ _ held low, owned.shrink _⟩
  | misses frames complete after truncated hits =>
    simp only [after] at probes ⊢
    obtain ⟨within, owned⟩ := nested.top frames ((probes_plain rfl).mp probes)
    exact ⟨within, owned.push fun _ => within⟩
  | doubts frames cut level => exact nested.top frames probes
  | rests => exact nested index aside probes

/-- Some goal was cut off, as the machine knows or a negation keeps aside. -/
def Machine.Cut (machine : Machine) : Prop :=
  machine.truncated = true ∨ ∃ index, Probes machine.frames index true

structure Tallied (count : Nat) (config : Step × Machine) : Prop where
  nested : Nested config
  low : count ≤ config.2.hits
  cut : config.2.Cut ↔ count < config.2.hits

theorem cut_level {machine later : Machine} (level : Level machine later)
    (same : ∀ index, Probes later.frames index true ↔ Probes machine.frames index true) :
    later.Cut ↔ machine.Cut := by
  simp only [Machine.Cut, level.truncated, same]

theorem Moves.hits_le {config next : Step × Machine} (moves : Moves config next) :
    config.2.hits ≤ next.2.hits := by
  cases moves with
  | answers _ level | enters _ _ level | fails _ level | ends _ level | turns _ _ _ _ _ level
  | closes _ _ level | doubts _ _ level => exact Nat.le_of_eq level.hits.symm
  | probes _ _ hits | finds _ _ _ hits | misses _ _ _ _ hits => exact Nat.le_of_eq hits.symm
  | cuts _ _ hits => exact hits ▸ Nat.le_succ _
  | empty | forwards | rests => exact Nat.le_refl _

theorem Tallied.moves {count : Nat} {config next : Step × Machine}
    (tallied : Tallied count config) (moves : Moves config next) : Tallied count next := by
  obtain ⟨nested, low, cut⟩ := tallied
  refine ⟨nested.moves moves, Nat.le_trans low moves.hits_le, ?_⟩
  cases moves with
  | answers frames level =>
    rw [level.hits, ← cut]
    exact cut_level level fun index => by rw [frames, probes_plain rfl]
  | enters frames plain level =>
    rw [level.hits, ← cut]
    exact cut_level level fun index => by rw [frames, probes_plain plain]
  | fails frames level =>
    rw [level.hits, ← cut]
    exact cut_level level fun index => by rw [frames]
  | ends frames level =>
    rw [level.hits, ← cut]
    exact cut_level level fun index => by rw [frames, probes_plain rfl]
  | closes frames plain level =>
    rw [level.hits, ← cut]
    exact cut_level level fun index => by rw [frames, probes_plain plain]
  | turns held plain frames plainToo _ level =>
    rw [level.hits, ← cut]
    exact cut_level level fun index => by rw [frames, probes_set held plain plainToo]
  | probes frames truncated hits =>
    -- What was known is kept aside by the new frame.
    rw [hits, ← cut]
    simp [Machine.Cut, truncated, frames, probes_push, Frame.aside?, exists_or, or_comm]
  | cuts frames truncated hits =>
    rw [hits]
    exact ⟨fun _ => Nat.lt_succ_of_le low, fun _ => .inl truncated⟩
  | @finds place undo aside parent machine later held frames truncated hits =>
    -- No negation waits above the one that hears of the goal.
    have only (index : Nat) (probes : Probes machine.frames index true) :
        index < place ∨ aside = true := by
      obtain ⟨⟨_, heard, below⟩, -⟩ := nested index true probes
      obtain rfl := Option.some.inj heard
      rcases Nat.lt_or_eq_of_le below with lower | rfl
      · exact .inl lower
      · obtain ⟨found, same, kept⟩ := probes
        rw [held] at same
        cases same
        exact .inr (Option.some.inj kept)
    rw [hits, ← cut]
    simp only [Machine.Cut, truncated, frames, probes_shrink, Bool.or_eq_true]
    constructor
    · rintro ((rfl | known) | ⟨index, probes, -⟩)
      · exact .inr ⟨place, _, held, rfl⟩
      · exact .inl known
      · exact .inr ⟨index, probes⟩
    · rintro (known | ⟨index, probes⟩)
      · exact .inl (.inr known)
      · rcases only index probes with lower | kept
        · exact .inr ⟨index, probes, lower⟩
        · exact .inl (.inl kept)
  | misses frames complete after truncated hits =>
    rw [hits, ← cut]
    simp [Machine.Cut, truncated, complete, frames, after, probes_push, Frame.aside?, exists_or,
      or_comm]
  | doubts frames cutOff level =>
    rw [level.hits, ← cut]
    exact ⟨fun _ => .inl cutOff, fun _ => .inl (level.truncated.trans cutOff)⟩
  | empty | forwards | rests => exact cut

theorem run_keeps {kept : Step × Machine → Prop}
    (each : ∀ config next, kept config → config.2.advance program config.1 = .ok next → kept next)
    {fuel : Nat} {step : Step} {machine last : Machine} {signal : Signal} (start : kept (step, machine))
    (ran : Machine.run program fuel step machine = .done (signal, last)) :
    kept (.notify none signal, last) := by
  induction fuel generalizing step machine with
  | zero => cases ran
  | succ fuel ih =>
    obtain ⟨_, ⟨⟩, ⟨heard, rfl, same⟩ | ⟨-, next, advances, goesOn⟩⟩ := run_done ran
    · cases same
      exact start
    · exact ih (each _ _ start advances) goesOn

theorem run_hits_le {fuel : Nat} {step : Step} {machine last : Machine} {signal : Signal}
    (ran : Machine.run program fuel step machine = .done (signal, last)) :
    machine.hits ≤ last.hits := by
  refine @run_keeps program (fun config => machine.hits ≤ config.2.hits) ?_ _ _ _ _ _ ?_ ran
  · exact fun _ _ low advances => Nat.le_trans low (Machine.advance_moves advances).hits_le
  · exact Nat.le_refl _

/-- A search that is asked for its next answer has finished, or goes on with a run. -/
theorem Search.next_done {search later : Search} {state answer : State} {fuel : Nat} {found : Bool}
    (next : search.next program fuel state = .done (found, later, answer)) :
    (search.phase = .finished ∧ found = false ∧ later = search ∧ answer = state) ∨
      ∃ step signal machine, search.phase.step? = some step ∧
        Machine.run program fuel step (search.machine state) = .done (signal, machine) ∧
        found = decide (signal = .yielded) ∧ later = search.heard signal machine ∧
        answer = machine.state := by
  cases phase : search.phase.step? with
  | none =>
    have finished : search.phase = .finished := by
      cases held : search.phase with
      | finished => rfl
      | unstarted | suspended => simp [held, Phase.step?] at phase
    simp only [Search.next, finished, Outcome.done.injEq, Prod.mk.injEq] at next
    exact .inl ⟨finished, next.1.symm, next.2.1.symm, next.2.2.symm⟩
  | some step =>
    rw [next_run fuel phase] at next
    split at next
    · cases next
    · cases next
    · next signal machine ran =>
      cases next
      exact .inr ⟨step, signal, machine, rfl, ran, rfl, rfl, rfl⟩

structure Settled (count : Nat) (search : Search) (state : State) : Prop where
  idle : ∀ index aside, ¬ Probes search.frames index aside
  low : count ≤ state.hits
  exact : search.truncated = true ↔ count < state.hits

section

variable {search later : Search} {state answer : State} {count fuel : Nat} {found : Bool}

theorem settled_start (goal : TermId) (limit : Nat) (state : State) :
    Settled state.hits (.start goal limit) state where
  idle := by simp [Search.start, Probes]
  low := Nat.le_refl _
  exact := by simp [Search.start]

theorem Settled.tallied (settled : Settled count search state) (step : Step) :
    Tallied count (step, search.machine state) where
  nested := fun index aside probes => absurd probes (settled.idle index aside)
  low := settled.low
  cut := by simp [Machine.Cut, Search.machine, settled.idle, settled.exact, Machine.hits]

theorem Tallied.settled {signal : Signal} {machine : Machine}
    (tallied : Tallied count (.notify none signal, machine)) :
    Settled count (search.heard signal machine) machine.state := by
  have idle (index : Nat) (aside : Bool) (probes : Probes machine.frames index aside) : False := by
    obtain ⟨⟨_, heard, -⟩, -⟩ := tallied.nested index aside probes
    cases heard
  refine ⟨idle, tallied.low, ?_⟩
  have none : ¬ ∃ index, Probes machine.frames index true := fun ⟨index, probes⟩ =>
    idle index true probes
  exact (or_iff_left none).symm.trans tallied.cut

theorem Settled.next (settled : Settled count search state)
    (next : search.next program fuel state = .done (found, later, answer)) :
    Settled count later answer := by
  rcases Search.next_done next with ⟨-, -, rfl, rfl⟩ | ⟨step, signal, machine, -, ran, -, rfl, rfl⟩
  · exact settled
  · exact (run_keeps (fun _ _ tallied advances => tallied.moves (Machine.advance_moves advances))
      (settled.tallied step) ran).settled

theorem Settled.asks {answers : List State} {last : State} (settled : Settled count search state)
    (asks : search.Asks program state answers later last) : Settled count later last := by
  induction asks with
  | start => exact settled
  | @answered _ _ _ _ answer _ _ _ counters next kept _ ih =>
    have after := settled.next next
    have same : State.hits { answer with counters } = answer.hits := kept
    exact ih ⟨after.idle, same ▸ after.low, same ▸ after.exact⟩

end

end Resolvent
