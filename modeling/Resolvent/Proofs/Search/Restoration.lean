import Resolvent.Proofs.Search.Uncut

namespace Resolvent

section

variable {program : Program} {limit fuel : Nat} {base : Ledger} {goal : TermId}

theorem grants_next (live : base.Live goal) (grants : base.arena.Grants goal) (counters : Counters) :
    (Search.start goal limit).next program 2 (base.state counters) =
      .done (true, ⟨.suspended, #[⟨.once none, none⟩], limit, false⟩,
        base.state (counters.record .goal 1)) := by
  have called := @call_machine program limit base goal live none #[] false counters
  have answer : (base.machine limit #[] false counters).advance program (.call goal none) =
      .ok ((base.machine limit #[] false (counters.record .goal 1)).answer none none) := by
    rw [called]
    rw [Arena.Grants] at grants
    cases node : base.arena.node (base.arena.deref goal) <;> simp_all
  have ran : Machine.run program 2 (.call goal none) (base.machine limit #[] false counters) =
      .done (.yielded, base.machine limit #[⟨.once none, none⟩] false (counters.record .goal 1)) := by
    rw [run_succ (by simp), answer]
    rfl
  exact (Search.next_run 2 rfl).trans (by
    rw [show (Search.start goal limit).machine (base.state counters) =
      base.machine limit #[] false counters from rfl, ran]
    rfl)

theorem grants_end (state : State) :
    (⟨.suspended, #[⟨.once none, none⟩], limit, false⟩ : Search).next program 2 state =
      .done (false, ⟨.finished, #[], limit, false⟩, state) := rfl

theorem grants_asks (live : base.Live goal) (grants : base.arena.Grants goal) {counters : Counters}
    {answers : List State} {later last : Search} {state after : State}
    (asks : (Search.start goal limit).Asks program (base.state counters) answers later state)
    (next : later.next program fuel state = .done (false, last, after)) : Holds after base := by
  have first := @grants_next program limit base goal live grants counters
  cases asks with
  | start => cases Search.next_alike next first
  | answered found _ rest =>
    cases Search.next_alike found first
    cases rest with
    | start =>
      cases Search.next_alike next (grants_end _)
      exact ⟨_, rfl⟩
    | answered again _ _ => cases Search.next_alike again (grants_end _)

theorem Poised.restored {state : State} (poised : Poised program state goal) {answers : List State}
    {later last : Search} {reached after : State}
    (asks : (Search.start goal limit).Asks program state answers later reached)
    (next : later.next program fuel reached = .done (false, last, after)) :
    after = { state with counters := after.counters } := by
  obtain ⟨base, ⟨counters, rfl⟩, wellFormed, fits, live⟩ := poised
  have held : Holds after base := by
    by_cases grants : base.arena.Grants goal
    · exact grants_asks live grants asks next
    · obtain ⟨done, rest, hit, -, -, stands⟩ :=
        (stands_exact wellFormed fits live grants limit counters).asks asks
      obtain ⟨-, ledger, holds, -, -, whole⟩ := stands.next_end next
      rwa [whole rfl] at holds
  obtain ⟨others, rfl⟩ := held
  rfl

inductive Hears (program : Program) (parent : Option Nat) : Step × Machine → Step × Machine → Prop where
  | here {signal : Signal} {machine : Machine} :
      Hears program parent (.notify parent signal, machine) (.notify parent signal, machine)
  | later {config next last : Step × Machine} (other : ∀ signal, config.1 ≠ .notify parent signal)
      (advances : config.2.advance program config.1 = .ok next)
      (rest : Hears program parent next last) : Hears program parent config last

def heardWithin (program : Program) (parent : Option Nat) :
    Nat → Step × Machine → Option (Step × Machine)
  | 0, _ => none
  | fuel + 1, config =>
    if config.1 = .notify parent .yielded ∨ config.1 = .notify parent .exhausted then some config
    else
      match config.2.advance program config.1 with
      | .ok next => heardWithin program parent fuel next
      | .error _ => none

theorem hears_of_within {parent : Option Nat} (fuel : Nat) {config last : Step × Machine}
    (heard : heardWithin program parent fuel config = some last) :
    Hears program parent config last := by
  induction fuel generalizing config with
  | zero => cases heard
  | succ fuel ih =>
    obtain ⟨step, machine⟩ := config
    rw [heardWithin] at heard
    split at heard
    · next final =>
      cases heard
      rcases final with rfl | rfl <;> exact .here
    · next other =>
      split at heard
      · next next advances =>
        refine .later (fun signal same => other ?_) advances (ih heard)
        cases signal with
        | yielded => exact .inl same
        | exhausted => exact .inr same
      · cases heard

theorem Hears.final {parent : Option Nat} {config last : Step × Machine} {signal : Signal}
    (hears : Hears program parent config last) (heard : config.1 = .notify parent signal) :
    last = config := by
  cases hears with
  | here => rfl
  | later other => exact absurd heard (other signal)

theorem Moves.busy {config next : Step × Machine} (moves : Moves config next)
    (asks : next.1 = .redo) : next.2.frames ≠ #[] := by
  cases moves with
  | turns held _ frames _ _ _ =>
    intro none
    have inside := (Array.getElem?_eq_some_iff.mp held).1
    have size := congrArg Array.size (frames.symm.trans none)
    rw [Array.size_setIfInBounds] at size
    exact Nat.not_lt_zero _ (size ▸ inside)
  | _ => cases asks

/-- What runs above other frames comes to an end of its own before any frame below hears. -/
theorem Hears.placed {place : Placement} {parent : Option Nat} {config last : Step × Machine}
    (foreign : ∀ target, place.parent target ≠ parent) (same : place.limit = config.2.depthLimit)
    (busy : config.1 = .redo → config.2.frames ≠ #[])
    (hears : Hears program parent (place.config config) last) :
    ∃ fuel signal final, Machine.run program fuel config.1 config.2 = .done (signal, final) ∧
      Hears program parent (place.config (.notify none signal, final)) last := by
  generalize start : place.config config = placed at hears
  induction hears generalizing config with
  | @here signal machine =>
    obtain ⟨step, inner⟩ := config
    cases step with
    | call | redo => cases start
    | notify target heard =>
      have apart := foreign target
      simp only [Placement.config, Placement.step, Prod.mk.injEq, Step.notify.injEq] at start
      exact absurd start.1.1 apart
  | @later placed next last other advances rest ih =>
    subst start
    obtain ⟨step, inner⟩ := config
    by_cases ends : ∃ signal, step = .notify none signal
    · obtain ⟨signal, rfl⟩ := ends
      exact ⟨1, signal, inner, rfl, .later other advances rest⟩
    · have running (signal : Signal) (same : step = .notify none signal) := ends ⟨signal, same⟩
      have moved := @Placement.advance_machine program place inner step running
        (fun asks => .inl (busy asks)) (.inl same)
      simp only [Placement.config] at advances
      rw [advances] at moved
      cases made : inner.advance program step with
      | error reason => simp [made, Except.toOption, Except.map] at moved
      | ok onward =>
        obtain rfl : next = place.config onward := by
          simpa [made, Except.toOption, Except.map] using moved
        obtain ⟨fuel, signal, final, ran, hears⟩ := ih (same.trans (advance_depthLimit made).symm)
          (Machine.advance_moves made).busy rfl
        refine ⟨fuel + 1, signal, final, ?_, hears⟩
        rw [run_succ running, made]
        exact ran

/-- A negation that waits answers only if nothing is left of the goal that it negates, and changes no
    more than the run of that goal. -/
theorem waits_answer {machine : Machine} {frames : Array Entry} {signal : Signal} {undo : Snapshot}
    {aside : Bool} {parent : Option Nat} {last : Step × Machine}
    (held : machine.frames[frames.size]? = some ⟨.negation undo aside, parent⟩)
    (apart : parent ≠ some frames.size)
    (hears : Hears program parent (.notify (some frames.size) signal, machine) last)
    (answered : last.1 = .notify parent .yielded) :
    signal = .exhausted ∧ last.2.state = machine.state := by
  cases hears with
  | here => exact absurd rfl apart
  | later _ advances rest =>
    simp only [Machine.advance, held] at advances
    cases signal with
    | yielded =>
      cases advances
      rw [rest.final rfl] at answered
      cases answered
    | exhausted =>
      generalize frames.size = index at held advances
      cases Machine.exhausted_cases held advances with
      | closes _ takes => cases takes
      | doubts =>
        rw [rest.final rfl] at answered
        cases answered
      | refutes =>
        rw [rest.final rfl]
        exact ⟨rfl, rfl⟩

def probed (frames : Array Entry) (undo : Snapshot) (aside : Bool) (parent : Option Nat)
    (limit : Nat) : Placement where
  outer := frames.push ⟨.negation undo aside, parent⟩
  root := some frames.size
  limit := limit

theorem negation_placed (frames : Array Entry) (aside : Bool) (counters : Counters)
    (parent : Option Nat) (inner : TermId) :
    (base.machine limit frames aside counters).negation goal inner parent =
      (probed frames base.snapshot aside parent limit).config
        (Search.opening inner limit ((base.register goal none).state counters)) := by
  simp [Machine.negation, Ledger.machine, Ledger.register_state, Machine.enter, Machine.push,
    Placement.config, Placement.step, Placement.parent, Placement.machine, probed, Search.opening,
    Search.machine, Search.start]

theorem probe_restored {frames : Array Entry} {undo : Snapshot} {aside : Bool} {parent : Option Nat}
    {inner : TermId} {state : State} {last : Step × Machine} (poised : Poised program state inner)
    (below : ∀ index, parent = some index → index < frames.size)
    (hears : Hears program parent
      ((probed frames undo aside parent limit).config (Search.opening inner limit state)) last)
    (answered : last.1 = .notify parent .yielded) :
    last.2.state = { state with counters := last.2.state.counters } := by
  have foreign (target : Option Nat) : (probed frames undo aside parent limit).parent target ≠ parent := by
    intro same
    cases target with
    | none => exact Nat.lt_irrefl _ (below _ same.symm)
    | some index =>
      have := below _ same.symm
      simp only [probed, Array.size_push] at this
      omega
  obtain ⟨fuel, signal, final, ran, hears⟩ := hears.placed foreign rfl (by simp [Search.opening])
  have held : ((probed frames undo aside parent limit).machine final).frames[frames.size]? =
      some ⟨.negation undo aside, parent⟩ := by
    rw [Placement.machine, Array.getElem?_append_left (by simp [probed])]
    simp [probed]
  obtain ⟨rfl, kept⟩ := waits_answer held (foreign none).symm hears answered
  have kept : last.2.state = final.state := kept
  have ran : Machine.run program fuel (.call inner none) ((Search.start inner limit).machine state) =
      .done (.exhausted, final) := ran
  have ended : (Search.start inner limit).next program fuel state =
      .done (false, (Search.start inner limit).heard .exhausted final, final.state) := by
    rw [Search.next_run fuel rfl, ran]
    rfl
  rw [kept]
  exact poised.restored .start ended

/-- When a negation answers, it has changed no more than that it is called. -/
theorem negation_answers {machine : Machine} {parent : Option Nat} {cell : Compound} {inner : TermId}
    {last : Step × Machine} (poised : Poised program machine.state goal)
    (below : ∀ index, parent = some index → index < machine.frames.size)
    (node : machine.state.arena.node (machine.state.arena.deref goal) = .compound cell)
    (form : cell.form = .negation inner)
    (hears : Hears program parent (.call goal parent, machine) last)
    (answered : last.1 = .notify parent .yielded) :
    last.2.state =
      { (if cell.active then machine.state
          else (machine.state.register (machine.state.arena.deref goal) none).2) with
        counters := last.2.state.counters } := by
  obtain ⟨base, ⟨counters, same⟩, wellFormed, fits, live⟩ := poised
  obtain ⟨frames, limit, truncated, state⟩ := machine
  obtain rfl : state = base.state counters := same
  simp only at below node ⊢
  cases hears with
  | @later _ next _ _ advances rest =>
    have called := @call_machine program limit base goal live parent frames truncated counters
    have started : (base.machine limit frames truncated counters).advance program (.call goal parent) =
        .ok next := advances
    rw [started] at called
    have node : base.arena.node (base.arena.deref goal) = .compound cell := node
    simp only [node] at called
    split at called
    · next active =>
      cases called
      rw [rest.final rfl, if_pos active]
      rfl
    · next idle =>
      split at called
      · cases called
        rw [rest.final rfl] at answered
        cases answered
      · obtain ⟨shape, active⟩ := Ledger.shape_of_compound node
        have absent : base.arena.deref goal ∉ base.calls := by simpa [active] using idle
        have grown := base.register_extends (base.arena.deref goal) none
        have innerLive := wellFormed.live_args shape inner
          (operands_args cell inner (by simp [form, Form.operands]))
        have inside : Poised program
            ((base.register (base.arena.deref goal) none).state (counters.record .goal 1)) inner :=
          ⟨_, ⟨_, rfl⟩, wellFormed.register none shape absent, fits.later grown,
            grown.live innerLive⟩
        simp only [Machine.dispatch, form, negation_placed, Except.ok.injEq] at called
        rw [called] at rest
        rw [probe_restored inside below rest answered, if_neg idle, Ledger.arena_state,
          Ledger.register_state]
        rfl

/-- A finished pass leaves no trace but in the counters, wherever it was started. So a negation that
    answers has changed no more than that it is called, or nothing if it is being proven already. -/
theorem finished_pass_restores {state : State} {goal : TermId} (poised : Poised program state goal) :
    (∀ limit answers later reached,
      (Search.start goal limit).Asks program state answers later reached →
      ∀ fuel last after, later.next program fuel reached = .done (false, last, after) →
        after = { state with counters := after.counters }) ∧
    ∀ machine : Machine, machine.state = state →
      ∀ parent, (∀ index, parent = some index → index < machine.frames.size) →
      ∀ cell inner, state.arena.node (state.arena.deref goal) = .compound cell →
        cell.form = .negation inner →
      ∀ last, Hears program parent (.call goal parent, machine) last →
        last.1 = .notify parent .yielded →
        last.2.state =
          { (if cell.active then state else (state.register (state.arena.deref goal) none).2) with
            counters := last.2.state.counters } := by
  constructor
  · intro limit answers later reached asks fuel last after next
    exact poised.restored asks next
  · rintro machine rfl parent below cell inner node form last hears answered
    exact negation_answers poised below node form hears answered

end

namespace Surfaced

def negating : Config :=
  stepsFrom program 7 (.redo, (stepsFrom program 11 (Search.opening ⟨15⟩ 11 state)).2)

theorem poised_negation : Poised program negating.2.state ⟨19⟩ :=
  have visited : Visited program (Search.opening ⟨15⟩ 11 state) negating :=
    ((Visited.start.steps 11).again (by decide +kernel)).steps 7
  visited.poised poised (by decide +kernel : negating.1 = .call ⟨19⟩ (some 6)) (by decide +kernel)

def negatedPass : Search × State := (Search.start ⟨19⟩ 11).after program 100 negating.2.state

def negatedEnd : Search × State := negatedPass.1.after program 100 negatedPass.2

def heardNegated : Config :=
  (heardWithin program (some 6) 100 (.call ⟨19⟩ (some 6), negating.2)).getD (.redo, negating.2)

/-- In the middle of a search, a search for the negation on its own ends with the state it started from,
    and the answer of the negation has changed no more than that it is called. -/
theorem negation_restores : Poised program negating.2.state ⟨19⟩ ∧
    (∃ answers later reached last after, answers.length = 1 ∧
      (Search.start ⟨19⟩ 11).Asks program negating.2.state answers later reached ∧
      later.next program 100 reached = .done (false, last, after) ∧
      after = { negating.2.state with counters := after.counters }) ∧
    ∃ last, Hears program (some 6) (.call ⟨19⟩ (some 6), negating.2) last ∧
      last.1 = .notify (some 6) .yielded ∧
      last.2.state =
        { (negating.2.state.register (negating.2.state.arena.deref ⟨19⟩) none).2 with
          counters := last.2.state.counters } := by
  obtain ⟨restored, unchanged⟩ := finished_pass_restores poised_negation
  constructor
  · exact poised_negation
  constructor
  · have asked : Search.asksWithin program 100 1 (.start ⟨19⟩ 11) negating.2.state =
        some ([negatedPass.2], negatedPass.1, negatedPass.2) := by decide +kernel
    have asks := Search.asks_of_within 100 1 asked
    have ends : negatedPass.1.next program 100 negatedPass.2 =
        .done (false, negatedEnd.1, negatedEnd.2) := by decide +kernel
    have same := restored 11 _ _ _ asks 100 _ _ ends
    exact ⟨_, _, _, _, _, rfl, asks, ends, same⟩
  · have hears : Hears program (some 6) (.call ⟨19⟩ (some 6), negating.2) heardNegated :=
      hears_of_within 100 (by decide +kernel)
    have answered : heardNegated.1 = .notify (some 6) .yielded := by decide +kernel
    have node : negating.2.state.arena.node (negating.2.state.arena.deref ⟨19⟩) =
        .compound ⟨.reserved .not, [⟨18⟩], false⟩ := by decide +kernel
    have below : ∀ index, some 6 = some index → index < negating.2.frames.size := by
      rintro _ ⟨⟩
      decide +kernel
    have same := unchanged negating.2 rfl (some 6) below _ ⟨18⟩ node rfl _ hears answered
    simp only [Bool.false_eq_true, if_false] at same
    exact ⟨heardNegated, hears, answered, same⟩

end Surfaced

end Resolvent
