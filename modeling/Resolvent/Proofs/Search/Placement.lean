import Resolvent.Proofs.Search.Tally

namespace Resolvent

structure Placement where
  outer : Array Entry
  root : Option Nat
  limit : Nat

namespace Placement

def parent (place : Placement) : Option Nat → Option Nat
  | none => place.root
  | some index => some (place.outer.size + index)

def entry (place : Placement) (entry : Entry) : Entry :=
  { entry with parent := place.parent entry.parent }

def step (place : Placement) : Step → Step
  | .call goal parent => .call goal (place.parent parent)
  | .redo => .redo
  | .notify target signal => .notify (place.parent target) signal

def machine (place : Placement) (machine : Machine) : Machine :=
  { machine with
    frames := place.outer ++ machine.frames.map place.entry
    depthLimit := place.limit }

def config (place : Placement) (config : Step × Machine) : Step × Machine :=
  (place.step config.1, place.machine config.2)

variable {program : Program} {place : Placement} {machine : Machine} {parent : Option Nat}
  {index : Nat}

@[simp] theorem state_machine : (place.machine machine).state = machine.state := rfl

theorem with_state (state : State) :
    { place.machine machine with state } = place.machine { machine with state } := rfl

theorem restore_machine (snapshot : Snapshot) :
    (place.machine machine).restore snapshot = place.machine (machine.restore snapshot) := rfl

theorem record_machine (event : Event) :
    (place.machine machine).record event = place.machine (machine.record event) := rfl

theorem size_machine :
    (place.machine machine).frames.size = place.outer.size + machine.frames.size := by
  simp [Placement.machine]

theorem get_machine :
    (place.machine machine).frames[place.outer.size + index]? =
      machine.frames[index]?.map place.entry := by
  rw [Placement.machine, Array.getElem?_append_right (Nat.le_add_right _ _), Nat.add_sub_cancel_left]
  exact Array.getElem?_map

theorem push_machine (frame : Frame) :
    (place.machine machine).push frame (place.parent parent) =
      place.machine (machine.push frame parent) := by
  simp [Placement.machine, Machine.push, entry]

theorem setFrame_machine (frame : Frame) :
    (place.machine machine).setFrame (place.outer.size + index) frame (place.parent parent) =
      place.machine (machine.setFrame index frame parent) := by
  simp only [Placement.machine, Machine.setFrame, Machine.mk.injEq, and_true]
  apply Array.ext'
  simp [Array.toList_setIfInBounds, entry]

theorem shrink_machine :
    (place.machine machine).frames.shrink (place.outer.size + index) =
      place.outer ++ (machine.frames.shrink index).map place.entry := by
  have whole : place.outer.toList.take (place.outer.size + index) = place.outer.toList :=
    List.take_of_length_le (by simp)
  apply Array.ext'
  simp [Placement.machine, whole]

theorem dropLast_machine (busy : machine.frames ≠ #[]) :
    (place.machine machine).frames.pop = place.outer ++ machine.frames.pop.map place.entry := by
  apply Array.ext'
  have inside : machine.frames.toList.map place.entry ≠ [] := by simpa using busy
  simp [Placement.machine, List.dropLast_append_of_ne_nil inside]

theorem pop_machine :
    (place.machine machine).pop (place.outer.size + index) =
      (machine.pop index).map place.machine := by
  have height : place.outer.size + index + 1 = (place.machine machine).frames.size ↔
      index + 1 = machine.frames.size := by
    rw [size_machine]
    omega
  simp only [Machine.pop, height]
  split
  · next top =>
    have busy : machine.frames ≠ #[] := by
      rintro empty
      simp [empty] at top
    simp only [dropLast_machine busy, Except.map]
    rfl
  · rfl

theorem backtrack_machine (undo : Snapshot) :
    (place.machine machine).backtrack undo (place.parent parent) =
      place.config (machine.backtrack undo parent) := rfl

theorem answer_machine (undo : Option Snapshot) :
    (place.machine machine).answer undo (place.parent parent) =
      place.config (machine.answer undo parent) := by
  simp only [Machine.answer, push_machine]
  rfl

theorem enter_machine (frame : Frame) (goal : TermId) :
    (place.machine machine).enter frame (place.parent parent) goal =
      place.config (machine.enter frame parent goal) := by
  simp only [Machine.enter, push_machine, size_machine]
  rfl

theorem conclude_machine (undo : Snapshot) (reply : Reply) :
    (place.machine machine).conclude undo (place.parent parent) reply =
      place.config (machine.conclude undo parent reply) := by
  cases reply with
  | fails => rfl
  | answers => exact answer_machine _
  | delegates goal => exact enter_machine _ goal

theorem expand_machine (goal : TermId) (clause : Nat) :
    (place.machine machine).expand program (place.outer.size + index) goal clause
        (place.parent parent) =
      (machine.expand program index goal clause parent).map place.config := by
  simp only [Machine.expand, record_machine, state_machine]
  split
  · rfl
  · cases (((machine.record .expansion).state.register goal _).2.matchHead goal _) with
    | error reason => rfl
    | ok result =>
      simp only [Bind.bind, Except.bind, with_state, setFrame_machine]
      rfl

theorem nextClause_machine (inside : index < machine.frames.size) :
    (place.machine machine).nextClause program (place.outer.size + index) =
      (machine.nextClause program index).map place.config := by
  simp only [Machine.nextClause, get_machine, Array.getElem?_eq_getElem inside, Option.map_some]
  obtain ⟨frame, above⟩ := machine.frames[index]
  cases frame with
  | deduction goal start current =>
    simp only [entry, state_machine]
    cases machine.state.arena.require goal with
    | error reason => rfl
    | ok =>
      simp only [Bind.bind, Except.bind]
      cases machine.state.arena.compound? goal with
      | none => rfl
      | some cell =>
        simp only
        split
        · rfl
        · simp only [pure, Except.pure]
          cases program.next? start cell.symbol cell.args.length with
          | some clause => exact expand_machine goal clause
          | none =>
            simp only [pop_machine]
            cases machine.pop index <;> rfl
  | once | delegate | conjunction | disjunction | negation => rfl

theorem negation_machine (goal inner : TermId) :
    (place.machine machine).negation goal inner (place.parent parent) =
      place.config (machine.negation goal inner parent) := by
  simp only [Machine.negation, state_machine]
  exact @enter_machine place
    { machine with state := (machine.state.register goal none).2, truncated := false } parent
    (.negation (machine.state.register goal none).1 machine.truncated) inner

theorem dispatch_machine (goal : TermId) (cell : Compound) :
    (place.machine machine).dispatch program goal cell (place.parent parent) =
      (machine.dispatch program goal cell parent).map place.config := by
  simp only [Machine.dispatch, state_machine]
  cases cell.form with
  | negation inner => exact congrArg Except.ok (negation_machine goal inner)
  | conjunction left right =>
    simp only [with_state, enter_machine]
    rfl
  | disjunction left right =>
    simp only [with_state, enter_machine]
    rfl
  | builtin builtin left right =>
    simp only
    cases ((machine.state.register goal none).2.perform left right builtin) with
    | error reason => rfl
    | ok result =>
      simp only [Bind.bind, Except.bind, with_state, conclude_machine]
      rfl
  | predicate =>
    simp only [push_machine, size_machine]
    exact nextClause_machine (by simp [Machine.push])

theorem turnRight_machine (undo : Snapshot) (goal right : TermId) :
    (place.machine machine).turnRight (place.outer.size + index) undo goal right
        (place.parent parent) =
      (machine.turnRight index undo goal right parent).map place.config := by
  simp only [Machine.turnRight, restore_machine, state_machine]
  cases (machine.restore undo).state.arena.require goal with
  | error reason => rfl
  | ok =>
    simp only [Bind.bind, Except.bind, with_state, setFrame_machine]
    rfl

theorem enterBody_machine (goal : TermId) (nextClause : Nat) (expansion : Expansion)
    (body : TermId) :
    (place.machine machine).enterBody (place.outer.size + index) goal nextClause expansion body
        (place.parent parent) =
      (machine.enterBody index goal nextClause expansion body parent).map place.config := by
  simp only [Machine.enterBody, state_machine]
  cases machine.state.copyBody expansion.names body with
  | error reason => rfl
  | ok result =>
    simp only [Bind.bind, Except.bind, with_state, setFrame_machine]
    rfl

theorem yielded_machine (entry : Entry) :
    (place.machine machine).yielded program (place.outer.size + index) (place.entry entry) =
      (machine.yielded program index entry).map place.config := by
  obtain ⟨frame, above⟩ := entry
  simp only [Machine.yielded, Placement.entry]
  cases frame with
  | once => rfl
  | delegate => rfl
  | conjunction undo right branch =>
    cases branch with
    | left =>
      simp only [setFrame_machine]
      rfl
    | right => rfl
  | disjunction => rfl
  | negation undo truncated =>
    simp only [shrink_machine]
    rfl
  | deduction goal nextClause current =>
    cases current with
    | none => rfl
    | some expansion =>
      simp only
      cases program.clauses[expansion.clause]? with
      | none => rfl
      | some clause =>
        simp only
        split
        · exact enterBody_machine _ _ _ _
        · rfl

theorem exhausted_machine (entry : Entry) (inside : index < machine.frames.size) :
    (place.machine machine).exhausted program (place.outer.size + index) (place.entry entry) =
      (machine.exhausted program index entry).map place.config := by
  obtain ⟨frame, above⟩ := entry
  simp only [Machine.exhausted, Placement.entry]
  cases frame with
  | once => rfl
  | delegate undo =>
    simp only [pop_machine]
    cases machine.pop index <;> rfl
  | conjunction undo right branch =>
    cases branch with
    | left =>
      simp only [pop_machine]
      cases machine.pop index <;> rfl
    | right =>
      simp only [setFrame_machine]
      rfl
  | disjunction undo goal right branch =>
    cases branch with
    | left => exact turnRight_machine _ _ _
    | right =>
      simp only [pop_machine]
      cases machine.pop index <;> rfl
  | negation undo truncated =>
    simp only [pop_machine]
    cases machine.pop index with
    | error reason => rfl
    | ok rest =>
      have flag : (place.machine rest).truncated = rest.truncated := rfl
      have settled := @answer_machine place { rest with truncated } above (some undo)
      simp only [Bind.bind, Except.bind, Except.map, flag, backtrack_machine]
      split
      · rfl
      · exact congrArg Except.ok settled
  | deduction goal nextClause current =>
    cases current with
    | none => rfl
    | some expansion =>
      simp only
      split
      · simp only [setFrame_machine]
        rfl
      · simp only [setFrame_machine, restore_machine]
        exact nextClause_machine (by simpa [Machine.setFrame, Machine.restore] using inside)

def Calm (program : Program) (place : Placement) (config : Step × Machine) : Prop :=
  place.limit = config.2.depthLimit ∨
    config.2.depthLimit ≤ place.limit ∧ ∀ next, config.2.advance program config.1 = .ok next →
      next.2.hits = config.2.hits

def Busy (place : Placement) (machine : Machine) : Prop :=
  machine.frames ≠ #[] ∨ place.outer = #[] ∧ place.root = none

theorem call_machine {goal : TermId} (calm : place.Calm program (.call goal parent, machine)) :
    (place.machine machine).call program goal (place.parent parent) =
      (machine.call program goal parent).map place.config := by
  simp only [Calm, Machine.advance] at calm
  simp only [Machine.call, record_machine, state_machine] at calm ⊢
  have limit : (machine.record .goal).depthLimit = machine.depthLimit := rfl
  cases required : (machine.record .goal).state.arena.require goal with
  | error reason => rfl
  | ok =>
    simp only [required, Bind.bind, Except.bind] at calm ⊢
    cases node : (machine.record .goal).state.arena.node
        ((machine.record .goal).state.arena.deref goal) with
    | number value => exact congrArg Except.ok (answer_machine none)
    | var cell =>
      by_cases delayed : (machine.record .goal).state.arena.isDelayed
          ((machine.record .goal).state.arena.deref goal) = true
      · simp only [delayed, if_true, answer_machine]
        rfl
      · simp only [delayed, Bool.false_eq_true, if_false, with_state, answer_machine]
        rfl
    | compound cell =>
      by_cases active : cell.active = true
      · simp only [active, if_true, answer_machine]
        rfl
      · simp only [node, active, Bool.false_eq_true, if_false, limit] at calm ⊢
        have same : (place.machine (machine.record .goal)).depthLimit ≤
              (machine.record .goal).state.callDepth ↔
            machine.depthLimit ≤ (machine.record .goal).state.callDepth := by
          change place.limit ≤ _ ↔ _
          rcases calm with same | ⟨wider, uncut⟩
          · rw [same]
          · refine ⟨fun deep => Nat.le_trans wider deep, fun deep => ?_⟩
            exact absurd (uncut _ (if_pos deep)) (Nat.succ_ne_self _)
        by_cases deep : machine.depthLimit ≤ (machine.record .goal).state.callDepth
        · simp only [same, deep, if_true]
          rfl
        · simp only [same, deep, if_false, dispatch_machine]

theorem back_machine (busy : machine.frames ≠ #[]) :
    (place.machine machine).frames.back? = machine.frames.back?.map place.entry := by
  have mapped : (machine.frames.map place.entry).back? = machine.frames.back?.map place.entry := by
    simp [Array.back?_eq_getElem?]
  rw [Placement.machine, Array.back?_append, mapped]
  cases top : machine.frames.back? with
  | none => exact absurd (Array.back?_eq_none_iff.mp top) busy
  | some entry => rfl

theorem redo_machine (busy : place.Busy machine) :
    (place.machine machine).redo = machine.redo.map place.config := by
  by_cases empty : machine.frames = #[]
  · rcases busy with busy | ⟨outer, root⟩
    · exact absurd empty busy
    · have none : (place.machine machine).frames = #[] := by simp [Placement.machine, empty, outer]
      simp only [Machine.redo, none, empty, Array.back?_empty, Except.map]
      simp [Machine.fail, config, step, Placement.parent, root]
  · simp only [Machine.redo, back_machine empty, dropLast_machine empty]
    cases top : machine.frames.back? with
    | none => simp [empty] at top
    | some entry =>
      obtain ⟨frame, above⟩ := entry
      cases frame with
      | once undo => cases undo <;> rfl
      | delegate | conjunction | disjunction | negation | deduction => rfl

/-- A run that goes on makes the same step wherever it is placed. If it cannot make it alone it
    cannot there either. -/
theorem advance_machine {step : Step} (running : ∀ signal, step ≠ .notify none signal)
    (busy : step = .redo → place.Busy machine) (calm : place.Calm program (step, machine)) :
    ((place.machine machine).advance program (place.step step)).toOption =
      ((machine.advance program step).map place.config).toOption := by
  cases step with
  | call goal parent => exact congrArg Except.toOption (call_machine calm)
  | redo => exact congrArg Except.toOption (redo_machine (busy rfl))
  | notify target signal =>
    cases target with
    | none => exact absurd rfl (running signal)
    | some index =>
      simp only [Machine.advance, Placement.step, Placement.parent, get_machine]
      cases found : machine.frames[index]? with
      | none => rfl
      | some entry =>
        have inside : index < machine.frames.size := (Array.getElem?_eq_some_iff.mp found).1
        cases signal with
        | yielded => exact congrArg Except.toOption (yielded_machine entry)
        | exhausted => exact congrArg Except.toOption (exhausted_machine entry inside)

end Placement

end Resolvent
