import Resolvent.Proofs.Search.Standing
import Resolvent.Proofs.Search.Termination

namespace Resolvent

inductive Seeks (config : Config) : Machine → Nat → Prop where
  | opened {goal : TermId} {parent : Option Nat} {cell : Compound}
      (calls : config.1 = .call goal parent)
      (inside : config.2.state.arena.contains goal = true)
      (node : config.2.state.arena.node (config.2.state.arena.deref goal) = .compound cell)
      (idle : cell.active = false) (room : config.2.state.callDepth < config.2.depthLimit)
      (form : cell.form = .predicate) :
      Seeks config ((config.2.record .goal).push
        (.deduction (config.2.state.arena.deref goal) 0 none) parent) config.2.frames.size
  | again {index start : Nat} {goal : TermId} {expansion : Expansion} {parent : Option Nat}
      (heard : config.1 = .notify (some index) .exhausted)
      (held : config.2.frames[index]? = some ⟨.deduction goal start (some expansion), parent⟩)
      (outside : expansion.inBody = false) :
      Seeks config ((config.2.setFrame index (.deduction goal start none) parent).restore
        expansion.undo) index

inductive Frame.Closes : Frame → Prop where
  | delegate {undo : Snapshot} : Closes (.delegate undo)
  | conjunction {undo : Snapshot} {right : TermId} : Closes (.conjunction undo right .left)
  | disjunction {undo : Snapshot} {goal right : TermId} : Closes (.disjunction undo goal right .right)
  | negation {undo : Snapshot} {aside : Bool} : Closes (.negation undo aside)

inductive Removes (program : Program) (config : Config) : Machine → Nat → Prop where
  | closed {index : Nat} {entry : Entry} (heard : config.1 = .notify (some index) .exhausted)
      (held : config.2.frames[index]? = some entry) (closes : entry.frame.Closes) :
      Removes program config config.2 index
  | unmatched {machine : Machine} {index start : Nat} {goal : TermId} {current : Option Expansion}
      {cell : Compound} {parent : Option Nat} (seeks : Seeks config machine index)
      (held : machine.frames[index]? = some ⟨.deduction goal start current, parent⟩)
      (node : machine.state.arena.compound? goal = some cell) (low : start ≤ program.size)
      (ended : program.next? start cell.symbol cell.args.length = none) :
      Removes program config machine index

/-- What is so of the frames wherever a run stands and in the step that it makes there. -/
structure Disciplined (program : Program) (config : Config) : Prop where
  redo : config.1 = .redo → ∃ undo parent, config.2.frames.back? = some ⟨.once undo, parent⟩
  notify : ∀ target signal, config.1 = .notify target signal →
    Awaited config.2.frames target config.2.frames.size
  call : ∀ goal parent, config.1 = .call goal parent →
    Awaited config.2.frames parent config.2.frames.size
  attended : Attended config.2.frames
  seeks : ∀ machine index, Seeks config machine index →
    ∃ goal start parent cell, machine.frames[index]? = some ⟨.deduction goal start none, parent⟩ ∧
      machine.state.arena.compound? goal = some cell
  removes : ∀ machine index, Removes program config machine index →
    index + 1 = machine.frames.size
  faults : ∀ reason, config.2.advance program config.1 = .error reason →
    Astray program config reason

section

variable {program : Program} {config : Config} {machine : Machine} {index : Nat}

theorem Seeks.advance (seeks : Seeks config machine index) :
    config.2.advance program config.1 = machine.nextClause program index := by
  cases seeks with
  | @opened goal parent cell calls inside node idle room form =>
    have required : (config.2.record .goal).state.arena.require goal = .ok () :=
      Arena.require_ok inside
    have shallow : ¬ (config.2.record .goal).depthLimit ≤ (config.2.record .goal).state.callDepth :=
      Nat.not_le_of_lt room
    have found : (config.2.record .goal).state.arena.node
        ((config.2.record .goal).state.arena.deref goal) = .compound cell := node
    rw [calls, Machine.advance, Machine.call]
    simp only [required, Bind.bind, Except.bind, found, idle, Bool.false_eq_true, if_false, shallow,
      Machine.dispatch, form]
    rfl
  | again heard held outside =>
    rw [heard]
    simp only [Machine.advance, held, Machine.exhausted, outside, Bool.false_eq_true, if_false]

theorem Removes.fails (removes : Removes program config machine index) {reason : Fault}
    (failed : machine.pop index = .error reason) :
    config.2.advance program config.1 = .error reason := by
  cases removes with
  | @closed index entry heard held closes =>
    obtain ⟨frame, parent⟩ := entry
    rw [heard]
    simp only [Machine.advance, held, Machine.exhausted]
    cases closes <;> simp only [failed] <;> rfl
  | unmatched seeks held node low ended =>
    have inside := Arena.contains_of_compound (Arena.compound?_eq_some.mp node)
    rw [seeks.advance, Machine.nextClause]
    simp only [held, Arena.require_ok inside, Bind.bind, Except.bind, node, Nat.not_lt_of_le low,
      if_false, ended, failed]

theorem compound_of_sought {goal : TermId} {start : Nat} {current : Option Expansion}
    {parent : Option Nat} {next : Config}
    (held : machine.frames[index]? = some ⟨.deduction goal start current, parent⟩)
    (sought : machine.nextClause program index = .ok next) :
    ∃ cell, machine.state.arena.compound? goal = some cell := by
  rw [Machine.nextClause] at sought
  simp only [held, Bind.bind, Except.bind] at sought
  split at sought
  · cases sought
  · split at sought
    · cases sought
    · next cell found => exact ⟨cell, found⟩

/-- Wherever a search stands its frames are in order, and it stops only where it goes past the terms
    that there are. -/
theorem frames_disciplined {state : State} {query : TermId} (poised : Poised program state query)
    {limit : Nat} (visited : Visited program (Search.opening query limit state) config) :
    Disciplined program config := by
  have faults (reason : Fault) (fails : config.2.advance program config.1 = .error reason) :
      Astray program config reason := by
    obtain ⟨base, ⟨counters, rfl⟩, wellFormed, fits, live⟩ := poised
    exact Stops.astray ⟨(visited.underway wellFormed fits live).stale fails, fails⟩
  have standing := visited.standing
  refine ⟨standing.redo, standing.notify, standing.call, standing.attended, ?_, ?_, faults⟩
  · intro machine index seeks
    have advances : config.2.advance program config.1 = machine.nextClause program index :=
      seeks.advance
    cases seeks with
    | @opened goal parent cell calls inside node =>
      have found : ((config.2.record .goal).push (.deduction (config.2.state.arena.deref goal) 0 none)
          parent).frames[config.2.frames.size]? =
            some ⟨.deduction (config.2.state.arena.deref goal) 0 none, parent⟩ := by
        simp [Machine.push, Machine.record]
      exact ⟨_, 0, parent, cell, found, Arena.compound?_eq_some.mpr node⟩
    | @again index start goal expansion parent heard held outside =>
      have low := (Array.getElem?_eq_some_iff.mp held).1
      have found : ((config.2.setFrame index (.deduction goal start none) parent).restore
          expansion.undo).frames[index]? = some ⟨.deduction goal start none, parent⟩ := by
        simp [Machine.setFrame, Machine.restore, low]
      cases sought : config.2.advance program config.1 with
      | error reason =>
        cases faults reason sought with
        | called calls => simp [heard] at calls
        | copied start =>
          have yielded := start.heard
          simp [heard] at yielded
      | ok next =>
        obtain ⟨cell, node⟩ := compound_of_sought found (advances.symm.trans sought)
        exact ⟨goal, start, parent, cell, found, node⟩
  · intro machine index removes
    by_contra buried
    have failed : machine.pop index = .error .buriedFrame := if_neg buried
    obtain ⟨_, _, same⟩ := (faults _ (removes.fails failed)).outside
    cases same

end

namespace Surfaced

def retreating : Config :=
  stepsFrom program 1 (.redo, (stepsFrom program 11 (Search.opening ⟨15⟩ 11 state)).2)

/-- The clause of the goal has no other answer, and no other clause is left. -/
theorem retreating_disciplined : Poised program state ⟨15⟩ ∧
    Visited program (Search.opening ⟨15⟩ 11 state) retreating ∧
    retreating.1 = .notify (some 4) .exhausted ∧ retreating.2.frames.size = 5 ∧
    Disciplined program retreating := by
  have visited : Visited program (Search.opening ⟨15⟩ 11 state) retreating :=
    ((Visited.start.steps 11).again (by decide +kernel)).steps 1
  exact ⟨poised, visited, by decide +kernel, by decide +kernel, frames_disciplined poised visited⟩

end Surfaced

end Resolvent
