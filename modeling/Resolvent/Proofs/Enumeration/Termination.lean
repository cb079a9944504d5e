import Mathlib.Data.Prod.Basic
import Mathlib.Order.RelClasses
import Resolvent.Proofs.Enumeration.Isolation
import Resolvent.Proofs.Search.Termination

namespace Resolvent

section

variable {program : Program} {base : Ledger} {goal : TermId} {enumeration later : Enumeration}
  {left : Nat × Nat}

structure Remains (program : Program) (base : Ledger) (goal : TermId) (enumeration : Enumeration)
    (left : Nat × Nat) : Prop where
  same_query : enumeration.query = goal
  same_root : enumeration.root = base.snapshot
  limits : left.1 = enumeration.policy.maximum.toNat - enumeration.depthLimit.toNat
  running : ∃ events, Running program base enumeration events ∧ left.2 = (answersOf events).length

theorem Undoable.remains (undoable : Undoable program base goal enumeration) :
    ∃ left, Remains program base goal enumeration left := by
  obtain ⟨same_query, same_root, events, running⟩ := undoable
  exact ⟨(_, _), same_query, same_root, rfl, events, running, rfl⟩

def Fewer : Nat × Nat → Nat × Nat → Prop := Prod.Lex (· < ·) (· < ·)

theorem fewer_wellFounded : WellFounded Fewer := wellFounded_lt.prod_lex wellFounded_lt

theorem Fewer.trans {least less more : Nat × Nat} (first : Fewer least less)
    (second : Fewer less more) : Fewer least more := Prod.Lex.trans first second

def RemainsLess (program : Program) (base : Ledger) (goal : TermId) (left : Nat × Nat)
    (later : Enumeration) : Prop := ∃ less, Fewer less left ∧ Remains program base goal later less

inductive Result (program : Program) (base : Ledger) (goal : TermId) (left : Nat × Nat) :
    Outcome (Option Solution × Enumeration) → Prop where
  | stops {reason : Fault} (outside : reason.Outside) : Result program base goal left (.fault reason)
  | ended (later : Enumeration) : Result program base goal left (.done (none, later))
  | given {later : Enumeration} (solution : Solution) (onward : RemainsLess program base goal left later) :
      Result program base goal left (.done (some solution, later))

theorem Result.earlier {less : Nat × Nat} {outcome : Outcome (Option Solution × Enumeration)}
    (result : Result program base goal less outcome) (fewer : Fewer less left) :
    Result program base goal left outcome := by
  cases result with
  | stops outside => exact .stops outside
  | ended later => exact .ended later
  | given solution onward =>
    obtain ⟨least, first, remains⟩ := onward
    exact .given solution ⟨least, first.trans fewer, remains⟩

/-- A pass that answers has fewer answers left, whatever is done with the answer. -/
theorem Remains.answered {search : Search} {state : State} {fuel : Nat}
    (remains : Remains program base goal enumeration left)
    (next : enumeration.currentPass.1.next enumeration.program fuel enumeration.currentPass.2 =
      .done (true, search, state)) (event : Event) (seen : List (Array Choice)) :
    RemainsLess program base goal left
      { enumeration with pass := some search, seen, state := state.record event } := by
  obtain ⟨events, running, answers⟩ := remains.running
  obtain ⟨ledger, rest, listed, -, onward⟩ := running.answered next
  refine ⟨(left.1, (answersOf rest).length), Prod.lex_def.mpr (.inr ⟨rfl, ?_⟩), remains.same_query,
    remains.same_root, remains.limits, rest, onward event seen, rfl⟩
  rw [answers, listed]
  exact Nat.lt_succ_self _

theorem Remains.widened {search : Search} {state : State} {fuel : Nat}
    (wellFormed : base.WellFormed) (fits : program.Fits base) (live : base.Live goal)
    (remains : Remains program base goal enumeration left)
    (next : enumeration.currentPass.1.next enumeration.program fuel enumeration.currentPass.2 =
      .done (false, search, state)) (low : enumeration.depthLimit < enumeration.policy.maximum) :
    RemainsLess program base goal left
      { enumeration with
        pass := none
        depthLimit := enumeration.policy.widen enumeration.depthLimit
        state := state.restore enumeration.root } := by
  obtain ⟨rfl, same_root, limits, events, running, -⟩ := remains
  have restored := running.ended next
  rw [← same_root] at restored
  have idle : Running program base
      { enumeration with
        pass := none
        depthLimit := enumeration.policy.widen enumeration.depthLimit
        state := state.restore enumeration.root } _ :=
    running_idle wellFormed fits live running.same_program rfl restored
  refine ⟨(_, _), Prod.lex_def.mpr (.inl ?_), rfl, same_root, rfl, _, idle, rfl⟩
  rw [limits]
  exact Nat.sub_lt_sub_left (UInt64.lt_iff_toNat_lt.mp low) (widen_higher low)

/-- Once its running pass was asked an enumeration has its result, or goes on with less to do. -/
theorem Remains.round (wellFormed : base.WellFormed) (fits : program.Fits base)
    (live : base.Live goal) (remains : Remains program base goal enumeration left) :
    (∃ outcome, Settles (fun fuel => enumeration.next fuel) outcome ∧
      Result program base goal left outcome) ∨
    ∃ later enough, (∀ fuel, enough ≤ fuel → enumeration.next (fuel + 1) = later.next fuel) ∧
      RemainsLess program base goal left later := by
  cases closed : enumeration.finished with
  | true =>
    refine .inl ⟨_, (settles_at _).succ 0 fun more _ => ?_, .ended enumeration⟩
    simp [Enumeration.next, closed]
  | false =>
    obtain ⟨events, running, -⟩ := remains.running
    obtain ⟨hit, stands⟩ := running.stands
    have returns := stands.returns
    rw [← running.same_program] at returns
    cases returns with
    | fault outside settles =>
      obtain ⟨enough, came⟩ := settles
      refine .inl ⟨_, (settles_at _).succ enough fun more above => ?_, .stops outside⟩
      rw [Enumeration.next]
      simp only [closed, Bool.false_eq_true, if_false, came more above]
    | @done value settles =>
      obtain ⟨found, search, state⟩ := value
      obtain ⟨enough, came⟩ := settles
      have reached := came enough (Nat.le_refl _)
      cases found with
      | true =>
        by_cases old : state.path ∈ enumeration.seen
        · refine .inr ⟨_, enough, fun more above => ?_,
            remains.answered reached .duplicate enumeration.seen⟩
          rw [Enumeration.next]
          simp only [closed, Bool.false_eq_true, if_false, came more above, old, if_true]
        · refine .inl ⟨_, (settles_at _).succ enough fun more above => ?_,
            .given (state.solution enumeration.vars)
              (remains.answered reached .solution (state.path :: enumeration.seen))⟩
          rw [Enumeration.next]
          simp only [closed, Bool.false_eq_true, if_false, came more above, old]
      | false =>
        by_cases last : search.truncated = false ∨ enumeration.policy.maximum ≤ enumeration.depthLimit
        · refine .inl ⟨_, (settles_at _).succ enough fun more above => ?_,
            .ended { enumeration with
              pass := none, finished := true, state := state.restore enumeration.root }⟩
          rw [Enumeration.next]
          simp only [closed, Bool.false_eq_true, if_false, came more above]
          rw [if_pos (by simpa using last)]
        · simp only [not_or, Bool.not_eq_false, UInt64.not_le] at last
          refine .inr ⟨_, enough, fun more above => ?_,
            remains.widened wellFormed fits live reached last.2⟩
          rw [Enumeration.next]
          simp only [closed, Bool.false_eq_true, if_false, came more above]
          rw [if_neg (by simpa using last)]

theorem Remains.next (wellFormed : base.WellFormed) (fits : program.Fits base)
    (live : base.Live goal) (remains : Remains program base goal enumeration left) :
    ∃ outcome, Settles (fun fuel => enumeration.next fuel) outcome ∧
      Result program base goal left outcome := by
  induction left using fewer_wellFounded.induction generalizing enumeration with
  | _ left ih =>
  rcases remains.round wellFormed fits live with settled | ⟨later, enough, same, less, fewer, onward⟩
  · exact settled
  · obtain ⟨outcome, settles, result⟩ := ih less fewer onward
    exact ⟨outcome, settles.succ enough same, result.earlier fewer⟩

end

namespace Surfaced

end Surfaced

end Resolvent
