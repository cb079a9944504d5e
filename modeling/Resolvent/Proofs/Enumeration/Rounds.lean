import Resolvent.Query

namespace Resolvent

theorem saturate_next {limit : UInt64} (bounded : limit.toNat + 1 < UInt64.size) :
    (saturate (limit.toNat + 1)).toNat = limit.toNat + 1 := by
  have small : min (limit.toNat + 1) (UInt64.size - 1) = limit.toNat + 1 := by omega
  rw [saturate, small, UInt64.toNat_ofNat_of_lt' bounded]

theorem right_le_max (first second : UInt64) : second ≤ max first second := by
  change second ≤ if first ≤ second then second else first
  split
  · exact UInt64.le_refl _
  · next above => exact UInt64.le_of_lt (UInt64.not_le.mp above)

theorem lt_min {limit first second : UInt64} (low : limit < first) (lowToo : limit < second) :
    limit < min first second := by
  change limit < if first ≤ second then first else second
  split
  · exact low
  · exact lowToo

theorem widen_higher {policy : DepthPolicy} {limit : UInt64} (low : limit < policy.maximum) :
    limit.toNat < (policy.widen limit).toNat := by
  have bound := policy.maximum.toNat_lt
  have below : limit.toNat < policy.maximum.toNat := UInt64.lt_iff_toNat_lt.mp low
  have next := @saturate_next limit (by simp only [UInt64.size]; omega)
  rw [← UInt64.lt_iff_toNat_lt, DepthPolicy.widen]
  refine lt_min (UInt64.lt_of_lt_of_le ?_ (right_le_max _ _)) low
  rw [UInt64.lt_iff_toNat_lt, next]
  omega

inductive Finding where
  | reported (answer : State)
  | suppressed (answer : State)
  deriving DecidableEq, Repr

def Finding.reported? : Finding → Option State
  | .reported answer => some answer
  | .suppressed _ => none

def reported (findings : List Finding) : List State := findings.filterMap Finding.reported?

theorem reported_append (findings others : List Finding) :
    reported (findings ++ others) = reported findings ++ reported others := List.filterMap_append

namespace Enumeration

inductive Round : Enumeration → List Finding → Enumeration → Prop where
  | reports {enumeration : Enumeration} {search : Search} {state : State} {fuel : Nat}
      (running : enumeration.finished = false)
      (next : enumeration.currentPass.1.next enumeration.program fuel enumeration.currentPass.2 =
        .done (true, search, state))
      (new : state.path ∉ enumeration.seen) :
      Round enumeration [.reported state]
        { enumeration with
          pass := some search
          seen := state.path :: enumeration.seen
          state := state.record .solution }
  | suppresses {enumeration : Enumeration} {search : Search} {state : State} {fuel : Nat}
      (running : enumeration.finished = false)
      (next : enumeration.currentPass.1.next enumeration.program fuel enumeration.currentPass.2 =
        .done (true, search, state))
      (old : state.path ∈ enumeration.seen) :
      Round enumeration [.suppressed state]
        { enumeration with pass := some search, state := state.record .duplicate }
  | finishes {enumeration : Enumeration} {search : Search} {state : State} {fuel : Nat}
      (running : enumeration.finished = false)
      (next : enumeration.currentPass.1.next enumeration.program fuel enumeration.currentPass.2 =
        .done (false, search, state))
      (last : search.truncated = false ∨ enumeration.policy.maximum ≤ enumeration.depthLimit) :
      Round enumeration []
        { enumeration with
          pass := none
          finished := true
          state := state.restore enumeration.root }
  | widens {enumeration : Enumeration} {search : Search} {state : State} {fuel : Nat}
      (running : enumeration.finished = false)
      (next : enumeration.currentPass.1.next enumeration.program fuel enumeration.currentPass.2 =
        .done (false, search, state))
      (cut : search.truncated = true)
      (low : enumeration.depthLimit < enumeration.policy.maximum) :
      Round enumeration []
        { enumeration with
          pass := none
          depthLimit := enumeration.policy.widen enumeration.depthLimit
          state := state.restore enumeration.root }

inductive Rounds : Enumeration → List Finding → Enumeration → Prop where
  | none {enumeration : Enumeration} : Rounds enumeration [] enumeration
  | more {enumeration middle last : Enumeration} {first findings : List Finding}
      (round : Round enumeration first middle) (rest : Rounds middle findings last) :
      Rounds enumeration (first ++ findings) last

/-- The answers of an enumeration, asked for one after the other until there are no more. -/
inductive Drains : Enumeration → List Solution → Enumeration → Prop where
  | ended {enumeration last : Enumeration} {fuel : Nat}
      (next : enumeration.next fuel = .done (none, last)) : Drains enumeration [] last
  | given {enumeration later last : Enumeration} {solution : Solution}
      {solutions : List Solution} {fuel : Nat}
      (next : enumeration.next fuel = .done (some solution, later))
      (rest : Drains later solutions last) : Drains enumeration (solution :: solutions) last

theorem Rounds.trans {first middle last : Enumeration} {findings others : List Finding}
    (earlier : Rounds first findings middle) (later : Rounds middle others last) :
    Rounds first (findings ++ others) last := by
  induction earlier with
  | none => exact later
  | more round _ ih =>
    rw [List.append_assoc]
    exact .more round (ih later)

theorem Rounds.vars {first last : Enumeration} {findings : List Finding}
    (rounds : Rounds first findings last) : last.vars = first.vars := by
  induction rounds with
  | none => rfl
  | more round _ ih =>
    rw [ih]
    cases round <;> rfl

theorem Rounds.depthLimit_le {first last : Enumeration} {findings : List Finding}
    (rounds : Rounds first findings last) : first.depthLimit.toNat ≤ last.depthLimit.toNat := by
  induction rounds with
  | none => exact Nat.le_refl _
  | more round _ ih =>
    refine Nat.le_trans ?_ ih
    cases round with
    | reports | suppresses | finishes => exact Nat.le_refl _
    | widens _ _ _ low => exact Nat.le_of_lt (widen_higher low)

theorem next_rounds {fuel : Nat} {enumeration last : Enumeration} {result : Option Solution}
    (next : enumeration.next fuel = .done (result, last)) :
    ∃ findings, Rounds enumeration findings last ∧
      (reported findings).map (fun answer => answer.solution enumeration.vars) = result.toList ∧
      (result = none → last.finished = true) := by
  induction fuel generalizing enumeration with
  | zero => cases next
  | succ fuel ih =>
    rw [Enumeration.next] at next
    split at next
    · next closed =>
      cases next
      exact ⟨[], .none, rfl, fun _ => closed⟩
    · next running =>
      have running : enumeration.finished = false := by simpa using running
      simp only at next
      split at next
      · cases next
      · cases next
      · next search state found =>
        split at next
        · next old =>
          obtain ⟨findings, rounds, same, ends⟩ := ih next
          exact ⟨_, .more (.suppresses running found old) rounds, same, ends⟩
        · next new =>
          cases next
          exact ⟨_, .more (.reports running found new) .none, rfl, by simp⟩
      · next search state found =>
        split at next
        · next ended =>
          cases next
          have ended : search.truncated = false ∨
              enumeration.policy.maximum ≤ enumeration.depthLimit := by simpa using ended
          exact ⟨_, .more (.finishes running found ended) .none, rfl, fun _ => rfl⟩
        · next more =>
          have more : search.truncated = true ∧
              enumeration.depthLimit < enumeration.policy.maximum := by simpa using more
          obtain ⟨findings, rounds, same, ends⟩ := ih next
          exact ⟨_, .more (.widens running found more.1 more.2) rounds, same, ends⟩

theorem Drains.rounds {first last : Enumeration} {solutions : List Solution}
    (drains : Drains first solutions last) :
    ∃ findings, Rounds first findings last ∧
      (reported findings).map (fun answer => answer.solution first.vars) = solutions ∧
      last.finished = true := by
  induction drains with
  | ended next =>
    obtain ⟨findings, rounds, same, ends⟩ := next_rounds next
    exact ⟨findings, rounds, same, ends rfl⟩
  | given next _ ih =>
    obtain ⟨findings, rounds, same, -⟩ := next_rounds next
    obtain ⟨others, onward, rest, finished⟩ := ih
    refine ⟨findings ++ others, rounds.trans onward, ?_, finished⟩
    rw [rounds.vars] at rest
    rw [reported_append, List.map_append, same, rest]
    rfl

theorem drains_of_count {fuel : Nat} {enumeration : Enumeration} {total : Nat} {state : State}
    (counted : enumeration.count fuel = .done (total, state)) :
    ∃ solutions last, Drains enumeration solutions last ∧ solutions.length = total ∧
      state = last.close := by
  induction fuel generalizing enumeration total with
  | zero => cases counted
  | succ fuel ih =>
    rw [count] at counted
    split at counted
    · cases counted
    · cases counted
    · next last next =>
      cases counted
      exact ⟨[], last, .ended next, rfl, rfl⟩
    · next solution later next =>
      cases rest : later.count fuel with
      | fault | unfinished => simp [rest, Outcome.map] at counted
      | done ended =>
        obtain ⟨others, after⟩ := ended
        simp only [rest, Outcome.map, Outcome.done.injEq, Prod.mk.injEq] at counted
        obtain ⟨rfl, rfl⟩ := counted
        obtain ⟨solutions, last, drains, length, closed⟩ := ih rest
        exact ⟨solution :: solutions, last, .given next drains, by simp [length], closed⟩

end Enumeration

end Resolvent
