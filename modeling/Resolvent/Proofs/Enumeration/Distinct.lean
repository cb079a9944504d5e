import Mathlib.Data.List.Forall2
import Resolvent.Proofs.Enumeration.Running
import Resolvent.Proofs.Search.Asking
import Resolvent.Proofs.Search.Order

namespace Resolvent

section

variable {program : Program} {base : Ledger}

def PathsInOrder (answers : List State) : Prop :=
  answers.Pairwise fun first second => Ahead first.path.toList second.path.toList

theorem Holds.path {state : State} {ledger : Ledger} (holds : Holds state ledger) :
    state.path.toList = ledger.path := by
  obtain ⟨counters, rfl⟩ := holds
  rfl

theorem pathsInOrder {ledgers : List Ledger} (inOrder : InOrder ledgers) {answers : List State}
    (held : List.Forall₂ Holds answers ledgers) : PathsInOrder answers := by
  have same : answers.map (fun answer => answer.path.toList) = ledgers.map Ledger.path := by
    rw [← List.forall₂_eq_eq_eq, List.forall₂_map_left_iff, List.forall₂_map_right_iff]
    exact held.imp fun answer ledger holds => holds.path
  have paths := List.pairwise_map.mpr inOrder
  rw [← same] at paths
  exact List.pairwise_map.mp paths

structure Discerns (program : Program) (base : Ledger) (known : List (Array Choice))
    (enumeration : Enumeration) (done : List Ledger) (rest : List Emission) : Prop where
  running : Running program base enumeration rest
  inOrder : InOrder (done ++ answersOf rest)
  seen : ∀ path ∈ enumeration.seen, path ∈ known ∨ ∃ ledger ∈ done, path.toList = ledger.path

theorem Discerns.answered {known : List (Array Choice)} {enumeration : Enumeration}
    {done : List Ledger} {rest : List Emission} {search : Search} {state : State} {fuel : Nat}
    (discerns : Discerns program base known enumeration done rest)
    (next : enumeration.currentPass.1.next enumeration.program fuel enumeration.currentPass.2 =
      .done (true, search, state)) :
    ∃ ledger others, Holds state ledger ∧ (∀ earlier ∈ done, earlier.path ≠ ledger.path) ∧
      ∀ event : Event, ∀ seen,
        (∀ path ∈ seen, path ∈ enumeration.seen ∨ path.toList = ledger.path) →
        Discerns program base known
          { enumeration with pass := some search, seen, state := state.record event }
          (done ++ [ledger]) others := by
  obtain ⟨ledger, others, listed, holds, onward⟩ := discerns.running.answered next
  have inOrder := discerns.inOrder
  rw [listed] at inOrder
  refine ⟨ledger, others, holds, ?_, fun event seen kept => ⟨onward event seen, ?_, ?_⟩⟩
  · intro earlier member
    exact ((List.pairwise_append.mp inOrder).2.2 earlier member ledger (by simp)).ne
  · simpa using inOrder
  · intro path member
    rcases kept path member with old | new
    · rcases discerns.seen path old with before | ⟨found, among, same⟩
      · exact .inl before
      · exact .inr ⟨found, by simp [among], same⟩
    · exact .inr ⟨ledger, by simp, new⟩

/-- As long as a pass goes on, an answer is left out only if its path was known before the pass. -/
theorem Discerns.rounds {known : List (Array Choice)} {enumeration last : Enumeration}
    {findings : List Finding} {done : List Ledger} {rest : List Emission}
    (discerns : Discerns program base known enumeration done rest)
    (rounds : enumeration.Rounds findings last)
    (same : last.depthLimit = enumeration.depthLimit) :
    ∀ answer, .suppressed answer ∈ findings → answer.path ∈ known := by
  induction rounds generalizing done rest with
  | none => simp
  | @more enumeration middle last first findings round others ih =>
    intro answer member
    cases round with
    | @reports search state fuel going next new =>
      obtain ⟨ledger, left, holds, -, onward⟩ := discerns.answered next
      refine ih (onward .solution _ ?_) same answer (by simpa using member)
      intro path listed
      rcases List.mem_cons.mp listed with rfl | old
      · exact .inr holds.path
      · exact .inl old
    | @suppresses search state fuel going next old =>
      obtain ⟨ledger, left, holds, apart, onward⟩ := discerns.answered next
      rcases List.mem_append.mp member with now | after
      · obtain rfl : answer = state := by simpa using now
        rcases discerns.seen _ old with before | ⟨found, among, path⟩
        · exact before
        · exact absurd (path.symm.trans holds.path) (apart found among)
      · exact ih (onward .duplicate _ fun path listed => .inl listed) same answer after
    | @finishes search state fuel going next ended =>
      cases others with
      | none => simp at member
      | more later _ => cases later <;> contradiction
    | @widens search state fuel going next cut low =>
      have grown := others.depthLimit_le
      rw [same] at grown
      exact absurd grown (Nat.not_le_of_lt (widen_higher low))

/-- Paths identify the answers of a pass. Whatever is called as a goal, they come in the order of the
    choices, and of two paths none is the beginning of the other. So an enumeration leaves out an
    answer only if its path was seen before the pass that finds it. -/
theorem paths_identify_answers {state : State} {goal : TermId} (poised : Poised program state goal) :
    (∀ limit answers later last,
      (Search.start goal limit).Asks program state answers later last →
      answers.Pairwise fun first second =>
        List.Lex Choice.Before first.path.toList second.path.toList ∧
        ∃ (index : Nat) (earlier later : Choice), first.path[index]? = some earlier ∧
          second.path[index]? = some later ∧ earlier ≠ later) ∧
    ∀ enumeration : Enumeration, enumeration.program = program → enumeration.query = goal →
      enumeration.state = state → enumeration.pass = none →
      ∀ findings last, enumeration.Rounds findings last →
        last.depthLimit = enumeration.depthLimit →
        ∀ answer, .suppressed answer ∈ findings → answer.path ∈ enumeration.seen := by
  obtain ⟨base, ⟨counters, rfl⟩, wellFormed, fits, live⟩ := poised
  have inOrder (limit : Nat) := (solve_ordered program limit (limit + 1) wellFormed fits live).inOrder
  constructor
  · intro limit answers later last asks
    obtain ⟨done, rest, -, split, held, -⟩ := (stands_start wellFormed fits live limit counters).asks asks
    have found := inOrder limit
    rw [split] at found
    refine (pathsInOrder (List.pairwise_append.mp found).1 held).imp fun ahead => ⟨ahead.lex, ?_⟩
    simpa using Ahead.differ ahead
  · intro enumeration same sameGoal sameState fresh findings last rounds pass
    have running := running_idle wellFormed fits (sameGoal ▸ live) same fresh ⟨counters, sameState⟩
    rw [sameGoal] at running
    have discerns : Discerns program base enumeration.seen enumeration [] _ :=
      ⟨running, inOrder enumeration.depthLimit.toNat, fun path member => .inl member⟩
    exact discerns.rounds rounds pass

end

namespace Surfaced

def secondPass : Enumeration where
  program := program
  policy := {}
  query := ⟨15⟩
  vars := [⟨10⟩]
  root := state.snapshot
  depthLimit := 11
  seen := [#[.left, .clause 0]]
  state := state

def foundAgain : Search × State :=
  secondPass.currentPass.1.after program 100 secondPass.currentPass.2

/-- The two answers of a pass have paths that differ, and the one that is left out of the pass was seen
    before it. -/
theorem paths_of_two : Poised program state ⟨15⟩ ∧
    (∃ first second later last,
      (Search.start ⟨15⟩ 11).Asks program state [first, second] later last ∧
      List.Lex Choice.Before first.path.toList second.path.toList ∧
      ∃ (index : Nat) (earlier later : Choice), first.path[index]? = some earlier ∧
        second.path[index]? = some later ∧ earlier ≠ later) ∧
    ∃ answer last, secondPass.Rounds [.suppressed answer] last ∧
      last.depthLimit = secondPass.depthLimit ∧ answer.path ∈ secondPass.seen := by
  obtain ⟨ordered, known⟩ := paths_identify_answers poised
  obtain ⟨first, second, two⟩ : ∃ first second, (asked 11 2).1 = [first, second] :=
    List.length_eq_two.mp (by decide +kernel)
  have asks := asks_two
  rw [two] at asks
  have apart := List.pairwise_pair.mp (ordered 11 _ _ _ asks)
  have next : secondPass.currentPass.1.next secondPass.program 100 secondPass.currentPass.2 =
      .done (true, foundAgain.1, foundAgain.2) := by decide +kernel
  have rounds : secondPass.Rounds [.suppressed foundAgain.2] _ :=
    .more (.suppresses rfl next (by decide +kernel)) .none
  exact ⟨poised, ⟨first, second, _, _, asks, apart⟩, foundAgain.2, _, rounds, rfl,
    known secondPass rfl rfl rfl rfl _ _ rounds rfl _ (by simp)⟩

end Surfaced

end Resolvent
