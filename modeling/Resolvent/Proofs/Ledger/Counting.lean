import Mathlib.Data.List.Basic
import Resolvent.Term.Variables

namespace Resolvent

namespace Occurrences

theorem wrap_add_wrap (first second : Nat) : wrap (wrap first + second) = wrap (first + second) :=
  Nat.mod_add_mod ..

theorem vars_addTimes (times : Nat) (found : Occurrences) (id : TermId) :
    (found.addTimes times id).map Prod.fst =
      if id ∈ found.map Prod.fst then found.map Prod.fst else found.map Prod.fst ++ [id] := by
  induction found with
  | nil => simp [addTimes]
  | cons entry rest ih =>
    obtain ⟨other, count⟩ := entry
    by_cases same : other = id
    · simp [addTimes, same]
    · simp only [addTimes, same, if_false, List.map_cons, ih, List.mem_cons, Ne.symm same, false_or]
      split <;> rfl

theorem mem_vars_addTimes {times : Nat} {found : Occurrences} {id other : TermId} :
    other ∈ (found.addTimes times id).map Prod.fst ↔ other ∈ found.map Prod.fst ∨ other = id := by
  rw [vars_addTimes]
  split
  · next counted => exact ⟨.inl, fun either => either.elim (·) (· ▸ counted)⟩
  · rw [List.mem_append, List.mem_singleton]

theorem addTimes_addTimes (first second : Nat) (found : Occurrences) (id : TermId) :
    (found.addTimes first id).addTimes second id = found.addTimes (first + second) id := by
  induction found with
  | nil => simp [addTimes, wrap_add_wrap]
  | cons entry rest ih =>
    obtain ⟨other, count⟩ := entry
    by_cases same : other = id
    · simp [addTimes, same, wrap_add_wrap, Nat.add_assoc]
    · simp [addTimes, same, ih]

/-- What is on the list keeps its place, so it can as well be counted before the others. -/
theorem addTimes_comm {first second : Nat} {found : Occurrences} {id other : TermId}
    (counted : id ∈ found.map Prod.fst) :
    (found.addTimes first other).addTimes second id =
      (found.addTimes second id).addTimes first other := by
  by_cases same : other = id
  · rw [same, addTimes_addTimes, addTimes_addTimes, Nat.add_comm]
  · induction found with
    | nil => cases counted
    | cons entry rest ih =>
      obtain ⟨var, count⟩ := entry
      by_cases here : var = id
      · subst here
        simp [addTimes, Ne.symm same]
      · have later : id ∈ rest.map Prod.fst := by simpa [Ne.symm here] using counted
        by_cases there : var = other
        · subst there
          simp [addTimes, here]
        · simp [addTimes, here, there, ih later]

theorem foldl_addTimes_comm {first second : Nat} {found : Occurrences} {id : TermId}
    (vars : List TermId) (counted : id ∈ found.map Prod.fst) :
    (vars.foldl (addTimes first) found).addTimes second id =
      vars.foldl (addTimes first) (found.addTimes second id) := by
  induction vars generalizing found with
  | nil => rfl
  | cons var rest ih =>
    rw [List.foldl_cons, List.foldl_cons, ih (mem_vars_addTimes.mpr (.inl counted)),
      addTimes_comm counted]

theorem foldl_addTimes_again (first second : Nat) (vars : List TermId) (found : Occurrences) :
    vars.foldl (addTimes second) (vars.foldl (addTimes first) found) =
      vars.foldl (addTimes (first + second)) found := by
  induction vars generalizing found with
  | nil => rfl
  | cons var rest ih =>
    have counted : var ∈ (found.addTimes first var).map Prod.fst := mem_vars_addTimes.mpr (.inr rfl)
    rw [List.foldl_cons, List.foldl_cons, List.foldl_cons, foldl_addTimes_comm rest counted, ih,
      addTimes_addTimes]

end Occurrences

theorem mem_of_mem_runs {args : List TermId} {run : TermId × Nat} (member : run ∈ runs args) :
    run.1 ∈ args := by
  induction args generalizing run with
  | nil => cases member
  | cons id rest ih =>
    rw [runs] at member
    split at member
    · rw [List.mem_singleton.mp member]
      exact List.mem_cons_self
    · next other times more split =>
      have later {run : TermId × Nat} (member : run ∈ (other, times) :: more) : run.1 ∈ id :: rest :=
        List.mem_cons_of_mem id (ih (split ▸ member))
      split_ifs at member with same
      · rcases List.mem_cons.mp member with rfl | member
        · exact same ▸ List.mem_cons_self
        · exact later (List.mem_cons_of_mem _ member)
      · rcases List.mem_cons.mp member with rfl | member
        · exact List.mem_cons_self
        · exact later member

theorem foldl_runs {α : Type} {one : α → TermId → α} (many : Nat → α → TermId → α)
    (single : ∀ found id, many 1 found id = one found id)
    (next : ∀ times found id, many (times + 1) found id = many times (one found id) id)
    (args : List TermId) (found : α) :
    (runs args).foldl (fun found run => many run.2 found run.1) found = args.foldl one found := by
  induction args generalizing found with
  | nil => rfl
  | cons id rest ih =>
    rw [List.foldl_cons, ← ih, runs]
    split
    · next none => rw [none, List.foldl_cons, List.foldl_nil, List.foldl_nil, single]
    · next other times more some =>
      rw [some]
      split_ifs with same
      · rw [List.foldl_cons, List.foldl_cons, next, same]
      · rw [List.foldl_cons, single]

namespace Arena

variable {α : Type}

/-- A walk through a term, which looks at each of its unassigned variables. -/
def walkWithin (arena : Arena) (look : α → TermId → α) : Nat → α → TermId → α
  | 0, found, _ => found
  | fuel + 1, found, id =>
    match arena.node (arena.deref id) with
    | .number _ => found
    | .var _ => look found (arena.deref id)
    | .compound cell => cell.args.foldl (arena.walkWithin look fuel) found

def leavesWithin (arena : Arena) : Nat → TermId → List TermId
  | 0, _ => []
  | fuel + 1, id =>
    match arena.node (arena.deref id) with
    | .number _ => []
    | .var _ => [arena.deref id]
    | .compound cell => cell.args.flatMap (arena.leavesWithin fuel)

theorem walkWithin_leaves (arena : Arena) (look : α → TermId → α) (fuel : Nat) (found : α)
    (id : TermId) : arena.walkWithin look fuel found id = (arena.leavesWithin fuel id).foldl look found := by
  induction fuel generalizing found id with
  | zero => rfl
  | succ fuel ih =>
    rw [walkWithin, leavesWithin]
    split
    · rfl
    · rfl
    · rw [List.foldl_flatMap]
      exact List.foldl_ext _ _ _ fun found arg _ => ih found arg

/-- A walk through equal neighbours at once counts what one through each of them does. -/
theorem occurrencesWithin_eq (arena : Arena) (fuel times : Nat) (found : Occurrences) (id : TermId) :
    arena.occurrencesWithin fuel times found id =
      arena.walkWithin (Occurrences.addTimes times) fuel found id := by
  induction fuel generalizing times found id with
  | zero => rfl
  | succ fuel ih =>
    rw [occurrencesWithin, walkWithin]
    cases held : arena.node (arena.deref id) with
    | number value => rfl
    | var cell => rfl
    | compound cell =>
      apply foldl_runs fun more => arena.occurrencesWithin fuel (times * more)
      · intro found arg
        rw [Nat.mul_one, ih]
      · intro more found arg
        rw [ih, ih, walkWithin_leaves, walkWithin_leaves, walkWithin_leaves,
          Occurrences.foldl_addTimes_again, Nat.mul_succ, Nat.add_comm]

theorem occurrences_eq (arena : Arena) (found : Occurrences) (id : TermId) :
    arena.occurrences found id = arena.walkWithin Occurrences.add arena.size found id :=
  arena.occurrencesWithin_eq arena.size 1 found id

end Arena

end Resolvent
