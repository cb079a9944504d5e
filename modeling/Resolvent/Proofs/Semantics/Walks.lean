import Mathlib.Algebra.Group.Nat.Defs
import Mathlib.Data.Finset.Card
import Mathlib.Data.Finset.Range
import Resolvent.Proofs.Semantics.Acyclicity
import Resolvent.Proofs.Semantics.MostGeneral

namespace Resolvent

structure Arena.Acyclic (arena : Arena) : Prop where
  inside : ∀ {id next}, arena.Edge id next → arena.contains next = true
  once : ∀ id, ¬ Relation.TransGen arena.Edge id id

namespace Arena

variable {α : Type} {arena : Arena} {id next : TermId} {look : α → TermId → α}

/-- The number of terms below a term goes down along every reference, and is less than that of all
    terms. -/
theorem Acyclic.ranked (acyclic : arena.Acyclic) :
    ∃ rank : TermId → Nat, (∀ {id next}, arena.Edge id next → rank next < rank id) ∧
      ∀ id, arena.contains id = true → rank id < arena.size := by
  classical
  refine ⟨fun id => ((Finset.range arena.size).filter fun index =>
    Relation.TransGen arena.Edge id ⟨index⟩).card, fun {id next} edge => ?_, fun id inside => ?_⟩
  · apply Finset.card_lt_card
    rw [Finset.ssubset_iff_of_subset]
    · refine ⟨next.index, ?_, ?_⟩
      · rw [Finset.mem_filter, Finset.mem_range]
        exact ⟨of_decide_eq_true (acyclic.inside edge), .single edge⟩
      · rw [Finset.mem_filter, not_and]
        exact fun _ => acyclic.once next
    · intro index member
      rw [Finset.mem_filter] at member ⊢
      exact ⟨member.1, .head edge member.2⟩
  · have fewer : (Finset.range arena.size).filter
        (fun index => Relation.TransGen arena.Edge id ⟨index⟩) ⊂ Finset.range arena.size :=
      Finset.filter_ssubset.mpr
        ⟨id.index, Finset.mem_range.mpr (of_decide_eq_true inside), acyclic.once id⟩
    simpa using Finset.card_lt_card fewer

def references (arena : Arena) (id : TermId) : List TermId :=
  match arena.node id with
  | .number _ => []
  | .var cell => cell.binding.toList
  | .compound cell => cell.args

theorem Edge.mem_references (edge : arena.Edge id next) : next ∈ arena.references id := by
  cases edge with
  | binding bound =>
    rw [binding?] at bound
    split at bound
    · next cell held => simp [references, held, bound]
    · cases bound
  | arg held member => rwa [references, held]

theorem acyclic_of_rank (rank : TermId → Nat)
    (falls : ∀ index < arena.size, ∀ next ∈ arena.references ⟨index⟩,
      arena.contains next = true ∧ rank next < rank ⟨index⟩) : arena.Acyclic := by
  have lower {id next : TermId} (edge : arena.Edge id next) :
      arena.contains next = true ∧ rank next < rank id := by
    refine falls id.index ?_ next edge.mem_references
    by_contra outside
    have missing : arena.slots[id.index]? = none := Array.getElem?_eq_none (Nat.le_of_not_lt outside)
    have none : arena.references id = [] := by rw [references, node, missing]; rfl
    exact List.not_mem_nil (none ▸ edge.mem_references)
  refine ⟨fun edge => (lower edge).1, fun id cycle => ?_⟩
  have below {next : TermId} (path : Relation.TransGen arena.Edge id next) : rank next < rank id := by
    induction path with
    | single edge => exact (lower edge).2
    | tail _ edge ih => exact (lower edge).2.trans ih
  exact Nat.lt_irrefl _ (below cycle)

section

variable {rank : TermId → Nat} (falls : ∀ {id next}, arena.Edge id next → rank next < rank id)

include falls

end

end Arena

theorem State.Sound.acyclic {state : State} (sound : state.Sound) : state.arena.Acyclic := by
  obtain ⟨ledger, wellFormed, acyclic, counters, rfl⟩ := sound
  refine ⟨fun {id next} edge => ?_, fun id cycle => ?_⟩
  · rw [Ledger.arena_state] at edge ⊢
    rw [Ledger.contains_arena]
    cases edge with
    | binding bound =>
      rw [wellFormed.binding?_arena] at bound
      exact wellFormed.target_live _ (Ledger.mem_bindings_of_lookup bound)
    | arg held member => exact wellFormed.live_args (Ledger.shape_of_compound held).1 _ member
  · have around := Relation.transGen_swap.mpr cycle
    exact (wellFormed.wellFounded acyclic).transGen.asymmetric id id around around

namespace Tallied

def terms : List Shape :=
  [.var, .var, .var, .var, .compound (.user 0) [⟨1⟩, ⟨0⟩], .compound (.user 1) [⟨2⟩, ⟨4⟩, ⟨3⟩],
    .compound (.user 2) [⟨2⟩, ⟨3⟩], .compound (.user 2) [⟨4⟩, ⟨1⟩]]

def state : State := { arena := (Arena.build? {} terms).getD {} }

def unified : State := (state.unify ⟨6⟩ ⟨7⟩).2

end Tallied

namespace Shared

def terms : List Shape :=
  List.replicate 9 .var ++ (List.range 8).map fun below =>
    .compound (.user 0) (List.replicate 16 ⟨below⟩)

/-- Nine variables, of which each but the first is bound to a term that takes the one before sixteen
    times. -/
def state : State :=
  (List.range 8).foldl (fun state below => state.bind ⟨below + 1⟩ ⟨below + 9⟩)
    { arena := (Arena.build? {} terms).getD {} }

theorem acyclic : state.arena.Acyclic :=
  Arena.acyclic_of_rank (fun id => if id.index < 9 then 2 * id.index else 2 * id.index - 17)
    (by decide +kernel)

end Shared

end Resolvent
