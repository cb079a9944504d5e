import Resolvent.Proofs.Search.Order

namespace Resolvent

variable {program : Program} {limit : Nat} {ledger : Ledger} {goal : TermId}

def Diverge (first second : Ledger) : Prop :=
  ¬ first.path <+: second.path ∧ ¬ second.path <+: first.path

theorem Diverge.path_ne {first second : Ledger} (diverge : Diverge first second) :
    first.path ≠ second.path := by
  intro same
  exact diverge.1 (same ▸ List.prefix_refl _)

theorem Ahead.diverge {first second : Ledger} (ahead : Ahead first.path second.path) :
    Diverge first second := by
  constructor
  · exact fun goesOn => (ahead.onward goesOn (List.prefix_refl _)).ne rfl
  · exact fun goesOn => (ahead.onward (List.prefix_refl _) goesOn).ne rfl

theorem solve_apart (level : Nat) (quiet : Quiet program ledger)
    (callable : ledger.arena.Callable anywhere goal) :
    (answersOf (solve program limit level goal ledger)).Pairwise Diverge :=
  (solve_ordered program limit level quiet.wellFormed quiet.fits
    (Ledger.callable_live callable)).inOrder.imp Ahead.diverge

end Resolvent
