import Resolvent.Proofs.Ledger.Constraints
import Resolvent.Proofs.Semantics.Derivation

namespace Resolvent

variable {ledger later : Ledger} {ρ τ : TermId → Tree}

structure Reads (ρ : TermId → Tree) (ledger : Ledger) : Prop where
  number : ∀ {id value}, ledger.shape? id = some (.number value) → ρ id = .number value
  compound : ∀ {id symbol args}, ledger.shape? id = some (.compound symbol args) →
    ρ id = .compound symbol (args.map ρ)

structure Models (ρ : TermId → Tree) (ledger : Ledger) : Prop extends Reads ρ ledger where
  bound : ∀ binding ∈ ledger.bindings, ρ binding.1 = ρ binding.2

structure Satisfies (ρ : TermId → Tree) (ledger : Ledger) : Prop extends Models ρ ledger where
  apart : ∀ posting ∈ ledger.postings, ρ posting.left ≠ ρ posting.right

theorem Reads.earlier (reads : Reads ρ later) (grown : later.Extends ledger) : Reads ρ ledger where
  number shape := reads.number (grown.shape shape)
  compound shape := reads.compound (grown.shape shape)

theorem Models.earlier (models : Models ρ later) (grown : later.Extends ledger) :
    Models ρ ledger where
  toReads := models.toReads.earlier grown
  bound binding member := models.bound binding (grown.bindings.subset member)

theorem Models.marks (models : Models ρ ledger) (terms : later.terms = ledger.terms)
    (bindings : later.bindings = ledger.bindings) : Models ρ later := by
  have shapes (id : TermId) : later.shape? id = ledger.shape? id := by
    rw [Ledger.shape?, terms, Ledger.shape?]
  exact ⟨⟨fun {id _} shape => models.number ((shapes id).symm.trans shape),
    fun {id _ _} shape => models.compound ((shapes id).symm.trans shape)⟩,
    fun binding member => models.bound binding (bindings ▸ member)⟩

theorem Satisfies.earlier (satisfies : Satisfies ρ later) (grown : later.Extends ledger) :
    Satisfies ρ ledger where
  toModels := satisfies.toModels.earlier grown
  apart posting member := satisfies.apart posting (grown.postings.subset member)

theorem Models.chain (models : Models ρ ledger) {id last : TermId} (chain : ledger.Chain id last) :
    ρ last = ρ id := by
  induction chain with
  | refl => rfl
  | tail _ bound ih => rw [← ih, models.bound _ (Ledger.mem_bindings_of_lookup bound)]

theorem Models.deref (models : Models ρ ledger) (wellFormed : ledger.WellFormed) (id : TermId) :
    ρ (ledger.arena.deref id) = ρ id := models.chain (wellFormed.chain_deref id)

theorem Models.deref_eq_iff (models : Models ρ ledger) (wellFormed : ledger.WellFormed)
    {left right : TermId} :
    ρ (ledger.arena.deref left) = ρ (ledger.arena.deref right) ↔ ρ left = ρ right := by
  rw [models.deref wellFormed, models.deref wellFormed]

theorem Reads.unique (reads : Reads ρ ledger) (others : Reads τ ledger)
    (wellFormed : ledger.WellFormed)
    (vars : ∀ id, ledger.shape? id = some .var → ρ id = τ id) {id : TermId}
    (live : ledger.Live id) : ρ id = τ id := by
  generalize place : id.index = index
  induction index using Nat.strongRecOn generalizing id with
  | ind index ih =>
    obtain ⟨shape, known⟩ := live.shape
    cases shape with
    | number value => rw [reads.number known, others.number known]
    | var => exact vars id known
    | compound symbol args =>
      rw [reads.compound known, others.compound known]
      congr 1
      apply List.map_congr_left
      intro arg member
      have older := wellFormed.args_older known arg member
      exact ih arg.index (by omega) (wellFormed.live_args known arg member) rfl

theorem groundWithin_enough (wellFormed : ledger.WellFormed) (values : TermId → Tree)
    {fuel more : Nat} {id : TermId} (enough : id.index < fuel) (enoughToo : id.index < more) :
    ledger.arena.groundWithin values fuel id = ledger.arena.groundWithin values more id := by
  induction fuel generalizing id more with
  | zero => omega
  | succ fuel ih =>
    cases more with
    | zero => omega
    | succ more =>
      rw [Arena.groundWithin, Arena.groundWithin]
      cases held : ledger.arena.node id with
      | number | var => rfl
      | compound cell =>
        simp only
        congr 1
        apply List.map_congr_left
        intro arg member
        have older := wellFormed.args_older (Ledger.shape_of_compound held).1 arg member
        exact ih (by omega) (by omega)

theorem ground_node (wellFormed : ledger.WellFormed) (values : TermId → Tree) {id : TermId}
    (live : ledger.Live id) :
    ledger.arena.ground values id =
      match ledger.arena.node id with
      | .number value => .number value
      | .var _ => values id
      | .compound cell => .compound cell.symbol (cell.args.map (ledger.arena.ground values)) := by
  have whole : ledger.arena.ground values = ledger.arena.groundWithin values ledger.size := by
    funext term
    rw [Arena.ground, Ledger.size_arena]
  have more := groundWithin_enough wellFormed values live (Nat.lt_succ_of_lt live)
  rw [whole, more]
  cases held : ledger.arena.node id <;> rw [Arena.groundWithin, held]

theorem ground_var (wellFormed : ledger.WellFormed) (values : TermId → Tree) {id : TermId}
    (isVar : ledger.shape? id = some .var) : ledger.arena.ground values id = values id := by
  rw [ground_node wellFormed values (Ledger.live_of_shape isVar), Ledger.node_var isVar]

theorem ground_reads (wellFormed : ledger.WellFormed) (values : TermId → Tree) :
    Reads (ledger.arena.ground values) ledger where
  number shape := by
    rw [ground_node wellFormed values (Ledger.live_of_shape shape), Ledger.node_number shape]
  compound shape := by
    rw [ground_node wellFormed values (Ledger.live_of_shape shape), Ledger.node_compound shape]

theorem ground_later (wellFormed : ledger.WellFormed) (grown : later.Extends ledger)
    (laterFormed : later.WellFormed) (values : TermId → Tree) {id : TermId} (live : ledger.Live id) :
    later.arena.ground values id = ledger.arena.ground values id := by
  refine ((ground_reads laterFormed values).earlier grown).unique (ground_reads wellFormed values)
    wellFormed (fun var isVar => ?_) live
  rw [ground_var laterFormed values (grown.shape isVar), ground_var wellFormed values isVar]

/-- New terms can be read without changing how others are, new variables as one likes. -/
theorem Models.extend (models : Models ρ ledger) (wellFormed : ledger.WellFormed)
    (grown : later.Allocates ledger) (τ : TermId → Tree) :
    ∃ extended, Models extended later ∧ (∀ id, ledger.Live id → extended id = ρ id) ∧
      ∀ id : TermId, ledger.size ≤ id.index → later.shape? id = some .var →
        extended id = τ id := by
  let values (id : TermId) : Tree := if id.index < ledger.size then ρ id else τ id
  have reads := ground_reads grown.wellFormed values
  have old {id : TermId} (live : ledger.Live id) : later.arena.ground values id = ρ id := by
    refine (reads.earlier grown.extends).unique models.toReads wellFormed ?_ live
    intro var isVar
    rw [ground_var grown.wellFormed values (grown.extends.shape isVar)]
    exact if_pos (Ledger.live_of_shape isVar)
  refine ⟨later.arena.ground values, ⟨reads, fun binding member => ?_⟩, fun id => old, ?_⟩
  · have held : binding ∈ ledger.bindings := by rwa [grown.bindings] at member
    rw [old (Ledger.live_of_shape (wellFormed.bound_var binding held)),
      old (wellFormed.target_live binding held)]
    exact models.bound binding held
  · intro id past isVar
    rw [ground_var grown.wellFormed values isVar]
    exact if_neg (Nat.not_lt_of_le past)

theorem Satisfies.extend (satisfies : Satisfies ρ ledger) (wellFormed : ledger.WellFormed)
    (grown : later.Allocates ledger) (τ : TermId → Tree) :
    ∃ extended, Satisfies extended later ∧ (∀ id, ledger.Live id → extended id = ρ id) ∧
      ∀ id : TermId, ledger.size ≤ id.index → later.shape? id = some .var →
        extended id = τ id := by
  obtain ⟨extended, models, old, new⟩ := satisfies.toModels.extend wellFormed grown τ
  refine ⟨extended, ⟨models, fun posting member => ?_⟩, old, new⟩
  rw [grown.postings] at member
  rw [old _ (wellFormed.posting_left posting member), old _ (wellFormed.posting_right posting member)]
  exact satisfies.apart posting member

end Resolvent
