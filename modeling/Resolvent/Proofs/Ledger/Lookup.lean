import Mathlib.Data.Finset.Card
import Mathlib.Data.Finset.Range
import Mathlib.Logic.Relation
import Resolvent.Proofs.Ledger.Restore

namespace Resolvent

namespace Arena

variable {arena : Arena} {id : TermId} {cell : Compound}

theorem compound?_eq_some : arena.compound? id = some cell ↔ arena.node id = .compound cell := by
  rw [compound?]
  split <;> simp_all

theorem contains_of_compound (held : arena.node id = .compound cell) : arena.contains id = true := by
  rw [node] at held
  split at held
  · next slot found =>
    exact decide_eq_true (Array.getElem?_eq_some_iff.mp found).1
  · cases held

end Arena

namespace Ledger

variable {ledger : Ledger}

theorem node_number {id : TermId} {value : Rational}
    (known : ledger.shape? id = some (.number value)) : ledger.arena.node id = .number value := by
  rw [node_arena, known]
  rfl

theorem node_compound {id : TermId} {symbol : Symbol} {args : List TermId}
    (known : ledger.shape? id = some (.compound symbol args)) :
    ledger.arena.node id = .compound { symbol, args, active := decide (id ∈ ledger.calls) } := by
  rw [node_arena, known]
  rfl

theorem node_var {id : TermId} (known : ledger.shape? id = some .var) :
    ledger.arena.node id = .var
      { binding := ledger.binding? id
        delayed := decide (id ∈ ledger.delayed)
        constraints := ledger.watchers id } := by
  rw [node_arena, known]
  rfl

theorem shape_of_number {id : TermId} {value : Rational}
    (held : ledger.arena.node id = .number value) : ledger.shape? id = some (.number value) := by
  rw [node_arena] at held
  cases known : ledger.shape? id with
  | none => simp [known] at held
  | some shape =>
    cases shape <;> simp_all [node]

theorem shape_of_compound {id : TermId} {cell : Compound}
    (held : ledger.arena.node id = .compound cell) :
    ledger.shape? id = some (.compound cell.symbol cell.args) ∧
      cell.active = decide (id ∈ ledger.calls) := by
  rw [node_arena] at held
  cases known : ledger.shape? id with
  | none => simp [known] at held
  | some shape =>
    cases shape with
    | number | var => simp [known, node] at held
    | compound symbol args =>
      simp only [known, Option.map_some, Option.getD_some, node, Node.compound.injEq] at held
      subst held
      exact ⟨rfl, rfl⟩

theorem shape_of_var {id : TermId} {cell : Variable} (live : ledger.Live id)
    (held : ledger.arena.node id = .var cell) : ledger.shape? id = some .var := by
  obtain ⟨shape, known⟩ := live.shape
  rw [node_arena, known] at held
  cases shape <;> simp_all [node]

theorem shape_of_compound? {id : TermId} {cell : Compound}
    (held : ledger.arena.compound? id = some cell) :
    ledger.shape? id = some (.compound cell.symbol cell.args) := by
  unfold Arena.compound? at held
  split at held
  · next node =>
    cases held
    exact (shape_of_compound node).1
  · cases held

theorem Consistent.binding?_arena (consistent : ledger.Consistent) (id : TermId) :
    ledger.arena.binding? id = ledger.binding? id := by
  have absent (other : ledger.shape? id ≠ some .var) : ledger.binding? id = none := by
    apply lookup_eq_none
    rintro binding member rfl
    exact other (consistent.bound_var binding member)
  rw [Arena.binding?, node_arena]
  cases known : ledger.shape? id with
  | none => simp [absent (by simp [known])]
  | some shape =>
    cases shape with
    | var => rfl
    | number | compound => simp [node, absent (by simp [known])]

theorem mem_of_lookup {entries : List (TermId × TermId)} {id value : TermId}
    (found : entries.lookup id = some value) : (id, value) ∈ entries := by
  obtain ⟨before, after, same, -⟩ := List.lookup_eq_some_iff.mp found
  rw [same]
  simp

theorem mem_bindings_of_lookup {id target : TermId} (bound : ledger.binding? id = some target) :
    (id, target) ∈ ledger.bindings := mem_of_lookup bound

/-- A rank may be taken to be the number of terms of lower rank, which is less than that of all. -/
theorem WellFormed.ranked (wellFormed : ledger.WellFormed) :
    ∃ rank, ledger.Falls rank ∧ ∀ id, ledger.Live id → rank id < ledger.size := by
  obtain ⟨rank, falls⟩ := wellFormed.chains_end
  refine ⟨fun id => ((Finset.range ledger.size).filter fun index => rank ⟨index⟩ < rank id).card,
    fun binding member isVar => ?_, fun id live => ?_⟩
  · have lower := falls binding member isVar
    apply Finset.card_lt_card
    rw [Finset.ssubset_iff_of_subset]
    · refine ⟨binding.2.index, ?_, ?_⟩
      · rw [Finset.mem_filter, Finset.mem_range]
        exact ⟨wellFormed.target_live binding member, lower⟩
      · rw [Finset.mem_filter, not_and]
        exact fun _ => Nat.lt_irrefl _
    · intro index inside
      rw [Finset.mem_filter] at inside ⊢
      exact ⟨inside.1, Nat.lt_trans inside.2 lower⟩
  · have fewer : (Finset.range ledger.size).filter (fun index => rank ⟨index⟩ < rank id) ⊂
        Finset.range ledger.size :=
      Finset.filter_ssubset.mpr ⟨id.index, Finset.mem_range.mpr live, Nat.lt_irrefl _⟩
    simpa using Finset.card_lt_card fewer

theorem derefWithin_of_unbound {arena : Arena} {id : TermId} (ends : arena.binding? id = none)
    (fuel : Nat) : arena.derefWithin fuel id = id := by
  cases fuel with
  | zero => rfl
  | succ fuel => rw [Arena.derefWithin, ends]

theorem deref_of_unbound {arena : Arena} {id : TermId} (ends : arena.binding? id = none) :
    arena.deref id = id := derefWithin_of_unbound ends _

theorem WellFormed.unbound_of_shape (wellFormed : ledger.WellFormed) {id : TermId}
    (other : ledger.shape? id ≠ some .var) : ledger.arena.binding? id = none := by
  rw [wellFormed.binding?_arena]
  apply lookup_eq_none
  rintro binding member rfl
  exact other (wellFormed.bound_var binding member)

theorem WellFormed.deref_of_shape (wellFormed : ledger.WellFormed) {id : TermId}
    (other : ledger.shape? id ≠ some .var) : ledger.arena.deref id = id :=
  deref_of_unbound (wellFormed.unbound_of_shape other)

theorem WellFormed.binding?_derefWithin (wellFormed : ledger.WellFormed) {rank : TermId → Nat}
    (falls : ledger.Falls rank) (fuel : Nat) (id : TermId) (enough : rank id < fuel) :
    ledger.arena.binding? (ledger.arena.derefWithin fuel id) = none := by
  induction fuel generalizing id with
  | zero => omega
  | succ fuel ih =>
    rw [Arena.derefWithin]
    cases bound : ledger.arena.binding? id with
    | none => exact bound
    | some target =>
      rw [wellFormed.binding?_arena] at bound
      have listed := mem_bindings_of_lookup bound
      by_cases known : ledger.shape? target = some .var
      · have lower : rank target < rank id := falls _ listed known
        exact ih target (by omega)
      · have ends := wellFormed.unbound_of_shape known
        simpa only [derefWithin_of_unbound ends] using ends

theorem WellFormed.binding?_deref (wellFormed : ledger.WellFormed) (id : TermId) :
    ledger.arena.binding? (ledger.arena.deref id) = none := by
  by_cases live : ledger.Live id
  · obtain ⟨rank, falls, low⟩ := wellFormed.ranked
    apply wellFormed.binding?_derefWithin falls
    rw [size_arena]
    exact low id live
  · have free : ledger.shape? id = none := by
      rw [shape?, List.getElem?_eq_none_iff]
      exact Nat.le_of_not_lt live
    have ends : ledger.arena.binding? id = none := by
      rw [wellFormed.binding?_arena, wellFormed.toConsistent.binding?_free free]
    rwa [deref_of_unbound ends]

theorem WellFormed.derefWithin_enough (wellFormed : ledger.WellFormed) {rank : TermId → Nat}
    (falls : ledger.Falls rank) {fuel more : Nat} {id : TermId} (enough : rank id < fuel)
    (enoughToo : rank id < more) :
    ledger.arena.derefWithin fuel id = ledger.arena.derefWithin more id := by
  induction fuel generalizing id more with
  | zero => omega
  | succ fuel ih =>
    cases more with
    | zero => omega
    | succ more =>
      rw [Arena.derefWithin, Arena.derefWithin]
      cases bound : ledger.arena.binding? id with
      | none => rfl
      | some target =>
        rw [wellFormed.binding?_arena] at bound
        by_cases known : ledger.shape? target = some .var
        · have lower : rank target < rank id := falls _ (mem_bindings_of_lookup bound) known
          exact ih (by omega) (by omega)
        · have ends := wellFormed.unbound_of_shape known
          simp only [derefWithin_of_unbound ends]

theorem WellFormed.deref_bound (wellFormed : ledger.WellFormed) {id target : TermId}
    (bound : ledger.binding? id = some target) :
    ledger.arena.deref id = ledger.arena.deref target := by
  have live := live_of_shape (wellFormed.bound_var _ (mem_bindings_of_lookup bound))
  have more : ledger.arena.deref id = ledger.arena.derefWithin (ledger.size + 1) id := by
    obtain ⟨rank, falls, low⟩ := wellFormed.ranked
    rw [Arena.deref, size_arena]
    exact wellFormed.derefWithin_enough falls (low id live) (Nat.lt_succ_of_lt (low id live))
  rw [more, Arena.derefWithin, wellFormed.binding?_arena, bound, Arena.deref, size_arena]

theorem Extends.binding? {later : Ledger} (grown : later.Extends ledger) {id target : TermId}
    (bound : ledger.binding? id = some target) : later.binding? id = some target := by
  obtain ⟨more, same⟩ := grown.bindings
  rw [Ledger.binding?] at bound ⊢
  rw [← same, List.lookup_append, bound]
  rfl

/-- One term is bound to another over any number of steps. -/
def Chain (ledger : Ledger) : TermId → TermId → Prop :=
  Relation.ReflTransGen fun source target => ledger.binding? source = some target

theorem chain_derefWithin (wellFormed : ledger.WellFormed) (fuel : Nat) (id : TermId) :
    ledger.Chain id (ledger.arena.derefWithin fuel id) := by
  induction fuel generalizing id with
  | zero => exact .refl
  | succ fuel ih =>
    rw [Arena.derefWithin, wellFormed.binding?_arena]
    cases bound : ledger.binding? id with
    | none => exact .refl
    | some target => exact .head bound (ih target)

theorem WellFormed.chain_deref (wellFormed : ledger.WellFormed) (id : TermId) :
    ledger.Chain id (ledger.arena.deref id) := chain_derefWithin wellFormed _ id

theorem Chain.later {later : Ledger} {var id : TermId} (chain : ledger.Chain var id)
    (grown : later.Extends ledger) : later.Chain var id :=
  Relation.ReflTransGen.mono (fun _ _ bound => grown.binding? bound) _ _ chain

theorem Chain.deref {var id : TermId} (chain : ledger.Chain var id)
    (wellFormed : ledger.WellFormed) : ledger.arena.deref id = ledger.arena.deref var := by
  induction chain with
  | refl => rfl
  | tail _ bound ih => rw [← ih, wellFormed.deref_bound bound]

theorem Extends.deref {later : Ledger} (grown : later.Extends ledger)
    (wellFormed : ledger.WellFormed) (laterFormed : later.WellFormed) (id : TermId) :
    later.arena.deref (ledger.arena.deref id) = later.arena.deref id :=
  ((wellFormed.chain_deref id).later grown).deref laterFormed

theorem Chain.live {var id : TermId} (chain : ledger.Chain var id)
    (wellFormed : ledger.WellFormed) (live : ledger.Live var) : ledger.Live id := by
  cases chain with
  | refl => exact live
  | tail _ bound => exact wellFormed.target_live _ (mem_bindings_of_lookup bound)

theorem WellFormed.live_deref (wellFormed : ledger.WellFormed) {id : TermId}
    (live : ledger.Live id) : ledger.Live (ledger.arena.deref id) :=
  (wellFormed.chain_deref id).live wellFormed live

theorem Consistent.live_args (consistent : ledger.Consistent) {id : TermId} {symbol : Symbol}
    {args : List TermId} (known : ledger.shape? id = some (.compound symbol args)) :
    ∀ arg ∈ args, ledger.Live arg :=
  fun arg member =>
    Nat.lt_trans (consistent.args_older known arg member) (live_of_shape known)

end Ledger

end Resolvent
