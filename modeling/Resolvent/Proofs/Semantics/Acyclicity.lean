import Resolvent.Proofs.Ledger.Undoing
import Resolvent.Proofs.Search.Ready
import Resolvent.Proofs.Semantics.Verdicts
import Resolvent.Proofs.Semantics.Worklist

namespace Resolvent

inductive Arena.Edge (arena : Arena) : TermId → TermId → Prop where
  | binding {var target : TermId} (bound : arena.binding? var = some target) : Edge arena var target
  | arg {id arg : TermId} {cell : Compound} (held : arena.node id = .compound cell)
      (member : arg ∈ cell.args) : Edge arena id arg

structure Arena.Terminates (arena : Arena) : Prop where
  wellFounded : WellFounded fun next id => arena.Edge id next
  deref : ∀ id, arena.deref id =
    match arena.binding? id with
    | some next => arena.deref next
    | none => id
  value : ∀ id, arena.contains id = true → arena.value id =
    match arena.node (arena.deref id) with
    | .number value => .number value
    | .var _ => .var (arena.deref id)
    | .compound cell => .compound cell.symbol (cell.args.map arena.value)
  vars : ∀ id found, arena.contains id = true → arena.varsWithin arena.size found id =
    match arena.node (arena.deref id) with
    | .number _ => found
    | .var _ => if arena.deref id ∈ found then found else found ++ [arena.deref id]
    | .compound cell => cell.args.foldl (arena.varsWithin arena.size) found
  occurs : ∀ var id, arena.contains id = true → arena.occurs var id =
    match arena.node id with
    | .compound cell =>
      cell.args.any fun arg => arena.deref arg = var || arena.occurs var (arena.deref arg)
    | _ => false
  evaluate : ∀ id, arena.contains id = true → arena.evaluate id =
    match arena.node (arena.deref id) with
    | .number value => some ⟨some value, 0⟩
    | .var _ => some ⟨none, 0⟩
    | .compound _ =>
      match arena.operation? (arena.deref id) with
      | some (operator, left, right) => do
        let left ← arena.evaluate left
        let right ← arena.evaluate right
        return Evaluation.combine operator left right
      | none => none

structure Arena.Ordered (arena : Arena) : Prop where
  acyclic : ∀ id, ¬ Relation.TransGen arena.Edge id id
  older : ∀ var target, arena.binding? var = some target →
    arena.contains target = true ∧ ((arena.var? target).isSome = true → target.index < var.index)
  oldest : ∀ var, arena.contains var = true → arena.isUnassigned (arena.deref var) = true →
    ∀ other, arena.contains other = true → (arena.var? other).isSome = true →
      arena.deref other = arena.deref var → (arena.deref var).index ≤ other.index

namespace Ledger

variable {ledger later : Ledger} {id var target : TermId}

theorem Within.more {fuel more : Nat} (within : ledger.Within fuel id) (enough : fuel ≤ more) :
    ledger.Within more id := by
  induction within generalizing more with
  | number shape | var shape =>
    obtain ⟨more, rfl⟩ : ∃ less, more = less + 1 := ⟨more - 1, by omega⟩
    first | exact .number shape | exact .var shape
  | compound shape _ ih =>
    obtain ⟨more, rfl⟩ : ∃ less, more = less + 1 := ⟨more - 1, by omega⟩
    exact .compound shape fun arg member => ih arg member (by omega)

theorem Within.varsWithin {fuel : Nat} (within : ledger.Within fuel id) (found : List TermId) :
    ledger.arena.varsWithin (fuel + 1) found id = ledger.arena.varsWithin fuel found id := by
  induction within generalizing found with
  | number shape => simp only [Arena.varsWithin, node_number shape]
  | var shape => simp only [Arena.varsWithin, node_var shape]
  | @compound fuel id symbol args shape _ ih =>
    rw [Arena.varsWithin, Arena.varsWithin]
    simp only [node_compound shape]
    exact List.foldl_ext _ _ _ fun found arg member => ih arg member found

theorem Within.occursWithin {fuel : Nat} (within : ledger.Within fuel id) (var : TermId) :
    ledger.arena.occursWithin var (fuel + 1) (ledger.arena.deref id) =
      ledger.arena.occursWithin var fuel (ledger.arena.deref id) := by
  induction within with
  | number shape => simp only [Arena.occursWithin, node_number shape]
  | var shape => simp only [Arena.occursWithin, node_var shape]
  | @compound fuel id symbol args shape _ ih =>
    rw [Arena.occursWithin, Arena.occursWithin]
    simp only [node_compound shape]
    rw [Bool.eq_iff_iff, List.any_eq_true, List.any_eq_true]
    exact exists_congr fun arg => and_congr_right fun member => by rw [ih arg member]

theorem WellFormed.occursWithin_more {fuel : Nat} (wellFormed : ledger.WellFormed)
    (within : ledger.Within fuel id) (var : TermId) :
    ledger.arena.occursWithin var (fuel + 1) id = ledger.arena.occursWithin var fuel id := by
  have none {fuel : Nat} (other : ∀ cell, ledger.arena.node id ≠ .compound cell) :
      ledger.arena.occursWithin var fuel id = false := by
    cases fuel with
    | zero => rfl
    | succ fuel =>
      rw [Arena.occursWithin]
      split
      · next cell held => exact absurd held (other cell)
      · rfl
  by_cases compound : ∃ cell, ledger.arena.node id = .compound cell
  · obtain ⟨cell, held⟩ := compound
    have still : ledger.arena.deref id = id :=
      wellFormed.deref_of_shape (by simp [(shape_of_compound held).1])
    simpa only [still] using within.occursWithin var
  · have other := not_exists.mp compound
    rw [none other, none other]

structure Oriented (ledger : Ledger) : Prop where
  wellFormed : ledger.WellFormed
  acyclic : ledger.Acyclic
  falls : ledger.Falls TermId.index

theorem oriented_empty : ({} : Ledger).Oriented where
  wellFormed := wellFormed_empty
  acyclic := ⟨fun _ => .number default, ⟨by simp [shape?], by simp [shape?]⟩, by simp⟩
  falls := by simp [Falls]

theorem Oriented.stays (oriented : ledger.Oriented) (stays : later.Stays ledger) :
    later.Oriented where
  wellFormed := stays.wellFormed
  acyclic := stays.acyclic oriented.acyclic oriented.wellFormed
  falls := by
    intro binding member isVar
    rw [stays.bindings] at member
    rw [stays.extends.shape_eq (oriented.wellFormed.target_live binding member)] at isVar
    exact oriented.falls binding member isVar

theorem Oriented.allocate (oriented : ledger.Oriented) {shape : Shape}
    (admits : ledger.Admits shape) : (ledger.allocate shape).Oriented :=
  oriented.stays (.allocates (allocate_allocates oriented.wellFormed admits))

theorem Solves.falls {fuel : Nat} {pairs : List (TermId × TermId)} {result : Except Ledger Ledger}
    (solves : Solves fuel ledger pairs result) (falls : ledger.Falls TermId.index) :
    (held result).Falls TermId.index := by
  induction solves with
  | done | spent | clashes => exact falls
  | same _ _ ih | sameNumber _ _ _ ih => exact ih falls
  | descends _ _ _ _ _ insideIh ih => exact ih (insideIh falls)
  | fails _ _ _ _ ih => exact ih falls
  | @binds fuel ledger left right var target rest result opens ends _ ih =>
    refine ih fun binding member isVar => ?_
    rcases List.mem_append.mp member with old | new
    · exact falls binding old isVar
    · obtain rfl := List.mem_singleton.mp new
      exact opens.older isVar

theorem Oriented.solves {fuel : Nat} {pairs : List (TermId × TermId)}
    {result : Except Ledger Ledger} (oriented : ledger.Oriented)
    (solves : Solves fuel ledger pairs result) (live : ∀ pair ∈ pairs, ledger.LivePair pair) :
    (held result).Oriented where
  wellFormed := (solves.grows oriented.wellFormed live).wellFormed
  acyclic := solves.acyclic oriented.acyclic oriented.wellFormed live
  falls := solves.falls oriented.falls

/-- A variable at the end of a chain is not younger than where the chain starts. -/
theorem Oriented.le_of_chain (oriented : ledger.Oriented) (chain : ledger.Chain id next)
    (isVar : ledger.shape? next = some .var) : next.index ≤ id.index := by
  induction chain with
  | refl => exact Nat.le_refl _
  | tail _ bound ih =>
    have listed := mem_bindings_of_lookup bound
    exact Nat.le_trans (oriented.falls _ listed isVar).le
      (ih (oriented.wellFormed.bound_var _ listed))

theorem Oriented.deref_le (oriented : ledger.Oriented)
    (isVar : ledger.shape? (ledger.arena.deref id) = some .var) :
    (ledger.arena.deref id).index ≤ id.index :=
  oriented.le_of_chain (oriented.wellFormed.chain_deref id) isVar

def chainBound (ledger : Ledger) (rank : TermId → Nat) (id : TermId) : Nat :=
  if ledger.shape? id = some .var then rank id + 1 else 0

theorem WellFormed.edge_lt {ρ : TermId → Tree} {rank : TermId → Nat}
    (wellFormed : ledger.WellFormed) (falls : ledger.Falls rank) (models : Models ρ ledger)
    {next : TermId} (edge : ledger.arena.Edge id next) :
    Prod.Lex (· < ·) (· < ·) (sizeOf (ρ next), ledger.chainBound rank next)
      (sizeOf (ρ id), ledger.chainBound rank id) := by
  cases edge with
  | binding bound =>
    rw [wellFormed.binding?_arena] at bound
    have listed := mem_bindings_of_lookup bound
    have same : ρ id = ρ next := models.bound _ listed
    have isVar : ledger.shape? id = some .var := wellFormed.bound_var _ listed
    rw [same]
    refine .right _ ?_
    by_cases nextVar : ledger.shape? next = some .var
    · have lower : rank next < rank id := falls _ listed nextVar
      simpa [chainBound, isVar, nextVar] using lower
    · simp [chainBound, isVar, nextVar]
  | arg held member =>
    exact .left _ _ (models.sizeOf_arg (shape_of_compound held).1 member)

theorem WellFormed.wellFounded (wellFormed : ledger.WellFormed) (acyclic : ledger.Acyclic) :
    WellFounded fun next id => ledger.arena.Edge id next := by
  obtain ⟨ρ, models⟩ := acyclic
  obtain ⟨rank, falls⟩ := wellFormed.chains_end
  have descends : WellFounded (Prod.Lex (· < · : Nat → Nat → Prop) (· < · : Nat → Nat → Prop)) :=
    WellFounded.prod_lex Nat.lt_wfRel.wf Nat.lt_wfRel.wf
  exact Subrelation.wf (wellFormed.edge_lt falls models)
    (InvImage.wf (fun id => (sizeOf (ρ id), ledger.chainBound rank id)) descends)

theorem Oriented.wellFounded (oriented : ledger.Oriented) :
    WellFounded fun next id => ledger.arena.Edge id next :=
  oriented.wellFormed.wellFounded oriented.acyclic

theorem Oriented.terminates (oriented : ledger.Oriented) : ledger.arena.Terminates := by
  have wellFormed := oriented.wellFormed
  have acyclic := oriented.acyclic
  have within {id : TermId} (inside : ledger.arena.contains id = true) :
      ledger.Within ledger.arena.size id := by
    rw [size_arena]
    exact acyclic.within wellFormed ((contains_arena ledger id).mp inside)
  refine ⟨oriented.wellFounded, fun id => ?_, fun id inside => ?_, fun id found inside => ?_,
    fun var id inside => ?_, fun id inside => ?_⟩
  · cases bound : ledger.arena.binding? id with
    | none => exact deref_of_unbound bound
    | some next =>
      rw [wellFormed.binding?_arena] at bound
      exact wellFormed.deref_bound bound
  · exact ((within inside).valueWithin (Nat.le_succ _)).symm.trans rfl
  · exact ((within inside).varsWithin found).symm.trans rfl
  · exact (wellFormed.occursWithin_more (within inside) var).symm.trans rfl
  · have live := (contains_arena ledger id).mp inside
    have deeper := ((within inside).more (Nat.le_succ _)).evaluate acyclic wellFormed live
    exact (acyclic.evaluate wellFormed live).trans deeper.symm

theorem Oriented.ordered (oriented : ledger.Oriented) : ledger.arena.Ordered where
  acyclic id cycle := by
    have around := Relation.transGen_swap.mpr cycle
    exact oriented.wellFounded.transGen.asymmetric id id around around
  older var target bound := by
    rw [oriented.wellFormed.binding?_arena] at bound
    have listed := mem_bindings_of_lookup bound
    have live := oriented.wellFormed.target_live _ listed
    refine ⟨(contains_arena ledger target).mpr live, fun isVar => ?_⟩
    obtain ⟨cell, held⟩ := Option.isSome_iff_exists.mp isVar
    exact oriented.falls _ listed (shape_of_var? live held).1
  oldest var inside unassigned other otherInside isVar same := by
    have live := oriented.wellFormed.live_deref ((contains_arena ledger var).mp inside)
    rw [← same]
    exact oriented.deref_le (same.symm ▸ (shape_of_unassigned live unassigned).1)

theorem Oriented.unify (oriented : ledger.Oriented) {left right : TermId}
    (leftLive : ledger.Live left) (rightLive : ledger.Live right) (counters : Counters) :
    ∃ later : Ledger, later.Oriented ∧ later.Extends ledger ∧
      ∃ others, ((ledger.state counters).unify left right).2 = later.state others := by
  rcases unify_state oriented.wellFormed leftLive rightLive with
    ⟨later, solves, grown, run⟩ | ⟨clash, -, run⟩
  · obtain ⟨others, same⟩ := run counters
    have live := leftLive.pair rightLive
    exact ⟨later, oriented.solves solves live, grown.extends, others, congrArg Prod.snd same⟩
  · obtain ⟨others, same⟩ := run counters
    exact ⟨ledger, oriented, .refl ledger, others, congrArg Prod.snd same⟩

end Ledger

/-- What can become of an empty store, with the snapshots that it can be taken back to, newest
    first. Going back to one of them loses those that were taken later. -/
inductive Arises : State → List Snapshot → Prop where
  | empty : Arises {} [({} : State).snapshot]
  | build {state : State} {opened : List Snapshot} (arises : Arises state opened) (shape : Shape)
      (inside : ∀ arg ∈ shape.args, state.arena.contains arg = true) :
      Arises { state with arena := (state.arena.place shape).2 } opened
  | unify {state : State} {opened : List Snapshot} (arises : Arises state opened)
      {left right : TermId} (leftInside : state.arena.contains left = true)
      (rightInside : state.arena.contains right = true) :
      Arises (state.unify left right).2 opened
  | snapshot {state : State} {opened : List Snapshot} (arises : Arises state opened) :
      Arises state (state.snapshot :: opened)
  | restore {state : State} {snapshot : Snapshot} {newer older : List Snapshot}
      (arises : Arises state (newer ++ snapshot :: older)) :
      Arises (state.restore snapshot) (snapshot :: older)

namespace Ledger

theorem admits_shape {ledger : Ledger} {shape : Shape}
    (inside : ∀ arg ∈ shape.args, ledger.arena.contains arg = true) : ledger.Admits shape := by
  rintro symbol args rfl arg member
  exact (contains_arena ledger arg).mp (inside arg member)

theorem oriented_of_arises {state : State} {opened : List Snapshot} (arises : Arises state opened) :
    ∃ ledger stages counters, state = Ledger.state ledger counters ∧
      opened = stages.map Ledger.snapshot ∧ Stages {} (ledger :: stages) ∧
      ∀ stage ∈ ledger :: stages, stage.Oriented := by
  induction arises with
  | empty =>
    refine ⟨{}, [{}], {}, rfl, rfl, ⟨?_, ?_, ?_⟩, ?_⟩
    · simpa using consistent_empty
    · simpa using Extends.refl {}
    · simpa using Extends.refl {}
    · simpa using oriented_empty
  | build _ shape inside ih =>
    obtain ⟨ledger, stages, counters, rfl, opened, kept, oriented⟩ := ih
    obtain ⟨here, earlier⟩ := List.forall_mem_cons.mp oriented
    have admits := admits_shape inside
    have placed := here.allocate admits
    refine ⟨_, stages, counters,
      allocate_state here.wellFormed.toConsistent admits counters, opened, ?_,
      List.forall_mem_cons.mpr ⟨placed, earlier⟩⟩
    exact (kept.grow placed.wellFormed.toConsistent (allocate_extends _ _)).sublist (by simp)
  | unify _ leftInside rightInside ih =>
    obtain ⟨ledger, stages, counters, rfl, opened, kept, oriented⟩ := ih
    obtain ⟨here, earlier⟩ := List.forall_mem_cons.mp oriented
    obtain ⟨later, laterOriented, grown, others, same⟩ :=
      here.unify ((contains_arena ledger _).mp leftInside) ((contains_arena ledger _).mp rightInside)
        counters
    refine ⟨later, stages, others, same, opened, ?_,
      List.forall_mem_cons.mpr ⟨laterOriented, earlier⟩⟩
    exact (kept.grow laterOriented.wellFormed.toConsistent grown).sublist (by simp)
  | snapshot _ ih =>
    obtain ⟨ledger, stages, counters, rfl, rfl, kept, oriented⟩ := ih
    have here := oriented ledger (by simp)
    refine ⟨ledger, ledger :: stages, counters, rfl, by simp,
      kept.grow here.wellFormed.toConsistent (.refl ledger), ?_⟩
    exact List.forall_mem_cons.mpr ⟨here, oriented⟩
  | restore _ ih =>
    obtain ⟨ledger, stages, counters, rfl, opened, kept, oriented⟩ := ih
    obtain ⟨newer, rest, rfl, -, same⟩ := List.append_eq_map_iff.mp opened
    obtain ⟨stage, older, rfl, rfl, rfl⟩ := List.map_eq_cons_iff.mp same
    obtain ⟨later, -⟩ := List.pairwise_cons.mp kept.grown
    have back := restore_state (kept.consistent ledger (by simp)) (later stage (by simp)) counters
    have left : Stages {} (stage :: older) := kept.sublist (by simp)
    refine ⟨stage, stage :: older, _, back, by simp,
      left.grow (kept.consistent stage (by simp)) (.refl stage), ?_⟩
    intro other member
    refine oriented other ?_
    simp only [List.mem_cons, List.mem_append] at member ⊢
    tauto

end Ledger

/-- No term is below itself and variables of one class are bound to the oldest one, whatever was
    built, unified and undone. So following bindings and arguments ends. -/
theorem arises_acyclic {state : State} {opened : List Snapshot} (arises : Arises state opened) :
    state.arena.Ordered ∧ state.arena.Terminates ∧
      ∀ left right, state.arena.contains left = true → state.arena.contains right = true →
        state.Unifies left right := by
  obtain ⟨ledger, stages, counters, rfl, -, -, oriented⟩ := Ledger.oriented_of_arises arises
  have here := oriented ledger (by simp)
  exact ⟨here.ordered, here.terminates, fun left right leftInside rightInside =>
    here.acyclic.unifies here.wellFormed ((Ledger.contains_arena ledger left).mp leftInside)
      ((Ledger.contains_arena ledger right).mp rightInside) counters⟩

namespace Entwined

def terms : State :=
  let build (state : State) (shape : Shape) : State :=
    { state with arena := (state.arena.place shape).2 }
  [.var, .var, .var, .compound (.user 0) [⟨0⟩], .compound (.user 0) [⟨2⟩]].foldl build {}

def bound : State := ((terms.unify ⟨1⟩ ⟨3⟩).2.unify ⟨4⟩ ⟨1⟩).2

def clashed : State := (bound.unify ⟨0⟩ ⟨1⟩).2

def numbered : State :=
  { clashed with arena := (clashed.arena.place (.number (.ofInt 1))).2 }

def restored : State := (numbered.unify ⟨2⟩ ⟨5⟩).2.restore bound.snapshot

theorem arises_terms : Arises terms [({} : State).snapshot] := by
  refine .build (.build (.build (.build (.build .empty .var ?_) .var ?_) .var ?_)
    (.compound (.user 0) [⟨0⟩]) ?_) (.compound (.user 0) [⟨2⟩]) ?_
  all_goals decide +kernel

theorem arises_restored : Arises restored [bound.snapshot, ({} : State).snapshot] := by
  have first : Arises bound [({} : State).snapshot] :=
    .unify (.unify arises_terms (by decide +kernel) (by decide +kernel)) (by decide +kernel)
      (by decide +kernel)
  have second : Arises clashed [bound.snapshot, ({} : State).snapshot] :=
    .unify (.snapshot first) (by decide +kernel) (by decide +kernel)
  have third : Arises numbered [bound.snapshot, ({} : State).snapshot] :=
    .build second (.number (.ofInt 1)) (by decide +kernel)
  exact @Arises.restore _ _ [] _ (.unify third (by decide +kernel) (by decide +kernel))

theorem in_order : (bound.unify ⟨0⟩ ⟨1⟩).1 = false ∧ (numbered.unify ⟨2⟩ ⟨5⟩).1 = true ∧
    restored.arena.deref ⟨1⟩ = ⟨3⟩ ∧ restored.arena.deref ⟨2⟩ = ⟨0⟩ ∧
    Arises restored [bound.snapshot, ({} : State).snapshot] ∧ restored.arena.Ordered ∧
    restored.arena.Terminates ∧
    ∀ left right, restored.arena.contains left = true → restored.arena.contains right = true →
      restored.Unifies left right :=
  ⟨by decide +kernel, by decide +kernel, by decide +kernel, by decide +kernel, arises_restored,
    arises_acyclic arises_restored⟩

end Entwined

end Resolvent
