import Resolvent.Proofs.Semantics.Difference

namespace Resolvent

namespace Value

@[induction_eliminator, elab_as_elim]
theorem induct {motive : Value → Prop} (number : ∀ value, motive (.number value))
    (var : ∀ id, motive (.var id))
    (compound : ∀ symbol args, (∀ arg ∈ args, motive arg) → motive (.compound symbol args)) :
    ∀ value, motive value
  | .number value => number value
  | .var id => var id
  | .compound symbol args =>
    compound symbol args fun arg _ => induct number var compound arg
termination_by value => sizeOf value
decreasing_by
  have inside := List.sizeOf_lt_of_mem ‹arg ∈ args›
  simp only [Value.compound.sizeOf_spec]
  omega

mutual

def ground (values : TermId → Tree) : Value → Tree
  | .number value => .number value
  | .var id => values id
  | .compound symbol args => .compound symbol (groundAll values args)

def groundAll (values : TermId → Tree) : List Value → List Tree
  | [] => []
  | value :: rest => value.ground values :: groundAll values rest

end

mutual

def subst (change : TermId → Value) : Value → Value
  | .number value => .number value
  | .var id => change id
  | .compound symbol args => .compound symbol (substAll change args)

def substAll (change : TermId → Value) : List Value → List Value
  | [] => []
  | value :: rest => value.subst change :: substAll change rest

end

variable {values : TermId → Tree} {change : TermId → Value}

theorem groundAll_eq (args : List Value) : groundAll values args = args.map (ground values) := by
  induction args with
  | nil => rfl
  | cons arg rest ih => rw [groundAll, ih, List.map_cons]

theorem substAll_eq (args : List Value) : substAll change args = args.map (subst change) := by
  induction args with
  | nil => rfl
  | cons arg rest ih => rw [substAll, ih, List.map_cons]

theorem varsOfAll_eq (args : List Value) : varsOfAll args = args.flatMap vars := by
  induction args with
  | nil => rfl
  | cons arg rest ih => rw [varsOfAll, ih, List.flatMap_cons]

theorem allGround_iff (args : List Value) : allGround args = true ↔ ∀ arg ∈ args, arg.isGround = true := by
  induction args with
  | nil => simp [allGround]
  | cons arg rest ih => simp [allGround, ih]

@[simp] theorem ground_number (value : Rational) : (Value.number value).ground values = .number value := rfl

@[simp] theorem ground_var (id : TermId) : (Value.var id).ground values = values id := rfl

@[simp] theorem ground_compound (symbol : Symbol) (args : List Value) :
    (Value.compound symbol args).ground values = .compound symbol (args.map (ground values)) := by
  rw [ground, groundAll_eq]

@[simp] theorem subst_number (value : Rational) : (Value.number value).subst change = .number value := rfl

@[simp] theorem subst_var (id : TermId) : (Value.var id).subst change = change id := rfl

@[simp] theorem subst_compound (symbol : Symbol) (args : List Value) :
    (Value.compound symbol args).subst change = .compound symbol (args.map (subst change)) := by
  rw [subst, substAll_eq]

@[simp] theorem vars_number (value : Rational) : (Value.number value).vars = [] := rfl

@[simp] theorem vars_var (id : TermId) : (Value.var id).vars = [id] := rfl

@[simp] theorem vars_compound (symbol : Symbol) (args : List Value) :
    (Value.compound symbol args).vars = args.flatMap vars := by
  rw [vars, varsOfAll_eq]

theorem isGround_iff (value : Value) : value.isGround = true ↔ value.vars = [] := by
  induction value with
  | number => simp [isGround]
  | var => simp [isGround]
  | compound symbol args ih =>
    rw [isGround, allGround_iff, vars_compound, List.flatMap_eq_nil_iff]
    exact forall₂_congr fun arg member => ih arg member

theorem subst_congr {other : TermId → Value} {value : Value}
    (same : ∀ var ∈ value.vars, change var = other var) : value.subst change = value.subst other := by
  induction value with
  | number => rfl
  | var id => exact same id (by simp)
  | compound symbol args ih =>
    simp only [subst_compound, Value.compound.injEq, true_and]
    refine List.map_congr_left fun arg member => ih arg member fun var inside => same var ?_
    rw [vars_compound, List.mem_flatMap]
    exact ⟨arg, member, inside⟩

theorem ground_congr {others : TermId → Tree} {value : Value}
    (same : ∀ var ∈ value.vars, values var = others var) :
    value.ground values = value.ground others := by
  induction value with
  | number => rfl
  | var id => exact same id (by simp)
  | compound symbol args ih =>
    simp only [ground_compound, Tree.compound.injEq, true_and]
    refine List.map_congr_left fun arg member => ih arg member fun var inside => same var ?_
    rw [vars_compound, List.mem_flatMap]
    exact ⟨arg, member, inside⟩

theorem subst_self (value : Value) : value.subst .var = value := by
  induction value with
  | number | var => rfl
  | compound symbol args ih =>
    rw [subst_compound, List.map_congr_left ih, List.map_id']

theorem ground_subst (value : Value) :
    (value.subst change).ground values = value.ground fun id => (change id).ground values := by
  induction value with
  | number | var => rfl
  | compound symbol args ih =>
    simp only [subst_compound, ground_compound, List.map_map, Tree.compound.injEq, true_and]
    exact List.map_congr_left ih

theorem subst_subst {later : TermId → Value} (value : Value) :
    (value.subst change).subst later = value.subst fun id => (change id).subst later := by
  induction value with
  | number | var => rfl
  | compound symbol args ih =>
    simp only [subst_compound, List.map_map, Value.compound.injEq, true_and]
    exact List.map_congr_left ih

theorem vars_subst (value : Value) :
    (value.subst change).vars = value.vars.flatMap fun id => (change id).vars := by
  induction value with
  | number => rfl
  | var id => simp
  | compound symbol args ih =>
    rw [subst_compound, vars_compound, vars_compound, List.flatMap_map, List.flatMap_assoc]
    exact List.flatMap_congr ih

/-- Two values stand for the same tree in some way. -/
def Unify (left right : Value) : Prop := ∃ values, left.ground values = right.ground values

theorem Unify.earlier {left right : Value} (unify : (left.subst change).Unify (right.subst change)) :
    left.Unify right := by
  obtain ⟨values, same⟩ := unify
  rw [ground_subst, ground_subst] at same
  exact ⟨_, same⟩

end Value

namespace Ledger

variable {ledger later : Ledger} {ρ : TermId → Tree} {shape : Shape}

def Acyclic (ledger : Ledger) : Prop := ∃ ρ, Models ρ ledger

theorem Acyclic.allocates (acyclic : ledger.Acyclic) (wellFormed : ledger.WellFormed)
    (grown : later.Allocates ledger) : later.Acyclic := by
  obtain ⟨ρ, models⟩ := acyclic
  obtain ⟨extended, modelsToo, -⟩ := models.extend wellFormed grown ρ
  exact ⟨extended, modelsToo⟩

inductive Within (ledger : Ledger) : Nat → TermId → Prop where
  | number {fuel : Nat} {id : TermId} {value : Rational}
      (shape : ledger.shape? (ledger.arena.deref id) = some (.number value)) :
      Within ledger (fuel + 1) id
  | var {fuel : Nat} {id : TermId} (shape : ledger.shape? (ledger.arena.deref id) = some .var) :
      Within ledger (fuel + 1) id
  | compound {fuel : Nat} {id : TermId} {symbol : Symbol} {args : List TermId}
      (shape : ledger.shape? (ledger.arena.deref id) = some (.compound symbol args))
      (each : ∀ arg ∈ args, Within ledger fuel arg) : Within ledger (fuel + 1) id

theorem within_of_rank (models : Models ρ ledger) (wellFormed : ledger.WellFormed) {fuel : Nat}
    {id : TermId} (live : ledger.Live id) (low : rank ρ ledger (ρ id) ≤ fuel) :
    ledger.Within fuel id := by
  induction fuel generalizing id with
  | zero => exact absurd low (Nat.not_le_of_lt (rank_pos live))
  | succ fuel ih =>
    obtain ⟨shape, known⟩ := (wellFormed.live_deref live).shape
    cases shape with
    | number value => exact .number known
    | var => exact .var known
    | compound symbol args =>
      refine .compound known fun arg member => ih (wellFormed.live_args known arg member) ?_
      have fewer := rank_lt (live_of_shape known) (models.sizeOf_arg known member)
      rw [models.deref wellFormed] at fewer
      omega

theorem Acyclic.within (acyclic : ledger.Acyclic) (wellFormed : ledger.WellFormed) {id : TermId}
    (live : ledger.Live id) : ledger.Within ledger.size id := by
  obtain ⟨ρ, models⟩ := acyclic
  exact within_of_rank models wellFormed live (rank_le ρ ledger _)

def value (ledger : Ledger) (id : TermId) : Value := ledger.arena.value id

theorem Within.valueWithin {fuel more : Nat} {id : TermId} (within : ledger.Within fuel id)
    (enough : fuel ≤ more) :
    ledger.arena.valueWithin more id = ledger.arena.valueWithin fuel id := by
  induction within generalizing more with
  | number shape =>
    obtain ⟨more, rfl⟩ : ∃ less, more = less + 1 := ⟨more - 1, by omega⟩
    simp only [Arena.valueWithin, node_number shape]
  | var shape =>
    obtain ⟨more, rfl⟩ : ∃ less, more = less + 1 := ⟨more - 1, by omega⟩
    simp only [Arena.valueWithin, node_var shape]
  | compound shape _ ih =>
    obtain ⟨more, rfl⟩ : ∃ less, more = less + 1 := ⟨more - 1, by omega⟩
    simp only [Arena.valueWithin, node_compound shape, Value.compound.injEq, true_and]
    exact List.map_congr_left fun arg member => ih arg member (by omega)

section

variable {id : TermId}

theorem value_eq (within : ledger.Within ledger.size id) {more : Nat} (enough : ledger.size ≤ more) :
    ledger.value id = ledger.arena.valueWithin more id := by
  rw [within.valueWithin enough, value, Arena.value, size_arena]

theorem Acyclic.value_number (acyclic : ledger.Acyclic) (wellFormed : ledger.WellFormed)
    (live : ledger.Live id) {number : Rational}
    (shape : ledger.shape? (ledger.arena.deref id) = some (.number number)) :
    ledger.value id = .number number := by
  rw [value_eq (acyclic.within wellFormed live) (Nat.le_succ _), Arena.valueWithin]
  simp only [node_number shape]

theorem Acyclic.value_var (acyclic : ledger.Acyclic) (wellFormed : ledger.WellFormed)
    (live : ledger.Live id) (shape : ledger.shape? (ledger.arena.deref id) = some .var) :
    ledger.value id = .var (ledger.arena.deref id) := by
  rw [value_eq (acyclic.within wellFormed live) (Nat.le_succ _), Arena.valueWithin]
  simp only [node_var shape]

theorem Acyclic.value_compound (acyclic : ledger.Acyclic) (wellFormed : ledger.WellFormed)
    (live : ledger.Live id) {symbol : Symbol} {args : List TermId}
    (shape : ledger.shape? (ledger.arena.deref id) = some (.compound symbol args)) :
    ledger.value id = .compound symbol (args.map ledger.value) := by
  rw [value_eq (acyclic.within wellFormed live) (Nat.le_succ _), Arena.valueWithin]
  simp only [node_compound shape, Value.compound.injEq, true_and]
  refine List.map_congr_left fun arg member => ?_
  have within := acyclic.within wellFormed (wellFormed.live_args shape arg member)
  exact (value_eq within (Nat.le_refl _)).symm

end

/-- What holds of the ends of chains, of a compound if it holds of its arguments, holds of every
    term. -/
@[elab_as_elim]
theorem Acyclic.induct (acyclic : ledger.Acyclic) (wellFormed : ledger.WellFormed)
    {motive : (id : TermId) → ledger.Live id → Prop}
    (number : ∀ id live value,
      ledger.shape? (ledger.arena.deref id) = some (.number value) → motive id live)
    (var : ∀ id live, ledger.shape? (ledger.arena.deref id) = some .var → motive id live)
    (compound : ∀ id live symbol args,
      ledger.shape? (ledger.arena.deref id) = some (.compound symbol args) →
      (∀ arg ∈ args, ∀ live, motive arg live) → motive id live) (id : TermId)
    (live : ledger.Live id) : motive id live := by
  have within := acyclic.within wellFormed live
  generalize ledger.size = fuel at within
  induction within with
  | number shape => exact number _ live _ shape
  | var shape => exact var _ live shape
  | compound shape _ ih => exact compound _ live _ _ shape fun arg member live => ih arg member live

theorem Acyclic.vars_open (acyclic : ledger.Acyclic) (wellFormed : ledger.WellFormed) {id : TermId}
    (live : ledger.Live id) :
    ∀ var ∈ (ledger.value id).vars, ledger.shape? var = some .var ∧ ledger.binding? var = none := by
  induction id, live using acyclic.induct wellFormed with
  | number id live value shape =>
    rw [acyclic.value_number wellFormed live shape]
    simp
  | var id live shape =>
    rw [acyclic.value_var wellFormed live shape]
    simpa using ⟨shape, wellFormed.unbound_deref id⟩
  | compound id live symbol args shape ih =>
    rw [acyclic.value_compound wellFormed live shape]
    intro var member
    obtain ⟨arg, listed, inside⟩ := List.mem_flatMap.mp ((Value.vars_compound _ _) ▸ member)
    obtain ⟨source, inArgs, rfl⟩ := List.mem_map.mp listed
    exact ih source inArgs (wellFormed.live_args shape source inArgs) var inside

theorem Acyclic.value_deref (acyclic : ledger.Acyclic) (wellFormed : ledger.WellFormed) {id : TermId}
    (live : ledger.Live id) : ledger.value (ledger.arena.deref id) = ledger.value id := by
  have ends : ledger.arena.deref (ledger.arena.deref id) = ledger.arena.deref id :=
    deref_of_unbound (wellFormed.binding?_deref id)
  rw [value_eq (acyclic.within wellFormed (wellFormed.live_deref live)) (Nat.le_succ _),
    value_eq (acyclic.within wellFormed live) (Nat.le_succ _), Arena.valueWithin, Arena.valueWithin,
    ends]

theorem Acyclic.models (acyclic : ledger.Acyclic) (wellFormed : ledger.WellFormed)
    (values : TermId → Tree) : Models (fun id => (ledger.value id).ground values) ledger where
  number := by
    intro id number shape
    have still : ledger.arena.deref id = id := wellFormed.deref_of_shape (by simp [shape])
    rw [acyclic.value_number wellFormed (live_of_shape shape) (by rw [still]; exact shape)]
    rfl
  compound := by
    intro id symbol args shape
    have still : ledger.arena.deref id = id := wellFormed.deref_of_shape (by simp [shape])
    rw [acyclic.value_compound wellFormed (live_of_shape shape) (by rw [still]; exact shape),
      Value.ground_compound, List.map_map]
    rfl
  bound := by
    intro binding member
    have varLive := live_of_shape (wellFormed.bound_var binding member)
    have same := wellFormed.deref_bound (wellFormed.lookup_bindings member)
    rw [← acyclic.value_deref wellFormed varLive, same,
      acyclic.value_deref wellFormed (wellFormed.target_live binding member)]

theorem Acyclic.value_later (acyclic : ledger.Acyclic) (laterAcyclic : later.Acyclic)
    (grown : later.Extends ledger) (wellFormed : ledger.WellFormed) (laterFormed : later.WellFormed)
    {id : TermId} (live : ledger.Live id) :
    later.value id = (ledger.value id).subst later.value := by
  induction id, live using acyclic.induct wellFormed with
  | number id live value shape =>
    rw [acyclic.value_number wellFormed live shape, laterAcyclic.value_number laterFormed
      (grown.live live) (grown.shape_deref wellFormed laterFormed shape (by simp))]
    rfl
  | var id live shape =>
    rw [acyclic.value_var wellFormed live shape, Value.subst_var,
      ← laterAcyclic.value_deref laterFormed (grown.live live),
      ← laterAcyclic.value_deref laterFormed (grown.live (live_of_shape shape)),
      grown.deref wellFormed laterFormed]
  | compound id live symbol args shape ih =>
    rw [acyclic.value_compound wellFormed live shape, laterAcyclic.value_compound laterFormed
      (grown.live live) (grown.shape_deref wellFormed laterFormed shape (by simp)),
      Value.subst_compound, List.map_map]
    congr 1
    exact List.map_congr_left fun arg member => ih arg member (wellFormed.live_args shape arg member)

theorem Acyclic.value_kept (acyclic : ledger.Acyclic) (laterAcyclic : later.Acyclic)
    (grown : later.Extends ledger) (wellFormed : ledger.WellFormed) (laterFormed : later.WellFormed)
    {id : TermId} (live : ledger.Live id)
    (unbound : ∀ var ∈ (ledger.value id).vars, later.binding? var = none) :
    later.value id = ledger.value id := by
  rw [acyclic.value_later laterAcyclic grown wellFormed laterFormed live]
  refine (Value.subst_congr fun var member => ?_).trans (Value.subst_self _)
  have isVar := grown.shape (acyclic.vars_open wellFormed live var member).1
  have ends := unbound var member
  rw [← laterFormed.binding?_arena] at ends
  have still : later.arena.deref var = var := deref_of_unbound ends
  rw [laterAcyclic.value_var laterFormed (live_of_shape isVar) (by rw [still]; exact isVar), still]

theorem Acyclic.value_same (acyclic : ledger.Acyclic) (laterAcyclic : later.Acyclic)
    (grown : later.Extends ledger) (bindings : later.bindings = ledger.bindings)
    (wellFormed : ledger.WellFormed) (laterFormed : later.WellFormed) {id : TermId}
    (live : ledger.Live id) : later.value id = ledger.value id := by
  refine acyclic.value_kept laterAcyclic grown wellFormed laterFormed live fun var member => ?_
  rw [binding?, bindings]
  exact (acyclic.vars_open wellFormed live var member).2

theorem Acyclic.value_allocates (acyclic : ledger.Acyclic) (wellFormed : ledger.WellFormed)
    (grown : later.Allocates ledger) {id : TermId} (live : ledger.Live id) :
    later.value id = ledger.value id :=
  acyclic.value_same (acyclic.allocates wellFormed grown) grown.extends grown.bindings wellFormed
    grown.wellFormed live

theorem deref_allocate (wellFormed : (ledger.allocate shape).WellFormed) (other : shape ≠ .var) :
    (ledger.allocate shape).arena.deref ⟨ledger.size⟩ = ⟨ledger.size⟩ := by
  apply wellFormed.deref_of_shape
  rw [shape?_allocate_size]
  simpa using other

theorem Acyclic.value_new_number (acyclic : ledger.Acyclic) (wellFormed : ledger.WellFormed)
    (number : Rational) : (ledger.allocate (.number number)).value ⟨ledger.size⟩ = .number number := by
  have grown := allocate_allocates wellFormed (admits_number number)
  apply (acyclic.allocates wellFormed grown).value_number grown.wellFormed (live_allocate _ _)
  rw [deref_allocate grown.wellFormed (by simp), shape?_allocate_size]

theorem Acyclic.value_new_compound (acyclic : ledger.Acyclic) (wellFormed : ledger.WellFormed)
    {symbol : Symbol} {args : List TermId} (live : ∀ arg ∈ args, ledger.Live arg) :
    (ledger.allocate (.compound symbol args)).value ⟨ledger.size⟩ =
      .compound symbol (args.map ledger.value) := by
  have grown := allocate_allocates wellFormed (@admits_compound _ symbol _ live)
  rw [(acyclic.allocates wellFormed grown).value_compound grown.wellFormed (live_allocate _ _)
    (by rw [deref_allocate grown.wellFormed (by simp), shape?_allocate_size])]
  congr 1
  exact List.map_congr_left fun arg member =>
    acyclic.value_allocates wellFormed grown (live arg member)

end Ledger

end Resolvent
